import CosmicArchitect.Simulation.WorldsLive
import CosmicArchitect.Spatial3D.DrainedWorld

/-!
# The loop of `SimulationUnload` (UniverseSimulation.cpp, lines 246-260)

The entities of `updating_entities` are asked to be unloaded, then the loop updates until they
and the worlds are gone. While it runs nobody asks for entities; the commands that wait are
dispatched in its first iteration, and the worlds only lose nodes.
-/

namespace CosmicArchitect.UniverseSimulation
open Library Serialize Spatial3D Universe

/-- `IsSimulationUnloadDone`; `spatial_scales` holds the scales of `spatial_worlds`. -/
def UnloadDone (s : Simulation) : Prop := s.updatingEntities = [] ∧ s.spatialWorlds = []

instance (s : Simulation) : Decidable (UnloadDone s) := inferInstanceAs (Decidable (_ ∧ _))

namespace SpatialWorld

/-- No node is loading, and none that has no task state owns a task. -/
def NodesDrain : SpatialWorld → Prop
  | .universe m => ∀ c, ∀ k ∈ m.world.cell c, k.Drains
  | .galaxy m => ∀ c, ∀ k ∈ m.world.cell c, k.Drains

/-- The world is in a state in which all its nodes can be unloaded. -/
def Drains : SpatialWorld → Prop
  | .universe m => m.Drains universeType Guard.any ∧ ¬m.Failed
  | .galaxy m => m.Drains galaxyType Guard.any ∧ ¬m.Failed

/-- A step while the simulation unloads. -/
inductive Moves : SpatialWorld → SpatialWorld → Prop
  | inUniverse {m m' : State UniverseNode} {l : Spatial3D.Label UniverseNode} (hl : l.Unloads)
      (h : Spatial3D.step universeType m l = some m') : Moves (.universe m) (.universe m')
  | inGalaxy {m m' : State GalaxyNode} {l : Spatial3D.Label GalaxyNode} (hl : l.Unloads)
      (h : Spatial3D.step galaxyType m l = some m') : Moves (.galaxy m) (.galaxy m')

variable {world world' : SpatialWorld}

theorem Moves.drains (h : Moves world world') (hd : world.Drains) : world'.Drains := by
  cases h with
  | inUniverse hl h => exact ⟨hd.1.step rfl hl h, step_not_failed hd.1.sound hd.2 h⟩
  | inGalaxy hl h => exact ⟨hd.1.step rfl hl h, step_not_failed hd.1.sound hd.2 h⟩

theorem Moves.unloading (h : Moves world world') (hd : world.Drains) :
    world'.unloading = world.unloading := by
  cases h with
  | inUniverse hl h => exact unloads_unloading hd.1.sound hd.1.control hl h
  | inGalaxy hl h => exact unloads_unloading hd.1.sound hd.1.control hl h

theorem Drains.unload (h : world.Drains) : world.unload.Drains := by
  match world with
  | .universe m => exact ⟨⟨unload_sound h.1.sound, h.1.control, h.1.cells⟩, h.2⟩
  | .galaxy m => exact ⟨⟨unload_sound h.1.sound, h.1.control, h.1.cells⟩, h.2⟩

theorem unload_unloading (world : SpatialWorld) : world.unload.unloading = true := by
  cases world <;> rfl

/-- A world whose loops have ended drains when its nodes do. -/
theorem NodesDrain.drains (h : world.NodesDrain) (hs : world.Sound) (hidle : world.isIdle = true) :
    world.Drains := by
  match world with
  | .universe m =>
    have hc : m.control = .idle := of_decide_eq_true hidle
    exact ⟨⟨hs.1, by simp [hc], h⟩, not_failed_of_control (by rw [hc]; rfl)⟩
  | .galaxy m =>
    have hc : m.control = .idle := of_decide_eq_true hidle
    exact ⟨⟨hs.1, by simp [hc], h⟩, not_failed_of_control (by rw [hc]; rfl)⟩

end SpatialWorld

/-! ### The condition -/

/-- The component points to a living world, which before a dispatch is not being unloaded: it
lives until the dispatch. -/
def Simulation.Holds (s : Simulation) (world : Option Nat) : Prop :=
  ∃ a, world = some a ∧ ∃ w, s.worlds a = some w ∧ (s.control = .idle → w.unloading = false)

/-- What the callbacks of `BeginUnload` dereference is there. -/
def Unloadable (s : Simulation) (id : Nat) : Prop :=
  ∃ entity, s.entityFactory id = some entity ∧
    (entity.has [cWorld] = true → s.Holds entity.world) ∧
    (entity.has [cLoader, cEntity] = true → s.Holds entity.parentWorld)

/-- The entity unloads the world at `a`. -/
def Owns (s : Simulation) (id a : Nat) : Prop :=
  ∃ entity ∈ s.entityFactory id, entity.has [cWorld] = true ∧ entity.world = some a

def hasWorld (s : Simulation) (id : Nat) : Bool :=
  (s.entityFactory id).any fun entity => entity.has [cWorld]

/-- What `SimulationUnload` needs of the state it is called in: no command waits, each world is
unloading or has an entity in `updating_entities` that unloads it, these entities unload
without fault, and no node is stuck. -/
structure Closable (s : Simulation) : Prop where
  commands : waiting s.threadContexts = []
  entities : ∀ id ∈ s.updatingEntities, Unloadable s id
  distinct : (s.updatingEntities.filter (hasWorld s)).Nodup
  worlds : ∀ a ∈ s.spatialWorlds, ∀ world ∈ s.worlds a,
    world.unloading = true ∨ ∃ id ∈ s.updatingEntities, Owns s id a
  nodes : ∀ a ∈ s.spatialWorlds, ∀ world ∈ s.worlds a, world.NodesDrain

/-! ### The state while the loop runs -/

/-- The loop is running, and the entities `ids` wait to be unloaded. -/
structure Closing (s : Simulation) (ids : List Nat) : Prop where
  unloading : s.unloading = true
  running : s.control = .idle ∨ s.control = .dispatching
  updating : s.updatingEntities = []
  commands : waiting s.threadContexts = ids.map fun id => (.beginUnload, some id)
  workers : s.threadContexts ≠ []
  live : WorldsLive s.listedWorlds
  drains : ∀ a, ∀ world ∈ s.worlds a, world.Drains
  entities : ∀ id ∈ ids, Unloadable s id
  distinct : (ids.filter (hasWorld s)).Nodup
  worlds : ∀ a, ∀ world ∈ s.worlds a, world.unloading = true ∨ ∃ id ∈ ids, Owns s id a

/-- Everything a step of the loop can do. -/
inductive ClosingStep (s s' : Simulation) (ids : List Nat) : Label → Prop
  | universeWorld {i a : Nat} {l : Spatial3D.Label UniverseNode} {m m' : State UniverseNode}
      (ha : s.worlds a = some (.universe m)) (hl : l.Unloads)
      (hstep : Spatial3D.step universeType m l = some m')
      (h : s' = { s with worlds := Function.update s.worlds a (some (.universe m')) }) :
      ClosingStep s s' ids (.universeWorld i a l)
  | galaxyWorld {a : Nat} {l : Spatial3D.Label GalaxyNode} {m m' : State GalaxyNode}
      (ha : s.worlds a = some (.galaxy m)) (hl : l.Unloads)
      (hstep : Spatial3D.step galaxyType m l = some m')
      (h : s' = { s with worlds := Function.update s.worlds a (some (.galaxy m')) }) :
      ClosingStep s s' ids (.galaxyWorld a l)
  | destroy (hidle : s.control = .idle) (h : s' = spatialUpdate s) :
      ClosingStep s s' ids .spatialUpdate
  | dispatch (hidle : s.control = .idle) (h : s' = { s with control := .dispatching }) :
      ClosingStep s s' ids .dispatch
  | unload {id : Nat} {rest : List Nat} {contexts : List ThreadContext}
      {database : Option (NodeCoord → Option Bytes)} (hdispatching : s.control = .dispatching)
      (hids : ids = id :: rest) (hworkers : contexts ≠ [])
      (hcontexts : waiting contexts = rest.map fun id => (.beginUnload, some id))
      (h : s' = doEvent database { s with threadContexts := contexts } .beginUnload (some id)) :
      ClosingStep s s' ids (.next database)
  | cleaned {database : Option (NodeCoord → Option Bytes)} (hdispatching : s.control = .dispatching)
      (hids : ids = []) (h : s' = { cleanup s with control := .idle }) :
      ClosingStep s s' ids (.next database)

theorem Simulation.Allows.unloads {D : Type} {s : Simulation} {l : Spatial3D.Label D}
    (h : s.Allows l) (hs : s.unloading = true) : l.Unloads := by
  cases l with
  | touchNode s pos now fresh => exact absurd (hs.symm.trans h.2) (by simp)
  | worldDoNodeLoadCommands now => exact absurd (hs.symm.trans h.2) (by simp)
  | editNode s pos body => exact h.elim
  | unloadWorld => exact h.elim
  | _ => trivial

/-- A step of a world that has not failed leaves the control of the simulation as it is. -/
theorem control_of_not_failed {D : Type} {m : State D} (h : ¬m.Failed)
    (c : UniverseSimulation.Control) (f : UniverseSimulation.Fault) :
    (if m.control.isFault then .fault f else c) = c := by
  cases hc : m.control with
  | fault f' => exact absurd ⟨f', hc⟩ h
  | _ => rfl

variable {s s' : Simulation} {ids : List Nat}

theorem closing_cases (h : Closing s ids) {l : Label} (hl : l ≠ .simulationUnloaded)
    (hstep : step s l = some s') : ClosingStep s s' ids l := by
  have hcalls : ∀ i, ¬s.Callable i := fun i hc => absurd (h.unloading.symm.trans hc.2.1) (by simp)
  cases step_stepped hstep with
  | createUniverse hc => exact absurd hc (hcalls _)
  | createSimulatedGalaxy hc => exact absurd hc (hcalls _)
  | disconnectFromUniverse hc => exact absurd hc (hcalls _)
  | simulationUnload hc => exact absurd hc (hcalls _)
  | simulationUnloaded hidle hunloading hworlds => exact absurd rfl hl
  | @universeWorld i a _ m m' hm hallows hi hworld =>
    obtain ⟨hdrains, hfailed⟩ := h.drains a _ hm
    refine .universeWorld hm (hallows.unloads h.unloading) hworld ?_
    rw [readRequests_nil hdrains.control, afterUniverseStep, List.foldl_nil,
      control_of_not_failed (step_not_failed hdrains.sound hfailed hworld)]
  | @galaxyWorld a _ m m' hm hallows hworld =>
    obtain ⟨hdrains, hfailed⟩ := h.drains a _ hm
    refine .galaxyWorld hm (hallows.unloads h.unloading) hworld ?_
    rw [control_of_not_failed (step_not_failed hdrains.sound hfailed hworld)]
  | scaleUpdateEntityNodes hm hidle hunloading hne hmove =>
    exact absurd (h.unloading.symm.trans hunloading) (by simp)
  | spatialUpdate hidle => exact .destroy hidle rfl
  | dispatch hidle => exact .dispatch hidle rfl
  | event hc hpop =>
    have hwaiting := (popCommand_waiting hpop).symm.trans h.commands
    cases ids with
    | nil => cases hwaiting
    | cons id rest =>
      obtain ⟨hcommand, hrest⟩ := List.cons.inj hwaiting
      obtain ⟨rfl, rfl⟩ := Prod.mk.inj hcommand
      exact .unload hc rfl (popCommand_ne_nil hpop) hrest rfl
  | cleanup hc hpop =>
    have hwaiting := (popCommand_none hpop).symm.trans h.commands
    exact .cleaned hc (List.map_eq_nil_iff.mp hwaiting.symm) rfl

/-! ### An entity is unloaded -/

/-- What `BeginUnload` does to an entity whose callbacks find what they dereference. -/
structure UnloadEvent (s s' : Simulation) (id : Nat) (entity : Entity) : Prop where
  unloading : s'.unloading = s.unloading
  control : s'.control = s.control
  updating : s'.updatingEntities = unorderedErase s.updatingEntities id
  contexts : s'.threadContexts = s.threadContexts
  without : entity.has [cWorld] = false →
    s'.worlds = s.worlds ∧ s'.entityFactory = s.entityFactory
  world : ∀ a w, entity.has [cWorld] = true → entity.world = some a → s.worlds a = some w →
    s'.worlds = Function.update s.worlds a (some w.unload) ∧
      s'.entityFactory = Function.update s.entityFactory id (some { entity with world := none })

/-- The callbacks in front of the spatial one. -/
theorem unload_lists (s : Simulation) (id : Nat) (entity : Entity) : ∃ t : Simulation,
    (let s := onUnloadEntity s id
     let s := if entity.has [cUniverse] then onUnloadUniverseEntity s id else s
     if entity.has [cGalaxy] then onUnloadGalaxyEntity s id else s) = t ∧
    t.unloading = s.unloading ∧ t.control = s.control ∧
    t.updatingEntities = unorderedErase s.updatingEntities id ∧
    t.threadContexts = s.threadContexts ∧ t.worlds = s.worlds ∧
    t.entityFactory = s.entityFactory := by
  cases entity.has [cUniverse] <;> cases entity.has [cGalaxy] <;>
    exact ⟨_, rfl, rfl, rfl, rfl, rfl, rfl, rfl⟩

theorem onLoaderEntity_eq {s : Simulation} {entity : Entity} {a : Nat}
    (hparent : entity.parentWorld = some a) (ha : (s.worlds a).isSome = true) :
    onLoaderEntity s entity = s := by
  simp only [onLoaderEntity, hparent, ha, if_true]

theorem doEvent_unload (database : Option (NodeCoord → Option Bytes)) {id : Nat}
    (h : Unloadable s id) :
    ∃ entity, s.entityFactory id = some entity ∧
      UnloadEvent s (doEvent database s .beginUnload (some id)) id entity := by
  obtain ⟨entity, hentity, hworld, hloader⟩ := h
  refine ⟨entity, hentity, ?_⟩
  have hevent : doEvent database s .beginUnload (some id) =
      beginUnload (s.record (.dispatched .beginUnload id)) id entity := by
    simp only [doEvent, hentity]
  rw [hevent]
  obtain ⟨t, hlists, hunloading, hcontrol, hupdating, hcontexts, hworlds, hfactory⟩ :=
    unload_lists (s.record (.dispatched .beginUnload id)) id entity
  -- The loader callback finds the world of its parent, before and after the spatial callback.
  have hcallback : ∀ t : Simulation, (∀ a, (s.worlds a).isSome = true → (t.worlds a).isSome = true) →
      (if entity.has [cLoader, cEntity] then onLoaderEntity t entity else t) = t := by
    intro t ht
    cases hhas : entity.has [cLoader, cEntity] with
    | false => rfl
    | true =>
      obtain ⟨a, hparent, w, hw, -⟩ := hloader hhas
      exact onLoaderEntity_eq hparent (ht a (by rw [hw]; rfl))
  unfold beginUnload
  dsimp only at hlists ⊢
  rw [hlists]
  cases hhas : entity.has [cWorld] with
  | false =>
    simp only [Bool.false_eq_true, if_false]
    rw [hcallback t fun a ha => by rw [hworlds]; exact ha]
    exact ⟨hunloading, hcontrol, hupdating, hcontexts, fun _ => ⟨hworlds, hfactory⟩,
      fun a w h => absurd (hhas.symm.trans h) (by simp)⟩
  | true =>
    obtain ⟨a, ha, w, hw, -⟩ := hworld hhas
    have hwt : t.worlds a = some w := (congrFun hworlds a).trans hw
    have hspatial : onUnloadSpatialEntity t id entity =
        { modifyEntity t id fun entity => { entity with world := none } with
          worlds := Function.update t.worlds a (some w.unload) } := by
      simp only [onUnloadSpatialEntity, ha, hwt]
      rfl
    have hlive : ∀ b, (s.worlds b).isSome = true →
        (Function.update t.worlds a (some w.unload) b).isSome = true := by
      intro b hb
      by_cases hba : b = a
      · rw [hba, Function.update_self]
        rfl
      · rw [Function.update_of_ne hba, hworlds]
        exact hb
    simp only [if_true]
    rw [hspatial, hcallback _ hlive]
    refine ⟨hunloading, hcontrol, hupdating, hcontexts,
      fun h => absurd (hhas.symm.trans h) (by simp), ?_⟩
    intro b w' _ hb hw'
    cases ha.symm.trans hb
    cases hw.symm.trans hw'
    refine ⟨congrArg (Function.update · a (some w.unload)) hworlds, ?_⟩
    show Function.update t.entityFactory id ((t.entityFactory id).map _) = _
    rw [hfactory]
    show Function.update s.entityFactory id ((s.entityFactory id).map _) = _
    rw [hentity]
    rfl

/-! ### Closing is kept -/

/-- An entity stays unloadable when what it points to lives on, not unloading before a dispatch. -/
theorem Unloadable.mono {id : Nat} (h : Unloadable s id)
    (hfactory : s'.entityFactory id = s.entityFactory id)
    (hworlds : ∀ a w, s.worlds a = some w → (s.control = .idle → w.unloading = false) →
      ∃ w', s'.worlds a = some w' ∧ (s'.control = .idle → w'.unloading = false)) :
    Unloadable s' id := by
  have hholds : ∀ {world : Option Nat}, s.Holds world → s'.Holds world := by
    rintro world ⟨a, rfl, w, hw, hun⟩
    exact ⟨a, rfl, hworlds a w hw hun⟩
  obtain ⟨entity, hentity, hworld, hloader⟩ := h
  exact ⟨entity, hfactory.trans hentity, fun hhas => hholds (hworld hhas),
    fun hhas => hholds (hloader hhas)⟩

theorem owns_congr {id a : Nat} (hfactory : s'.entityFactory id = s.entityFactory id) :
    Owns s' id a ↔ Owns s id a := by
  simp only [Owns, hfactory]

theorem hasWorld_congr {id : Nat} (hfactory : s'.entityFactory id = s.entityFactory id) :
    hasWorld s' id = hasWorld s id := by
  simp only [hasWorld, hfactory]

namespace Closing

theorem world (h : Closing s ids) {a : Nat} {world world' : SpatialWorld}
    (ha : s.worlds a = some world) (hmoves : world.Moves world')
    (hlive : WorldsLive ({ s with worlds := Function.update s.worlds a (some world') }).listedWorlds) :
    Closing { s with worlds := Function.update s.worlds a (some world') } ids := by
  have hun := hmoves.unloading (h.drains a world ha)
  have hkept : ∀ b w, Function.update s.worlds a (some world') b = some w →
      ∃ w₀, s.worlds b = some w₀ ∧ w.unloading = w₀.unloading ∧ w.Drains := by
    intro b w hw
    by_cases hba : b = a
    · subst hba
      rw [Function.update_self] at hw
      cases hw
      exact ⟨world, ha, hun, hmoves.drains (h.drains b world ha)⟩
    · rw [Function.update_of_ne hba] at hw
      exact ⟨w, hw, rfl, h.drains b w hw⟩
  refine ⟨h.unloading, h.running, h.updating, h.commands, h.workers, hlive, fun b w hw => ?_, fun id hid => ?_,
    h.distinct, fun b w hw => ?_⟩
  · obtain ⟨-, -, -, hdrains⟩ := hkept b w hw
    exact hdrains
  · refine (h.entities id hid).mono rfl fun b w hw hidle => ?_
    by_cases hba : b = a
    · subst hba
      cases ha.symm.trans hw
      exact ⟨world', Function.update_self .., fun hc => hun.trans (hidle hc)⟩
    · exact ⟨w, (Function.update_of_ne hba ..).trans hw, hidle⟩
  · obtain ⟨w₀, hw₀, heq, -⟩ := hkept b w hw
    rw [heq]
    exact h.worlds b w₀ hw₀

theorem destroy (h : Closing s ids) (hidle : s.control = .idle)
    (hlive : WorldsLive (spatialUpdate s).listedWorlds) : Closing (spatialUpdate s) ids := by
  have hkept : ∀ b w, (spatialUpdate s).worlds b = some w → s.worlds b = some w := by
    intro b w hw
    simp only [spatialUpdate] at hw
    split at hw
    · cases hw
    · exact hw
  refine ⟨h.unloading, h.running, h.updating, h.commands, h.workers, hlive,
    fun b w hw => h.drains b w (hkept b w hw), fun id hid => ?_, h.distinct,
    fun b w hw => h.worlds b w (hkept b w hw)⟩
  refine (h.entities id hid).mono rfl fun b w hw hun => ⟨w, ?_, hun⟩
  -- The world of an entity that waits is not unloading yet, so it is not destroyed.
  simp only [spatialUpdate, hw, Option.any_some, hun hidle, Bool.false_and, Bool.false_eq_true,
    if_false]

theorem dispatch (h : Closing s ids) : Closing { s with control := .dispatching } ids := by
  refine ⟨h.unloading, Or.inr rfl, h.updating, h.commands, h.workers, h.live, h.drains, fun id hid => ?_,
    h.distinct, h.worlds⟩
  exact (h.entities id hid).mono rfl fun b w hw _ => ⟨w, hw, fun hc => absurd hc (by simp)⟩

theorem cleaned (h : Closing s []) : Closing { cleanup s with control := .idle } [] :=
  ⟨h.unloading, Or.inl rfl, h.updating, h.commands, h.workers, h.live, h.drains,
    fun id hid => absurd hid List.not_mem_nil, List.nodup_nil, fun a w hw =>
      (h.worlds a w hw).imp_right fun hex => by
        obtain ⟨id, hid, -⟩ := hex
        exact absurd hid List.not_mem_nil⟩

/-- An entity that has a world waits once. -/
theorem once {id : Nat} {rest : List Nat} (h : Closing s (id :: rest))
    (hhas : hasWorld s id = true) : id ∉ rest := by
  intro hid
  have hdistinct := h.distinct
  rw [List.filter_cons_of_pos hhas] at hdistinct
  exact (List.nodup_cons.mp hdistinct).1 (List.mem_filter.mpr ⟨hid, hhas⟩)

theorem unloaded {id : Nat} {rest : List Nat} (h : Closing s (id :: rest))
    (hcontrol : s'.control = .dispatching) (hunloading : s'.unloading = s.unloading)
    (hupdating : s'.updatingEntities = [])
    (hcommands : waiting s'.threadContexts = rest.map fun id => (.beginUnload, some id))
    (hworkers : s'.threadContexts ≠ []) (hlive : WorldsLive s'.listedWorlds)
    (hhas : ∀ id', hasWorld s' id' = hasWorld s id')
    (hfactory : ∀ id' ∈ rest, s'.entityFactory id' = s.entityFactory id')
    (hstays : ∀ b w, s.worlds b = some w → ∃ w', s'.worlds b = some w')
    (hworlds : ∀ b w', s'.worlds b = some w' → w'.Drains ∧
      (w'.unloading = true ∨ s.worlds b = some w' ∧ ¬Owns s id b)) : Closing s' rest := by
  refine ⟨hunloading.trans h.unloading, Or.inr hcontrol, hupdating, hcommands, hworkers, hlive,
    fun b w hw => (hworlds b w hw).1, fun id' hid' => ?_, ?_, fun b w hw => ?_⟩
  · refine (h.entities id' (List.mem_cons_of_mem _ hid')).mono (hfactory id' hid') fun b w hw _ => ?_
    obtain ⟨w', hw'⟩ := hstays b w hw
    exact ⟨w', hw', fun hc => absurd (hcontrol.symm.trans hc) (by simp)⟩
  · rw [funext hhas]
    exact h.distinct.sublist ((List.sublist_cons_self id rest).filter _)
  · rcases (hworlds b w hw).2 with hun | ⟨hsame, hnot⟩
    · exact Or.inl hun
    · refine (h.worlds b w hsame).imp_right ?_
      rintro ⟨id', hid', howns⟩
      rcases List.mem_cons.mp hid' with rfl | hid'
      · exact absurd howns hnot
      · exact ⟨id', hid', (owns_congr (hfactory id' hid')).mpr howns⟩

/-- The first of the entities that wait is unloaded. -/
theorem unload {id : Nat} {rest : List Nat} (h : Closing s (id :: rest))
    (hdispatching : s.control = .dispatching) {contexts : List ThreadContext}
    (hworkers : contexts ≠ [])
    (hcontexts : waiting contexts = rest.map fun id => (.beginUnload, some id))
    (database : Option (NodeCoord → Option Bytes))
    (hlive : WorldsLive (doEvent database { s with threadContexts := contexts } .beginUnload
      (some id)).listedWorlds) :
    let s' := doEvent database { s with threadContexts := contexts } .beginUnload (some id)
    Closing s' rest ∧ s'.control = .dispatching := by
  have hunloadable : Unloadable { s with threadContexts := contexts } id :=
    (h.entities id List.mem_cons_self).mono rfl fun b w hw hun => ⟨w, hw, hun⟩
  obtain ⟨entity, hentity, hevent⟩ := doEvent_unload database hunloadable
  obtain ⟨entity', hentity', hworld, -⟩ := hunloadable
  cases hentity.symm.trans hentity'
  have hentity : s.entityFactory id = some entity := hentity
  have hid : hasWorld s id = entity.has [cWorld] := by
    simp only [hasWorld, hentity, Option.any_some]
  dsimp only
  generalize doEvent database { s with threadContexts := contexts } .beginUnload (some id) = s'
    at hlive hevent ⊢
  have hcontrol : s'.control = .dispatching := hevent.control.trans hdispatching
  refine ⟨?_, hcontrol⟩
  have hupdating : s'.updatingEntities = [] := by
    rw [hevent.updating]
    show unorderedErase s.updatingEntities id = []
    rw [h.updating]
    rfl
  have hcommands : waiting s'.threadContexts = rest.map fun id => (.beginUnload, some id) :=
    (congrArg waiting hevent.contexts).trans hcontexts
  have hworkers : s'.threadContexts ≠ [] := fun hnil => hworkers (hevent.contexts.symm.trans hnil)
  cases hhas : entity.has [cWorld] with
  | false =>
    obtain ⟨hworlds, hfactory⟩ := hevent.without hhas
    have hworlds : s'.worlds = s.worlds := hworlds
    have hfactory : s'.entityFactory = s.entityFactory := hfactory
    refine h.unloaded hcontrol hevent.unloading hupdating hcommands hworkers hlive
      (fun id' => hasWorld_congr (congrFun hfactory id')) (fun id' _ => congrFun hfactory id')
      (fun b w hw => ⟨w, (congrFun hworlds b).trans hw⟩) fun b w hw => ?_
    have hw : s.worlds b = some w := (congrFun hworlds b).symm.trans hw
    refine ⟨h.drains b w hw, Or.inr ⟨hw, ?_⟩⟩
    rintro ⟨entity', hentity', hhas', -⟩
    cases hentity.symm.trans hentity'
    exact absurd (hhas.symm.trans hhas') (by simp)
  | true =>
    obtain ⟨a, ha, w, hw, -⟩ := hworld hhas
    obtain ⟨hworlds, hfactory⟩ := hevent.world a w hhas ha hw
    have hworlds : s'.worlds = Function.update s.worlds a (some w.unload) := hworlds
    have hfactory : s'.entityFactory =
        Function.update s.entityFactory id (some { entity with world := none }) := hfactory
    have hother : ∀ id', id' ≠ id → s'.entityFactory id' = s.entityFactory id' := by
      intro id' hne
      rw [hfactory, Function.update_of_ne hne]
    refine h.unloaded hcontrol hevent.unloading hupdating hcommands hworkers hlive
      (fun id' => ?_) (fun id' hid' => hother id' ?_) (fun b w' hw' => ?_) fun b w' hw' => ?_
    · by_cases hne : id' = id
      · subst hne
        rw [hid]
        simp only [hasWorld, hfactory, Function.update_self, Option.any_some]
        rfl
      · exact hasWorld_congr (hother id' hne)
    · rintro rfl
      exact h.once (hid.trans hhas) hid'
    · rw [hworlds]
      by_cases hba : b = a
      · exact ⟨w.unload, by rw [hba, Function.update_self]⟩
      · exact ⟨w', by rw [Function.update_of_ne hba, hw']⟩
    · rw [hworlds] at hw'
      by_cases hba : b = a
      · subst hba
        rw [Function.update_self] at hw'
        cases hw'
        exact ⟨(h.drains b w hw).unload, Or.inl w.unload_unloading⟩
      · rw [Function.update_of_ne hba] at hw'
        refine ⟨h.drains b w' hw', Or.inr ⟨hw', ?_⟩⟩
        rintro ⟨entity', hentity', -, hb⟩
        cases hentity.symm.trans hentity'
        exact hba (Option.some.inj (hb.symm.trans ha))

/-- A dispatch that has begun ends only when no command waits. -/
theorem step (h : Closing s ids) {l : Label} (hl : l ≠ .simulationUnloaded)
    (hstep : step s l = some s') :
    ∃ ids', Closing s' ids' ∧ (ids = [] → ids' = []) ∧
      (s.control = .dispatching → s'.control = .dispatching ∨
        (∃ database, l = .next database) ∧ s'.control = .idle ∧ ids' = []) := by
  have hlive := h.live.effects (step_worldsEffects hstep)
  cases closing_cases h hl hstep with
  | universeWorld ha hu hworld heq =>
    subst heq
    exact ⟨ids, h.world ha (.inUniverse hu hworld) hlive, id, Or.inl⟩
  | galaxyWorld ha hu hworld heq =>
    subst heq
    exact ⟨ids, h.world ha (.inGalaxy hu hworld) hlive, id, Or.inl⟩
  | destroy hidle heq =>
    subst heq
    exact ⟨ids, h.destroy hidle hlive, id, Or.inl⟩
  | dispatch hidle heq =>
    subst heq
    exact ⟨ids, h.dispatch, id, fun _ => Or.inl rfl⟩
  | @unload first rest contexts database hdispatching hids hworkers hcontexts heq =>
    subst heq hids
    obtain ⟨hrest, hcontrol⟩ := h.unload hdispatching hworkers hcontexts database hlive
    exact ⟨rest, hrest, fun hnil => absurd hnil (List.cons_ne_nil _ _), fun _ => Or.inl hcontrol⟩
  | cleaned hdispatching hids heq =>
    subst heq hids
    exact ⟨[], h.cleaned, id, fun _ => Or.inr ⟨⟨_, rfl⟩, rfl, rfl⟩⟩

end Closing

/-! ### The loop does not block -/

/-- The loop of a world, while it runs, has a step to take. -/
theorem unloading_next {D : Type} {t : TypeData D} {m : State D} (hroom : m.world.HasRoom)
    (hload : ∀ now s it, m.control ≠ .loading now s it) (hfailed : ¬m.Failed)
    (hidle : m.control ≠ .idle) :
    ∃ fresh m', Spatial3D.step t m (.next fresh 0) = some m' := by
  obtain ⟨fresh, hfresh⟩ := hroom
  have hnone : (m.world.tasks fresh).isNone = true := by
    rw [hfresh fresh (Nat.le_refl fresh)]
    rfl
  cases hc : m.control with
  | idle => exact absurd hc hidle
  | loading now s it => exact absurd hc (hload now s it)
  | unloading s it =>
    refine ⟨fresh, nextUnload t fresh m s it, ?_⟩
    simp only [Spatial3D.step, if_pos hnone, hc]
  | fault f => exact absurd ⟨f, hc⟩ hfailed

theorem closing_progress (h : Closing s ids) :
    ∃ l : Label, l ≠ .simulationUnloaded ∧ (step s l).isSome = true := by
  rcases h.running with hc | hc
  · by_cases hidle : s.worldsIdle = true
    · refine ⟨.dispatch, by simp, ?_⟩
      simp only [step, if_pos (And.intro hc hidle), Option.isSome_some]
    · -- A world is still in its loop.
      obtain ⟨a, -, hworld⟩ := List.all_eq_false.mp (Bool.eq_false_iff.mpr hidle)
      obtain ⟨world, hw⟩ : ∃ world, s.worlds a = some world := by
        refine Option.ne_none_iff_exists'.mp fun hnone => hworld ?_
        rw [hnone]
        rfl
      rcases world with m | m
      · obtain ⟨hdrains, hfailed⟩ := h.drains a _ hw
        have hidle : m.control ≠ .idle := by simpa [hw, SpatialWorld.isIdle] using hworld
        obtain ⟨fresh, m', hstep⟩ := unloading_next (t := universeType)
          (h.live.sound a _ hw).2 hdrains.control hfailed hidle
        have hworkers : 0 < s.threadContexts.length := List.length_pos_of_ne_nil h.workers
        have hallows : s.Allows (.next fresh 0 : Spatial3D.Label UniverseNode) := hc
        refine ⟨.universeWorld 0 a (.next fresh 0), by simp, ?_⟩
        simp only [step, hw, if_pos (And.intro hallows hworkers), hstep, Option.map_some,
          Option.isSome_some]
      · obtain ⟨hdrains, hfailed⟩ := h.drains a _ hw
        have hidle : m.control ≠ .idle := by simpa [hw, SpatialWorld.isIdle] using hworld
        obtain ⟨fresh, m', hstep⟩ := unloading_next (t := galaxyType)
          (h.live.sound a _ hw).2 hdrains.control hfailed hidle
        have hallows : s.Allows (.next fresh 0 : Spatial3D.Label GalaxyNode) := hc
        refine ⟨.galaxyWorld a (.next fresh 0), by simp, ?_⟩
        simp only [step, hw, if_pos hallows, hstep, Option.map_some, Option.isSome_some]
  · refine ⟨.next none, by simp, ?_⟩
    cases hpop : popCommand s.threadContexts with
    | none => simp only [step, hc, if_true, hpop, Option.isSome_some]
    | some popped => simp only [step, hc, if_true, hpop, Option.isSome_some]

/-! ### The call of `SimulationUnload` -/

theorem unloads_eq (i : Nat) (entities : List Nat) : ∀ s : Simulation,
    ∃ history, entities.foldl (fun simulation entity =>
      simulationUnloadEntity simulation i (some entity)) s =
        { s with
          threadContexts := s.threadContexts.modify i fun context =>
            { context with unloadCommands := context.unloadCommands ++ entities.map some }
          history := history } := by
  induction entities with
  | nil =>
    intro s
    refine ⟨s.history, ?_⟩
    simp only [List.foldl_nil, List.map_nil, List.append_nil]
    show s = { s with threadContexts := s.threadContexts.modify i id }
    rw [List.modify_id]
  | cons entity entities ih =>
    intro s
    obtain ⟨history, hrest⟩ := ih (simulationUnloadEntity s i (some entity))
    refine ⟨history, hrest.trans ?_⟩
    simp only [simulationUnloadEntity, List.modify_modify_eq]
    congr 2
    funext context
    simp

/-- Where no command waits, those of the call are the only ones. -/
theorem waiting_modify (ids : List Nat) : ∀ {contexts : List ThreadContext} {i : Nat},
    waiting contexts = [] → i < contexts.length →
      waiting (contexts.modify i fun context =>
        { context with unloadCommands := context.unloadCommands ++ ids.map some }) =
        ids.map fun id => (.beginUnload, some id) := by
  intro contexts
  induction contexts with
  | nil => exact fun _ hi => absurd hi (Nat.not_lt_zero _)
  | cons context rest ih =>
    intro i hwaiting hi
    rw [waiting_cons] at hwaiting
    obtain ⟨hfirst, hrest⟩ := List.append_eq_nil_iff.mp hwaiting
    cases i with
    | zero =>
      rw [List.modify_zero_cons, waiting_cons, hrest, List.append_nil]
      simp only [waiting, List.flatMap_cons, List.flatMap_nil, List.append_nil,
        List.append_eq_nil_iff, List.map_eq_nil_iff] at hfirst
      simp only [waiting, List.flatMap_cons, List.flatMap_nil, List.append_nil, hfirst.1, hfirst.2,
        List.map_nil, List.nil_append, List.map_map]
      rfl
    | succ i =>
      rw [List.modify_succ_cons, waiting_cons, hfirst, List.nil_append]
      exact ih hrest (Nat.lt_of_succ_lt_succ hi)

theorem unloadDone_of_no_worlds (i : Nat) (h : s.spatialWorlds = []) :
    UnloadDone (simulationUnload s i) ∧ (simulationUnload s i).control = s.control := by
  obtain ⟨history, heq⟩ :=
    unloads_eq i s.updatingEntities { s with unloading := true, updatingEntities := [] }
  rw [show simulationUnload s i = _ from heq]
  exact ⟨⟨rfl, h⟩, rfl⟩

/-- The call of `SimulationUnload` starts the loop. -/
theorem closing_of_closable (hlive : WorldsLive s.listedWorlds) {i : Nat} (hi : s.Callable i)
    (hidle : s.worldsIdle = true) (h : Closable s) :
    Closing (simulationUnload s i) s.updatingEntities := by
  obtain ⟨history, heq⟩ :=
    unloads_eq i s.updatingEntities { s with unloading := true, updatingEntities := [] }
  have hlisted : ∀ a w, s.worlds a = some w → a ∈ s.spatialWorlds := fun a w hw =>
    (hlive.listed a).mpr (by
      show (s.worlds a).isSome = true
      rw [hw]
      rfl)
  have hworkers : (s.threadContexts.modify i fun context =>
      { context with unloadCommands := context.unloadCommands ++ s.updatingEntities.map some }) ≠
        [] := by
    refine List.ne_nil_of_length_pos ?_
    rw [List.length_modify]
    exact Nat.lt_of_le_of_lt (Nat.zero_le i) hi.2.2
  rw [show simulationUnload s i = _ from heq]
  refine ⟨rfl, Or.inl hi.1, rfl, waiting_modify _ h.commands hi.2.2, hworkers, hlive, fun a w hw => ?_,
    fun id hid => (h.entities id hid).mono rfl fun b w hw hun => ⟨w, hw, hun⟩, h.distinct,
    fun a w hw => h.worlds a (hlisted a w hw) w hw⟩
  have ha := hlisted a w hw
  refine (h.nodes a ha w hw).drains (hlive.sound a w hw) ?_
  have hall := List.all_eq_true.mp hidle a ha
  rw [show s.worlds a = some w from hw] at hall
  exact hall

end CosmicArchitect.UniverseSimulation
