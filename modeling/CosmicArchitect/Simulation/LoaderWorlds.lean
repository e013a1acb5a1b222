import CosmicArchitect.Simulation.EntityEvents

/-!
# The worlds of loaders (UniverseServer/UniverseServer_Universe.cpp)

`StartLocalUniverse` hands the world of the universe entity to the simulated galaxy before
`SimulationUpdate` has dispatched the event that creates this world.
-/

namespace CosmicArchitect.UniverseSimulation
open Library Serialize Spatial3D Universe

/-- `StartLocalUniverse`; `CreateLocalPlayer` returns the null reference. -/
def startLocalUniverse (simulation : Simulation) (i id : Nat) : Simulation :=
  createSimulatedGalaxy (createUniverse simulation i) i id

/-- The steps a `SimulationUpdate` is made of. -/
def Label.inUpdate : Label → Bool
  | .universeWorld .. => true
  | .galaxyWorld .. => true
  | .scaleUpdateEntityNodes .. => true
  | .spatialUpdate => true
  | .dispatch => true
  | .next _ => true
  | _ => false

inductive ServerLabel
  | startLocalUniverse (context id : Nat)
  | disconnectFromUniverse (context : Nat)
  | simulationUpdate (l : Label)

/- `GenerateUUID` does not return the id of the universe entity, which has no component to
   write the parent world to. -/
def serverStep (simulation : Simulation) : ServerLabel → Option Simulation
  | .startLocalUniverse i id =>
    if simulation.Callable i ∧ id ≠ universeId then some (startLocalUniverse simulation i id)
    else none
  | .disconnectFromUniverse i => step simulation (.disconnectFromUniverse i)
  | .simulationUpdate l => if l.inUpdate then step simulation l else none

def serverMachine (workers : Nat) : Machine Simulation ServerLabel where
  init simulation := simulation = initial workers
  step := serverStep

/-- The step dispatches events to loaders only whose parent world was created and is not yet
destroyed. -/
def LoadersLive (s : Simulation) : ServerLabel → Prop
  | .simulationUpdate (.next _) => ∀ event id contexts entity,
    popCommand s.threadContexts = some ((event, some id), contexts) →
    s.entityFactory id = some entity → entity.has [cLoader, cEntity] = true →
    ∃ a, entity.parentWorld = some a ∧ (s.worlds a).isSome = true
  | _ => True

/-- Nothing is dispatched any more once a world was created. -/
def EndsWithWorld (s : Simulation) : ServerLabel → Prop
  | .simulationUpdate (.next _) => s.spatialWorlds = []
  | _ => True

/-! ### The commands before the first event -/

/-- The load commands come in pairs, the universe and a galaxy. -/
inductive Paired (galaxy : Nat → Prop) : List Ref → Prop
  | nil : Paired galaxy []
  | cons {id : Nat} {commands : List Ref} : galaxy id → Paired galaxy commands →
    Paired galaxy (some universeId :: some id :: commands)

variable {galaxy galaxy' : Nat → Prop}

theorem Paired.mono (hle : ∀ id, galaxy id → galaxy' id) {commands : List Ref}
    (h : Paired galaxy commands) : Paired galaxy' commands := by
  induction h with
  | nil => exact .nil
  | cons hg _ ih => exact .cons (hle _ hg) ih

theorem Paired.snoc {commands : List Ref} (h : Paired galaxy commands) {id : Nat}
    (hid : galaxy id) : Paired galaxy (commands ++ [some universeId] ++ [some id]) := by
  induction h with
  | nil => exact .cons hid .nil
  | cons hg _ ih => exact .cons hg ih

/-- The commands of a context to which only the server has added. -/
structure ServerContext (galaxy : Nat → Prop) (context : ThreadContext) : Prop where
  loads : Paired galaxy context.loadCommands
  unloads : ∀ ref ∈ context.unloadCommands, ref = none ∨ ref = some universeId

/-- What comes first: nothing, an unload of the universe, or the loads of the universe and of a
galaxy. -/
theorem popCommand_server {contexts : List ThreadContext}
    (h : ∀ context ∈ contexts, ServerContext galaxy context) :
    popCommand contexts = none ∨
    (∃ ref contexts', popCommand contexts = some ((.beginUnload, ref), contexts') ∧
      (ref = none ∨ ref = some universeId)) ∨
    ∃ id contexts' contexts'', galaxy id ∧
      popCommand contexts = some ((.beginLoad, some universeId), contexts') ∧
      popCommand contexts' = some ((.beginLoad, some id), contexts'') := by
  induction contexts with
  | nil => exact Or.inl rfl
  | cons context rest ih =>
    obtain ⟨hloads, hunloads⟩ := h context (List.mem_cons_self ..)
    obtain ⟨loads, unloads⟩ := context
    cases hloads with
    | cons hid hrest => exact Or.inr (Or.inr ⟨_, _, _, hid, rfl, rfl⟩)
    | nil =>
      cases unloads with
      | cons ref unloads =>
        exact Or.inr (Or.inl ⟨ref, _, rfl, hunloads ref (List.mem_cons_self ..)⟩)
      | nil =>
        rcases ih fun c hc => h c (List.mem_cons_of_mem _ hc) with
          hnone | ⟨ref, contexts', hpop, href⟩ | ⟨id, contexts', contexts'', hid, hpop, hnext⟩
        · exact Or.inl (by rw [popCommand, hnone]; rfl)
        · exact Or.inr (Or.inl ⟨ref, _, by rw [popCommand, hpop]; rfl, href⟩)
        · refine Or.inr (Or.inr ⟨id, {} :: contexts', {} :: contexts'', hid, ?_, ?_⟩)
          · rw [popCommand, hpop]
            rfl
          · rw [popCommand, hnext]
            rfl

/-! ### Before the first world -/

variable {s s' : Simulation}

/-- A living entity that `CreateSimulatedGalaxy` made. -/
def IsGalaxy (s : Simulation) (id : Nat) : Prop :=
  id ≠ universeId ∧ (s.entityFactory id).isSome = true

/-- An entity as the server creates it. -/
structure Unloaded (id : Nat) (entity : Entity) : Prop where
  typeId : entity.typeId = (if id = universeId then kUniverseType else kSimulatedGalaxyType) ||| 1
  world : entity.world = none
  parentWorld : entity.parentWorld = none

/-- No event was dispatched yet. -/
structure Waiting (s : Simulation) : Prop where
  control : s.control = .idle ∨ s.control = .dispatching
  noWorlds : s.spatialWorlds = []
  unmade : ∀ a, s.worlds a = none
  entities : ∀ id entity, s.entityFactory id = some entity → Unloaded id entity
  universeEntity : ∀ id, s.universeEntity = some id → id = universeId
  contexts : ∀ context ∈ s.threadContexts, ServerContext (IsGalaxy s) context

/-- The universe was loaded, and the galaxy that comes next has no parent world. -/
structure Starting (s : Simulation) : Prop where
  control : s.control = .dispatching
  world : s.spatialWorlds ≠ []
  next : ∃ id contexts entity, popCommand s.threadContexts = some ((.beginLoad, some id), contexts) ∧
    s.entityFactory id = some entity ∧ entity.has [cLoader, cEntity] = true ∧
    entity.parentWorld = none

/-- A run has faulted, was not told to load anything yet, or is in its first dispatch. -/
inductive Phase (s : Simulation) : Prop
  | fault (f : Fault) : s.control = .fault f → Phase s
  | waiting : Waiting s → Phase s
  | starting : Starting s → Phase s

theorem waiting_initial (workers : Nat) : Waiting (initial workers) where
  control := Or.inl rfl
  noWorlds := rfl
  unmade _ := rfl
  entities _ _ h := by cases h
  universeEntity _ h := by cases h
  contexts context h := by
    cases List.eq_of_mem_replicate h
    exact ⟨.nil, fun _ h => by cases h⟩

theorem kUniverseType_has : ∀ {entity : Entity}, entity.typeId = kUniverseType ||| 1 →
    entity.has [cUniverse] = true ∧ entity.has [cGalaxy] = false ∧ entity.has [cWorld] = true ∧
      entity.has [cLoader, cEntity] = false := by
  intro entity h
  simp only [Entity.has, h]
  decide

theorem kSimulatedGalaxyType_has : ∀ {entity : Entity},
    entity.typeId = kSimulatedGalaxyType ||| 1 → entity.has [cLoader, cEntity] = true := by
  intro entity h
  simp only [Entity.has, h]
  decide

theorem unloaded_created (h : ∀ id entity, s.entityFactory id = some entity → Unloaded id entity)
    (i : Nat) {id types : Nat} (f : Entity → Entity)
    (htypes : types = if id = universeId then kUniverseType else kSimulatedGalaxyType)
    (hf : ∀ entity, Unloaded id entity → Unloaded id (f entity)) :
    ∀ id' entity, (modifyEntity (simulationCreateEntity s i id types none) id f).entityFactory id' =
      some entity → Unloaded id' entity := by
  have hpoly : ∀ id' entity, (getPoly s id types).entityFactory id' = some entity →
      Unloaded id' entity := by
    intro id' entity hentity
    rw [getPoly] at hentity
    split at hentity
    · exact h id' entity hentity
    · by_cases hid : id' = id
      · subst hid
        simp only [Function.update_self, Option.some.injEq] at hentity
        subst hentity
        exact ⟨by rw [htypes], rfl, rfl⟩
      · simp only [Function.update_of_ne hid] at hentity
        exact h id' entity hentity
  intro id' entity hentity
  by_cases hid : id' = id
  · subst hid
    simp only [modifyEntity, Function.update_self] at hentity
    obtain ⟨entity', hentity', rfl⟩ := Option.map_eq_some_iff.mp hentity
    exact hf entity' (hpoly id' entity' hentity')
  · simp only [modifyEntity, Function.update_of_ne hid] at hentity
    exact hpoly id' entity hentity

theorem alive_created (s : Simulation) (i id types : Nat) (f : Entity → Entity) {id' : Nat}
    (h : id' = id ∨ (s.entityFactory id').isSome = true) :
    ((modifyEntity (simulationCreateEntity s i id types none) id f).entityFactory
      id').isSome = true := by
  have hpoly : ((getPoly s id types).entityFactory id').isSome = true := by
    rw [getPoly]
    split
    · next hsome =>
      rcases h with rfl | h
      · rw [hsome]
        rfl
      · exact h
    · by_cases hid : id' = id
      · subst hid
        simp only [Function.update_self, Option.isSome_some]
      · simp only [Function.update_of_ne hid]
        exact h.resolve_left hid
  by_cases hid : id' = id
  · subst hid
    simp only [modifyEntity, Function.update_self, Option.isSome_map]
    exact hpoly
  · simp only [modifyEntity, Function.update_of_ne hid]
    exact hpoly

theorem mem_modify {α : Type} {f : α → α} {x : α} {l : List α} {i : Nat} (h : x ∈ l.modify i f) :
    x ∈ l ∨ ∃ y ∈ l, x = f y := by
  obtain ⟨j, hj⟩ := List.mem_iff_getElem?.mp h
  rw [List.getElem?_modify] at hj
  split at hj
  · obtain ⟨y, hy, rfl⟩ := Option.map_eq_some_iff.mp hj
    exact Or.inr ⟨y, List.mem_of_getElem? hy, rfl⟩
  · simp only [id_map'] at hj
    exact Or.inl (List.mem_of_getElem? hj)

theorem created_eq (s : Simulation) (i id types : Nat) (f : Entity → Entity) :
    ∃ factory, modifyEntity (simulationCreateEntity s i id types none) id f =
      { s with
        entityFactory := factory
        threadContexts := s.threadContexts.modify i fun context =>
          { context with loadCommands := context.loadCommands ++ [some id] }
        history := .loadRequested id none :: s.history } := by
  rw [modifyEntity, simulationCreateEntity, getPoly]
  split
  · exact ⟨_, rfl⟩
  · exact ⟨_, rfl⟩

theorem startLocalUniverse_eq (s : Simulation) (i id : Nat) :
    ∃ factory, startLocalUniverse s i id =
      { s with
        entityFactory := factory
        threadContexts := s.threadContexts.modify i fun context =>
          { context with
            loadCommands := context.loadCommands ++ [some universeId] ++ [some id] }
        history := .loadRequested id none :: .loadRequested universeId none :: s.history
        universeEntity := some universeId
        galaxyEntity := some id } := by
  obtain ⟨factory, hfactory⟩ := created_eq s i universeId kUniverseType
    fun entity => { entity with worldType := .universe }
  have huniverse : createUniverse s i = { modifyEntity
      (simulationCreateEntity s i universeId kUniverseType none) universeId
        (fun entity => { entity with worldType := .universe }) with
      universeEntity := some universeId } := rfl
  rw [hfactory] at huniverse
  obtain ⟨factory', hfactory'⟩ := created_eq (createUniverse s i) i id kSimulatedGalaxyType
    fun entity => { entity with
      worldType := .galaxy
      parentWorld := ((createUniverse s i).entityFactory universeId).bind (·.world) }
  have hgalaxy : startLocalUniverse s i id = { modifyEntity
      (simulationCreateEntity (createUniverse s i) i id kSimulatedGalaxyType none) id
        (fun entity => { entity with
          worldType := .galaxy
          parentWorld := ((createUniverse s i).entityFactory universeId).bind (·.world) }) with
      galaxyEntity := some id } := rfl
  rw [hfactory', huniverse] at hgalaxy
  refine ⟨factory', ?_⟩
  rw [hgalaxy]
  simp only [List.modify_modify_eq]
  rfl

/-- The galaxy gets the world of a universe that was not loaded. -/
theorem waiting_startLocalUniverse (h : Waiting s) {i id : Nat} (hid : id ≠ universeId) :
    Waiting (startLocalUniverse s i id) := by
  have hUniverse : kUniverseType =
      if universeId = universeId then kUniverseType else kSimulatedGalaxyType := rfl
  have huniverse := unloaded_created h.entities i
    (fun entity => { entity with worldType := .universe }) hUniverse
    fun entity he => ⟨he.typeId, he.world, he.parentWorld⟩
  have hworld : ((createUniverse s i).entityFactory universeId).bind (·.world) = none := by
    cases hentity : (createUniverse s i).entityFactory universeId with
    | none => rfl
    | some entity => exact (huniverse universeId entity hentity).world
  have hcreated : ∀ id' entity, (createUniverse s i).entityFactory id' = some entity →
      Unloaded id' entity := huniverse
  have hgalaxy := unloaded_created hcreated i
    (fun entity => { entity with
      worldType := .galaxy
      parentWorld := ((createUniverse s i).entityFactory universeId).bind (·.world) })
    (if_neg hid).symm fun entity he => ⟨he.typeId, he.world, hworld⟩
  have halive : ∀ id', id' = id ∨ (s.entityFactory id').isSome = true →
      ((startLocalUniverse s i id).entityFactory id').isSome = true := by
    intro id' hid'
    refine alive_created (createUniverse s i) i id kSimulatedGalaxyType _ ?_
    rcases hid' with heq | hsome
    · exact Or.inl heq
    · exact Or.inr (alive_created s i universeId kUniverseType _ (Or.inr hsome))
  have hmono : ∀ id', IsGalaxy s id' → IsGalaxy (startLocalUniverse s i id) id' :=
    fun id' hg => ⟨hg.1, halive id' (Or.inr hg.2)⟩
  have hnew : IsGalaxy (startLocalUniverse s i id) id := ⟨hid, halive id (Or.inl rfl)⟩
  have hcontext : ∀ c ∈ s.threadContexts,
      ServerContext (IsGalaxy (startLocalUniverse s i id)) c := fun c hc =>
    ⟨(h.contexts c hc).loads.mono hmono, (h.contexts c hc).unloads⟩
  have hentities : ∀ id' entity, (startLocalUniverse s i id).entityFactory id' = some entity →
      Unloaded id' entity := hgalaxy
  obtain ⟨factory, heq⟩ := startLocalUniverse_eq s i id
  rw [heq] at hcontext hnew hentities ⊢
  refine ⟨h.control, h.noWorlds, h.unmade, hentities, ?_, fun context hmem => ?_⟩
  · rintro id' ⟨⟩
    rfl
  · rcases mem_modify hmem with hold | ⟨c, hc, rfl⟩
    · exact hcontext context hold
    · exact ⟨(hcontext c hc).loads.snoc hnew, (hcontext c hc).unloads⟩

theorem waiting_disconnectFromUniverse (h : Waiting s) (i : Nat) :
    Waiting (disconnectFromUniverse s i) := by
  refine ⟨h.control, h.noWorlds, h.unmade, h.entities, h.universeEntity, fun context hmem => ?_⟩
  rcases mem_modify hmem with hold | ⟨c, hc, rfl⟩
  · exact h.contexts context hold
  · refine ⟨(h.contexts c hc).loads, fun ref href => ?_⟩
    rcases List.mem_append.mp href with hold | hnew
    · exact (h.contexts c hc).unloads ref hold
    · rw [List.mem_singleton.mp hnew]
      cases hentity : s.universeEntity with
      | none => exact Or.inl rfl
      | some id => exact Or.inr (by rw [h.universeEntity id hentity])

/-! ### The first event -/

/-- Loading the universe creates its world, and a galaxy without a parent world comes next. -/
theorem phase_loadUniverse (h : Waiting s) (hc : s.control = .dispatching)
    {contexts contexts' : List ThreadContext} {id : Nat} (hid : IsGalaxy s id)
    (hnext : popCommand contexts = some ((.beginLoad, some id), contexts'))
    (database : Option (NodeCoord → Option Bytes)) :
    Phase (doEvent database { s with threadContexts := contexts } .beginLoad (some universeId)) := by
  rw [doEvent]
  cases huniverse : s.entityFactory universeId with
  | none => exact .fault .danglingEntity rfl
  | some entity =>
    obtain ⟨hUniverse, hGalaxy, hWorld, hLoader⟩ :=
      kUniverseType_has ((h.entities universeId entity huniverse).typeId.trans rfl)
    simp only [beginLoad, hUniverse, hGalaxy, hWorld, hLoader, if_true, if_false,
      Bool.false_eq_true]
    cases database with
    | none => exact .fault .nullWorld rfl
    | some database =>
      obtain ⟨galaxy, hgalaxy⟩ := Option.isSome_iff_exists.mp hid.2
      refine .starting ⟨hc, ?_, id, contexts', galaxy, hnext, ?_, ?_, ?_⟩
      · exact List.append_ne_nil_of_right_ne_nil _ (List.cons_ne_nil _ _)
      · simp only [onLoadSpatialEntity, modifyEntity, onLoadUniverseEntity, onLoadEntity,
          Simulation.record, Function.update_of_ne hid.1]
        exact hgalaxy
      · exact kSimulatedGalaxyType_has ((h.entities id galaxy hgalaxy).typeId.trans
          (by rw [if_neg hid.1]))
      · exact (h.entities id galaxy hgalaxy).parentWorld

theorem phase_unloadUniverse (h : Waiting s) {contexts : List ThreadContext} {ref : Ref}
    (href : ref = none ∨ ref = some universeId) (database : Option (NodeCoord → Option Bytes)) :
    Phase (doEvent database { s with threadContexts := contexts } .beginUnload ref) := by
  rcases href with rfl | rfl
  · exact .fault .nullEntity rfl
  · rw [doEvent]
    cases huniverse : s.entityFactory universeId with
    | none => exact .fault .danglingEntity rfl
    | some entity =>
      have hentity := h.entities universeId entity huniverse
      obtain ⟨hUniverse, hGalaxy, hWorld, hLoader⟩ :=
        kUniverseType_has (hentity.typeId.trans rfl)
      simp only [beginUnload, hUniverse, hGalaxy, hWorld, hLoader, if_true, if_false,
        Bool.false_eq_true, onUnloadSpatialEntity, hentity.world]
      exact .fault .nullWorld rfl

/-! ### Runs of the server -/

theorem not_running {f : Fault} (hc : s.control = .fault f) :
    s.control ≠ .idle ∧ s.control ≠ .dispatching := by
  rw [hc]
  exact ⟨fun h => (by cases h), fun h => (by cases h)⟩

theorem fault_stuck {f : Fault} (hc : s.control = .fault f) (l : ServerLabel) :
    serverStep s l = none := by
  obtain ⟨hidle, hdispatching⟩ := not_running hc
  cases l with
  | startLocalUniverse i id => exact if_neg fun h => hidle h.1.1
  | disconnectFromUniverse i => exact if_neg fun h => hidle h.1
  | simulationUpdate l =>
    rw [serverStep]
    split
    · cases l with
      | universeWorld i a l =>
        simp only [step]
        split
        · rw [if_neg fun h => h.1.running.elim hidle hdispatching]
        · rfl
      | galaxyWorld a l =>
        simp only [step]
        split
        · rw [if_neg fun h => h.running.elim hidle hdispatching]
        · rfl
      | scaleUpdateEntityNodes a s pos pos' i =>
        simp only [step]
        split
        · rw [if_neg fun h => hidle h.1]
        · rfl
      | spatialUpdate => exact if_neg fun h => hidle h.1
      | dispatch => exact if_neg fun h => hidle h.1
      | next database => exact if_neg hdispatching
      | _ => contradiction
    · rfl

theorem waiting_popCommand (h : Waiting s) (hpop : popCommand s.threadContexts = none) :
    Waiting { cleanup s with control := .idle } := by
  have hempty := popCommand_none hpop
  refine ⟨Or.inl rfl, h.noWorlds, h.unmade, fun id entity hentity => ?_, h.universeEntity, ?_⟩
  · simp only [cleanup] at hentity
    split at hentity
    · exact h.entities id entity hentity
    · cases hentity
  · intro context hcontext
    obtain ⟨hloads, hunloads⟩ := h.contexts context hcontext
    have hnone : context.loadCommands = [] :=
      List.map_eq_nil_iff.mp (List.append_eq_nil_iff.mp
        (List.flatMap_eq_nil_iff.mp hempty context hcontext)).1
    refine ⟨?_, hunloads⟩
    rw [hnone]
    exact .nil

theorem phase_waiting (h : Waiting s) {l : Label} (hl : l.inUpdate = true)
    (hs : step s l = some s') : Phase s' := by
  cases step_stepped hs with
  | universeWorld hm _ _ _ => cases (h.unmade _).symm.trans hm
  | galaxyWorld hm _ _ => cases (h.unmade _).symm.trans hm
  | scaleUpdateEntityNodes hm _ _ _ _ => cases (h.unmade _).symm.trans hm
  | spatialUpdate hidle =>
    refine .waiting ⟨h.control, ?_, fun a => ?_, h.entities, h.universeEntity, h.contexts⟩
    · simp only [spatialUpdate, h.noWorlds, List.filter_nil]
    · simp only [spatialUpdate, h.unmade a]
      split <;> rfl
  | dispatch hidle =>
    exact .waiting ⟨Or.inr rfl, h.noWorlds, h.unmade, h.entities, h.universeEntity, h.contexts⟩
  | @event database event entity contexts hc hpop =>
    rcases popCommand_server h.contexts with
      hnone | ⟨ref, contexts', hpop', href⟩ | ⟨id, contexts', contexts'', hid, hpop', hnext⟩
    · cases hnone.symm.trans hpop
    · cases hpop'.symm.trans hpop
      exact phase_unloadUniverse h href database
    · cases hpop'.symm.trans hpop
      exact phase_loadUniverse h hc hid hnext database
  | cleanup hc hpop => exact .waiting (waiting_popCommand h hpop)
  | createUniverse hc => cases hl
  | createSimulatedGalaxy hc => cases hl
  | disconnectFromUniverse hc => cases hl
  | simulationUnload hc => cases hl
  | simulationUnloaded hidle hunloading hworlds => cases hl

theorem Starting.background (h : Starting s) (worlds : Nat → Option SpatialWorld) (b : Bool) :
    Phase { s with
      worlds := worlds
      control := if b then .fault .spatial else s.control } := by
  cases b with
  | true => exact .fault .spatial rfl
  | false => exact .starting ⟨h.control, h.world, h.next⟩

/-- In the first dispatch only background work can come between two events. -/
theorem phase_starting (h : Starting s) {l : Label} (hl : l.inUpdate = true)
    (hnext : ∀ database, l ≠ .next database) (hs : step s l = some s') : Phase s' := by
  have hc : s.control ≠ .idle := by rw [h.control]; exact fun hc => (by cases hc)
  cases step_stepped hs with
  | universeWorld hm hallows hi hstep =>
    rw [readRequests_background hallows hc, afterUniverseStep, List.foldl_nil]
    exact h.background _ _
  | galaxyWorld hm hallows hstep => exact h.background _ _
  | scaleUpdateEntityNodes hm hidle hunloading hne hmove => exact absurd hidle hc
  | spatialUpdate hidle => exact absurd hidle hc
  | dispatch hidle => exact absurd hidle hc
  | event hdispatching hpop => exact absurd rfl (hnext _)
  | cleanup hdispatching hpop => exact absurd rfl (hnext _)
  | createUniverse hc => cases hl
  | createSimulatedGalaxy hc => cases hl
  | disconnectFromUniverse hc => cases hl
  | simulationUnload hc => cases hl
  | simulationUnloaded hidle hunloading hworlds => cases hl

theorem phase_step (h : Phase s) {l : ServerLabel} (hguard : EndsWithWorld s l)
    (hs : serverStep s l = some s') : Phase s' := by
  cases h with
  | fault f hc =>
    rw [fault_stuck hc l] at hs
    cases hs
  | waiting h =>
    cases l with
    | startLocalUniverse i id =>
      simp only [serverStep] at hs
      split at hs
      · next hcall =>
        cases hs
        exact .waiting (waiting_startLocalUniverse h hcall.2)
      · cases hs
    | disconnectFromUniverse i =>
      simp only [serverStep, step] at hs
      split at hs
      · cases hs
        exact .waiting (waiting_disconnectFromUniverse h i)
      · cases hs
    | simulationUpdate l =>
      simp only [serverStep] at hs
      split at hs
      · next hl => exact phase_waiting h hl hs
      · cases hs
  | starting h =>
    have hidle : s.control ≠ .idle := by rw [h.control]; exact fun hc => (by cases hc)
    cases l with
    | startLocalUniverse i id =>
      rw [serverStep, if_neg fun hcall => hidle hcall.1.1] at hs
      cases hs
    | disconnectFromUniverse i =>
      rw [serverStep, step, if_neg fun hcall => hidle hcall.1] at hs
      cases hs
    | simulationUpdate l =>
      simp only [serverStep] at hs
      split at hs
      · next hl =>
        refine phase_starting h hl (fun database heq => ?_) hs
        subst heq
        exact h.world hguard
      · cases hs

/-- Loaders are dispatched to behind the universe only, and have no parent world. -/
theorem loadersLive_iff (h : Phase s) {l : ServerLabel} (hs : serverStep s l = some s') :
    LoadersLive s l ↔ EndsWithWorld s l := by
  cases l with
  | startLocalUniverse i id => exact Iff.rfl
  | disconnectFromUniverse i => exact Iff.rfl
  | simulationUpdate l =>
    cases l with
    | next database =>
      cases h with
      | fault f hc =>
        rw [fault_stuck hc] at hs
        cases hs
      | waiting h =>
        refine ⟨fun _ => h.noWorlds, fun _ event id contexts entity hpop hentity hhas => ?_⟩
        have hgalaxy : id = universeId := by
          rcases popCommand_server h.contexts with
            hnone | ⟨ref, contexts', hpop', href⟩ | ⟨id', contexts', contexts'', -, hpop', -⟩
          · cases hnone.symm.trans hpop
          · cases hpop'.symm.trans hpop
            rcases href with href | href
            · cases href
            · exact Option.some.inj href
          · cases hpop'.symm.trans hpop
            rfl
        subst hgalaxy
        have hnot := (kUniverseType_has ((h.entities _ entity hentity).typeId.trans rfl)).2.2.2
        exact absurd hhas (by rw [hnot]; exact Bool.false_ne_true)
      | starting h =>
        refine ⟨fun hlive => ?_, fun hnone => absurd hnone h.world⟩
        obtain ⟨id, contexts, entity, hpop, hentity, hhas, hparent⟩ := h.next
        obtain ⟨a, ha, -⟩ := hlive _ id contexts entity hpop hentity hhas
        cases hparent.symm.trans ha
    | _ => exact Iff.rfl

/-- In a run of the server every loader is dispatched to while its parent world lives if and
only if the run ends with the dispatch that creates the first world. -/
theorem loaders_live {workers : Nat} {ls : List ServerLabel}
    (hs : (serverMachine workers).exec (initial workers) ls = some s) :
    (serverMachine workers).Follows LoadersLive (initial workers) ls ↔
      (serverMachine workers).Follows EndsWithWorld (initial workers) ls :=
  Machine.follows_iff (I := Phase)
    (fun _ _ _ h hlive hstep => phase_step h ((loadersLive_iff h hstep).mp hlive) hstep)
    (fun _ _ _ h hstep => loadersLive_iff h hstep) (.waiting (waiting_initial workers)) hs

instance decidableEndsWithWorld (s : Simulation) :
    (l : ServerLabel) → Decidable (EndsWithWorld s l)
  | .startLocalUniverse .. => isTrue trivial
  | .disconnectFromUniverse _ => isTrue trivial
  | .simulationUpdate (.next _) => inferInstanceAs (Decidable (_ = []))
  | .simulationUpdate (.createUniverse _) => isTrue trivial
  | .simulationUpdate (.createSimulatedGalaxy ..) => isTrue trivial
  | .simulationUpdate (.disconnectFromUniverse _) => isTrue trivial
  | .simulationUpdate (.universeWorld ..) => isTrue trivial
  | .simulationUpdate (.galaxyWorld ..) => isTrue trivial
  | .simulationUpdate (.scaleUpdateEntityNodes ..) => isTrue trivial
  | .simulationUpdate .spatialUpdate => isTrue trivial
  | .simulationUpdate .dispatch => isTrue trivial
  | .simulationUpdate (.simulationUnload _) => isTrue trivial
  | .simulationUpdate .simulationUnloaded => isTrue trivial

/-- `StartLocalUniverse`, and the update after it up to the load of the universe. -/
def startRun : List ServerLabel :=
  [.startLocalUniverse 0 1, .simulationUpdate .spatialUpdate, .simulationUpdate .dispatch,
    .simulationUpdate (.next (some fun _ => none))]

theorem loaders_live_startRun :
    ∃ s, (serverMachine 1).exec (initial 1) startRun = some s ∧
      (serverMachine 1).Follows LoadersLive (initial 1) startRun := by
  obtain ⟨s, hs⟩ := Option.isSome_iff_exists.mp
    (show ((serverMachine 1).exec (initial 1) startRun).isSome = true from by decide +kernel)
  exact ⟨s, hs, (loaders_live hs).mpr (by decide +kernel)⟩

/-- The galaxy comes next, and its parent world is null. -/
theorem first_galaxy_without_world :
    ∃ s s', (serverMachine 1).exec (initial 1) startRun = some s ∧
      serverStep s (.simulationUpdate (.next (some fun _ => none))) = some s' ∧
      s'.control = .fault .nullWorld ∧
      ¬ LoadersLive s (.simulationUpdate (.next (some fun _ => none))) := by
  obtain ⟨s, hs, hcommand⟩ := Option.map_eq_some_iff.mp
    (show ((serverMachine 1).exec (initial 1) startRun).map
        (fun s => (popCommand s.threadContexts, s.entityFactory 1)) =
      some (some ((.beginLoad, some 1), [{}]),
        some { typeId := kSimulatedGalaxyType ||| 1, worldType := .galaxy }) from by decide +kernel)
  obtain ⟨hpop, hentity⟩ := Prod.mk.inj hcommand
  have hstep : ((serverMachine 1).exec (initial 1) startRun).map (fun s =>
      (serverStep s (.simulationUpdate (.next (some fun _ => none)))).map (·.control)) =
        some (some (.fault .nullWorld)) := by decide +kernel
  rw [hs] at hstep
  obtain ⟨s', hs', hcontrol⟩ := Option.map_eq_some_iff.mp (Option.some.inj hstep)
  refine ⟨s, s', hs, hs', hcontrol, fun hlive => ?_⟩
  obtain ⟨a, ha, -⟩ := hlive _ _ _ _ hpop hentity (kSimulatedGalaxyType_has rfl)
  cases ha

end CosmicArchitect.UniverseSimulation
