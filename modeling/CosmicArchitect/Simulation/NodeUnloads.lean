import CosmicArchitect.Simulation.WorldsLive
import CosmicArchitect.Spatial3D.TaskStates

/-!
# Entities of destroyed nodes

`CEntity` is documented as loaded and unloaded with its node, and the callbacks of a node do
ask for its entities to be loaded. `WorldDoNodeUnloadCommands` asks for nothing: the entities of
a destroyed node are unloaded only if `SimulationUnload` asked for that before.
-/

namespace CosmicArchitect.UniverseSimulation
open Serialize Spatial3D Universe

/-- The last request to load an entity: the world whose node asked. -/
def lastRequest (id : Nat) : List Entry → Option (Option Nat)
  | [] => none
  | .loadRequested id' world :: older => if id' = id then some world else lastRequest id older
  | _ :: older => lastRequest id older

/-- The entity has had its `BeginUnload`, or a command for it waits. -/
def Released (s : Simulation) (id : Nat) : Prop :=
  (eventsOf id s.history).head? = some .beginUnload ∨
    (.beginUnload, some id) ∈ waiting s.threadContexts

instance (s : Simulation) (id : Nat) : Decidable (Released s id) :=
  inferInstanceAs (Decidable (_ ∨ _))

/-- The entities of the nodes that the step destroys are released. -/
def EntitiesReleased (s : Simulation) (l : Label) : Prop :=
  ∀ s', step s l = some s' → ∀ n ∈ destroyedBy s l, ∀ entity ∈ n.body.entities,
    Released s' entity.id

/-- No entity that a node of a world asked for stays in `updating_entities` once all nodes of
the world are destroyed and the commands are dispatched. -/
def NoneRemains (s : Simulation) : Prop :=
  ∀ a, (∀ world ∈ s.worlds a, world.nodeCount = 0) → s.control = .idle →
    waiting s.threadContexts = [] → ∀ id ∈ s.updatingEntities,
      lastRequest id s.history ≠ some (some a)

/-- A node with entities is destroyed while `SimulationUnload` runs, and this is called when no
entity of a node waits to be loaded. -/
def UnloadsWithSimulation (s : Simulation) : Label → Prop
  | .universeWorld i a l =>
    ∀ n ∈ destroyedBy s (.universeWorld i a l), n.body.entities ≠ [] → s.unloading = true
  | .simulationUnload _ =>
    ∀ a ∈ s.spatialWorlds, ∀ world ∈ s.worlds a, ∀ id ∈ world.entities,
      (.beginLoad, some id) ∉ waiting s.threadContexts
  | _ => True

instance (s : Simulation) : (l : Label) → Decidable (UnloadsWithSimulation s l)
  | .universeWorld i a l => inferInstanceAs (Decidable
      (∀ n ∈ destroyedBy s (.universeWorld i a l), n.body.entities ≠ [] → s.unloading = true))
  | .simulationUnload _ => inferInstanceAs (Decidable
      (∀ a ∈ s.spatialWorlds, ∀ world ∈ s.worlds a, ∀ id ∈ world.entities,
        (.beginLoad, some id) ∉ waiting s.threadContexts))
  | .createUniverse _ => isTrue trivial
  | .createSimulatedGalaxy .. => isTrue trivial
  | .disconnectFromUniverse _ => isTrue trivial
  | .galaxyWorld .. => isTrue trivial
  | .scaleUpdateEntityNodes .. => isTrue trivial
  | .spatialUpdate => isTrue trivial
  | .dispatch => isTrue trivial
  | .next _ => isTrue trivial
  | .simulationUnloaded => isTrue trivial

def OrderlyUnloads (s : Simulation) (l : Label) : Prop :=
  Orderly s l ∧ UnloadsWithSimulation s l

instance (s : Simulation) (l : Label) : Decidable (OrderlyUnloads s l) :=
  inferInstanceAs (Decidable (_ ∧ _))

/-! ### Requests in the history -/

variable {s s' : Simulation} {l : Label} {id : Nat}

theorem lastRequest_append {new older : List Entry} {world : Option Nat}
    (h : lastRequest id (new ++ older) = some world) : .loadRequested id world ∈ new ∨
      lastRequest id older = some world ∧ ∀ world', .loadRequested id world' ∉ new := by
  induction new with
  | nil => exact Or.inr ⟨h, fun _ hmem => by cases hmem⟩
  | cons entry new ih =>
    have hrest : lastRequest id (new ++ older) = some world →
        (∀ world', entry ≠ .loadRequested id world') →
        .loadRequested id world ∈ entry :: new ∨
          lastRequest id older = some world ∧ ∀ world', .loadRequested id world' ∉ entry :: new := by
      intro h hentry
      rcases ih h with hmem | ⟨hold, hnone⟩
      · exact Or.inl (List.mem_cons_of_mem _ hmem)
      · refine Or.inr ⟨hold, fun world' hmem => ?_⟩
        rcases List.mem_cons.mp hmem with heq | hmem
        · exact hentry world' heq.symm
        · exact hnone world' hmem
    cases entry with
    | loadRequested id' world' =>
      simp only [List.cons_append, lastRequest] at h
      split at h
      · next heq =>
        subst heq
        cases h
        exact Or.inl (List.mem_cons_self ..)
      · next hne =>
        refine hrest h fun world'' heq => hne ?_
        cases heq
        rfl
    | unloadRequested id' => exact hrest h fun _ heq => by cases heq
    | dispatched event id' => exact hrest h fun _ heq => by cases heq

/-- Only a node asks in the name of a world, and it holds what it asked for. -/
theorem requested_held {a : Nat} (hs : WorldsSound s)
    (h : step s l = some s') (hmem : .loadRequested id (some a) ∈ requested s l) :
    HeldBy s' a id := by
  cases l with
  | universeWorld i b l =>
    cases step_stepped h with
    | @universeWorld _ _ _ m m' hm hl hi hstep =>
      simp only [requested, hm] at hmem
      obtain ⟨galaxy, hgalaxy, heq⟩ := List.mem_map.mp (List.mem_reverse.mp hmem)
      cases heq
      have hworlds := congrArg Prod.fst (requests_spatial i (some a) (readRequests m l) { s with
        worlds := Function.update s.worlds a (some (.universe m'))
        control := if m'.control.isFault then .fault .spatial else s.control })
      refine ⟨m', ?_, held_readRequests (hs.sound a m hm) hstep hgalaxy⟩
      show (Simulation.spatial _).1 a = _
      rw [afterUniverseStep, hworlds]
      exact Function.update_self ..
  | createUniverse i => cases List.mem_singleton.mp hmem
  | createSimulatedGalaxy i id' =>
    simp only [requested] at hmem
    split at hmem
    · cases hmem
    · cases List.mem_singleton.mp hmem
  | disconnectFromUniverse i =>
    obtain ⟨id', -, heq⟩ := List.mem_map.mp hmem
    cases heq
  | simulationUnload i =>
    obtain ⟨id', -, heq⟩ := List.mem_map.mp (List.mem_reverse.mp hmem)
    cases heq
  | _ => cases hmem

theorem mem_requested {i a : Nat} {l : Spatial3D.Label UniverseNode} (h : id ∈ readIds s a l) :
    .loadRequested id (some a) ∈ requested s (.universeWorld i a l) := by
  unfold readIds at h
  split at h
  · next m hm =>
    simp only [requested, hm, requestEntries, List.mem_reverse]
    obtain ⟨galaxy, hgalaxy, rfl⟩ := List.mem_map.mp h
    exact List.mem_map_of_mem hgalaxy
  · cases h

/-- Nothing is asked for while events are dispatched. -/
theorem step_requested (h : step s l = some s') :
    requested s l = [] ∨ Quiet s s' (requested s l) := by
  cases step_stepped h with
  | createUniverse hc => exact Or.inr (createUniverse_quiet s hc.2.2)
  | createSimulatedGalaxy hc => exact Or.inr (createSimulatedGalaxy_quiet s _ hc.2.2)
  | disconnectFromUniverse hc => exact Or.inr (simulationUnloadEntity_quiet s _ hc.2.2)
  | universeWorld hm hl hi hstep => exact Or.inr (universeWorld_quiet h).1
  | simulationUnload hc => exact Or.inr (simulationUnload_quiet s hc.2.2)
  | _ => exact Or.inl rfl

/-- The last request is the one of the step, or an older one when the step asks for nothing. -/
theorem lastRequest_effect (hstep : step s l = some s') (he : Effect s s' l) {world : Option Nat}
    (h : lastRequest id s'.history = some world) : .loadRequested id world ∈ requested s l ∨
      lastRequest id s.history = some world ∧ ∀ world', .loadRequested id world' ∉ requested s l := by
  rcases step_requested hstep with hnil | hq
  · refine Or.inr ⟨?_, fun world' hmem => by rw [hnil] at hmem; cases hmem⟩
    cases he with
    | quiet hq _ =>
      rw [hq.history, hnil] at h
      exact h
    | dispatch hc hs =>
      subst hs
      exact h
    | dead command contexts f hpop hs =>
      subst hs
      exact h
    | loaded id' contexts entity hc hpop hid he =>
      rw [he.history] at h
      exact h
    | unloaded id' contexts entity hc hpop hid hg he =>
      rw [he.history] at h
      exact h
    | cleanup hc hpop hs =>
      subst hs
      exact h
  · rw [hq.history] at h
    exact lastRequest_append h

/-! ### What a step does to an entity -/

/-- The entity has been loaded, or waits for that. -/
def Asked (s : Simulation) (id : Nat) : Prop :=
  (.beginLoad, some id) ∈ waiting s.threadContexts ∨ eventsOf id s.history ≠ []

/-- The entity is released, and is not asked for again. -/
def Retired (s : Simulation) (id : Nat) : Prop :=
  Released s id ∧ (.beginLoad, some id) ∉ waiting s.threadContexts

theorem step_running (h : step s l = some s') : ∀ f, s.control ≠ .fault f := by
  refine Accounted.not_fault ?_
  cases step_stepped h with
  | createUniverse hc => exact Or.inl hc.1
  | createSimulatedGalaxy hc => exact Or.inl hc.1
  | disconnectFromUniverse hc => exact Or.inl hc.1
  | universeWorld hm hl hi hstep => exact hl.running
  | galaxyWorld hm hl hstep => exact hl.running
  | scaleUpdateEntityNodes hm hidle hunloading hne hmove => exact Or.inl hidle
  | spatialUpdate hidle => exact Or.inl hidle
  | dispatch hidle => exact Or.inl hidle
  | event hc hpop => exact Or.inr hc
  | cleanup hc hpop => exact Or.inr hc
  | simulationUnload hc => exact Or.inl hc.1
  | simulationUnloaded hidle hunloading hworlds => exact Or.inl hidle

theorem Asked.effect (h : Asked s id) (he : Effect s s' l) (hrun : ∀ f, s'.control ≠ .fault f) :
    Asked s' id := by
  -- a popped command leaves its event behind
  have hpopped : ∀ {event id' contexts},
      popCommand s.threadContexts = some ((event, some id'), contexts) →
      s'.history = .dispatched event id' :: s.history → s'.threadContexts = contexts →
        Asked s' id := by
    intro event id' contexts hpop hhistory hcontexts
    unfold Asked
    rw [hhistory, hcontexts]
    by_cases heq : id' = id
    · subst heq
      rw [eventsOf_dispatched]
      exact Or.inr (List.cons_ne_nil _ _)
    · rw [eventsOf_dispatched_ne _ heq]
      refine h.imp_left fun hmem => ?_
      rw [popCommand_waiting hpop] at hmem
      rcases List.mem_cons.mp hmem with hmem | hmem
      · cases hmem
        exact absurd rfl heq
      · exact hmem
  cases he with
  | quiet hq _ =>
    rcases h with hmem | hevents
    · exact Or.inl ((hq.loads id).mpr (Or.inl hmem))
    · exact Or.inr (by rw [hq.events]; exact hevents)
  | dispatch hc hs =>
    subst hs
    exact h
  | dead command contexts f hpop hs => exact absurd (by rw [hs]) (hrun f)
  | loaded id' contexts entity hc hpop hid he => exact hpopped hpop he.history he.contexts
  | unloaded id' contexts entity hc hpop hid hg he => exact hpopped hpop he.history he.contexts
  | cleanup hc hpop hs =>
    subst hs
    exact h

/-- A retired entity stays so until it is asked for. -/
theorem Retired.effect (h : Retired s id) (he : Effect s s' l) (hrun : ∀ f, s'.control ≠ .fault f)
    (hnone : ∀ world, .loadRequested id world ∉ requested s l) : Retired s' id := by
  obtain ⟨hreleased, hload⟩ := h
  cases he with
  | quiet hq _ =>
    refine ⟨?_, fun hmem => ?_⟩
    · unfold Released
      rw [hq.events]
      exact hreleased.imp_right fun hmem => (hq.unloads id).mpr (Or.inl hmem)
    · rcases (hq.loads id).mp hmem with hmem | ⟨world, hmem⟩
      · exact hload hmem
      · exact hnone world hmem
  | dispatch hc hs =>
    subst hs
    exact ⟨hreleased, hload⟩
  | dead command contexts f hpop hs => exact absurd (by rw [hs]) (hrun f)
  | loaded id' contexts entity hc hpop hid he =>
    have hhistory : s'.history = .dispatched .beginLoad id' :: s.history := he.history
    have hcontexts : s'.threadContexts = contexts := he.contexts
    rw [popCommand_waiting hpop] at hload
    obtain ⟨hne, hload⟩ := not_or.mp fun h => hload (List.mem_cons.mpr h)
    have heq : id' ≠ id := by
      rintro rfl
      exact hne rfl
    refine ⟨?_, by rw [hcontexts]; exact hload⟩
    unfold Released
    rw [hhistory, hcontexts, eventsOf_dispatched_ne _ heq]
    refine hreleased.imp_right fun hmem => ?_
    rw [popCommand_waiting hpop] at hmem
    exact (List.mem_cons.mp hmem).resolve_left fun h => by cases h
  | unloaded id' contexts entity hc hpop hid hg he =>
    have hhistory : s'.history = .dispatched .beginUnload id' :: s.history := he.history
    have hcontexts : s'.threadContexts = contexts := he.contexts
    rw [popCommand_waiting hpop] at hload
    refine ⟨?_, by rw [hcontexts]; exact fun hmem => hload (List.mem_cons_of_mem _ hmem)⟩
    unfold Released
    rw [hhistory, hcontexts]
    by_cases heq : id' = id
    · subst heq
      rw [eventsOf_dispatched]
      exact Or.inl rfl
    · rw [eventsOf_dispatched_ne _ heq]
      refine hreleased.imp_right fun hmem => ?_
      rw [popCommand_waiting hpop] at hmem
      refine (List.mem_cons.mp hmem).resolve_left fun h => heq ?_
      cases h
      rfl
  | cleanup hc hpop hs =>
    subst hs
    exact ⟨hreleased, hload⟩

theorem held_entities (hsound : WorldsSound s) {a : Nat} (h : HeldBy s a id) :
    ∃ world, s.worlds a = some world ∧ id ∈ world.entities := by
  obtain ⟨m, hm, b, body, hbody, entity, hentity, rfl⟩ := h
  refine ⟨_, hm, ?_⟩
  obtain ⟨n, hn, rfl⟩ := Option.map_eq_some_iff.mp hbody
  obtain ⟨scale, hs⟩ := (hsound.sound a m hm).placed.stored (place_of_heap hn)
  have hlt : scale < universeType.maxScale := ((hsound.sound a m hm).placed.live hs).1
  refine List.mem_flatMap.mpr ⟨scale, List.mem_range.mpr hlt, ?_⟩
  refine List.mem_flatMap.mpr ⟨_, AList.mem_lookup_iff.mp hs, ?_⟩
  simp only [Option.bind_some, hn]
  exact List.mem_map_of_mem hentity

theorem held_destroyedBy {n : Node UniverseNode} {entity : Galaxy} (hn : n ∈ destroyedBy s l)
    (hentity : entity ∈ n.body.entities) :
    ∃ i a l', l = .universeWorld i a l' ∧ HeldBy s a entity.id := by
  cases l with
  | universeWorld i a l' =>
    refine ⟨i, a, l', rfl, ?_⟩
    simp only [destroyedBy] at hn
    split at hn
    · next m hm =>
      split at hn
      · exact ⟨m, hm, held_destroyedNodes hn hentity⟩
      · cases hn
    · cases hn
  | _ => cases hn

/-! ### Who begins to unload -/

theorem simulationCreateEntity_unloading (s : Simulation) (i id types : Nat)
    (world : Option Nat) :
    (simulationCreateEntity s i id types world).unloading = s.unloading := by
  simp only [simulationCreateEntity, getPoly]
  split <;> rfl

theorem requests_unloading (i : Nat) (world : Option Nat) (requests : List Galaxy) :
    ∀ s : Simulation, (requests.foldl (fun simulation galaxy =>
      simulationCreateEntity simulation i galaxy.id galaxy.typeId world) s).unloading =
        s.unloading := by
  induction requests with
  | nil => exact fun s => rfl
  | cons galaxy requests ih =>
    exact fun s => (ih _).trans (simulationCreateEntity_unloading s i galaxy.id galaxy.typeId world)

theorem createSimulatedGalaxy_unloading (s : Simulation) (i id : Nat) :
    (createSimulatedGalaxy s i id).unloading = s.unloading := by
  unfold createSimulatedGalaxy
  split
  · rfl
  · exact simulationCreateEntity_unloading s i id kSimulatedGalaxyType none

theorem ite_unloading (b : Bool) (h : s'.unloading = s.unloading) :
    (if b then s' else s).unloading = s.unloading := by
  cases b
  · rfl
  · exact h

theorem onLoaderEntity_unloading (s : Simulation) (entity : Entity) :
    (onLoaderEntity s entity).unloading = s.unloading := by
  unfold onLoaderEntity
  split
  · rfl
  · split <;> rfl

theorem onLoadSpatialEntity_unloading (database : Option (NodeCoord → Option Bytes))
    (s : Simulation) (id : Nat) (entity : Entity) :
    (onLoadSpatialEntity database s id entity).unloading = s.unloading := by
  unfold onLoadSpatialEntity
  split <;> rfl

theorem onUnloadSpatialEntity_unloading (s : Simulation) (id : Nat) (entity : Entity) :
    (onUnloadSpatialEntity s id entity).unloading = s.unloading := by
  unfold onUnloadSpatialEntity
  split
  · rfl
  · split <;> rfl

theorem beginLoad_unloading (database : Option (NodeCoord → Option Bytes)) (s : Simulation)
    (id : Nat) (entity : Entity) : (beginLoad database s id entity).unloading = s.unloading := by
  refine (ite_unloading _ (onLoaderEntity_unloading _ _)).trans ?_
  refine (ite_unloading _ (onLoadSpatialEntity_unloading _ _ _ _)).trans ?_
  cases entity.has [cUniverse] <;> cases entity.has [cGalaxy] <;> rfl

theorem beginUnload_unloading (s : Simulation) (id : Nat) (entity : Entity) :
    (beginUnload s id entity).unloading = s.unloading := by
  refine (ite_unloading _ (onLoaderEntity_unloading _ _)).trans ?_
  refine (ite_unloading _ (onUnloadSpatialEntity_unloading _ _ _)).trans ?_
  cases entity.has [cUniverse] <;> cases entity.has [cGalaxy] <;> rfl

theorem doEvent_unloading (database : Option (NodeCoord → Option Bytes)) (s : Simulation)
    (event : LoadEvent) (ref : Ref) : (doEvent database s event ref).unloading = s.unloading := by
  unfold doEvent
  split
  · rfl
  · split
    · rfl
    · cases event with
      | beginLoad => exact beginLoad_unloading ..
      | beginUnload => exact beginUnload_unloading ..

/-- Only `SimulationUnload` begins to unload. -/
theorem step_unloading (h : step s l = some s') (hs' : s'.unloading = true) :
    s.unloading = true ∨ ∃ i, l = .simulationUnload i := by
  cases step_stepped h with
  | @createUniverse i hc =>
    have hcreate := simulationCreateEntity_unloading s i universeId kUniverseType none
    exact Or.inl (hcreate.symm.trans hs')
  | @createSimulatedGalaxy i id hc =>
    exact Or.inl ((createSimulatedGalaxy_unloading s i id).symm.trans hs')
  | @universeWorld i a l m m' hm hl hi hstep =>
    rw [afterUniverseStep, requests_unloading] at hs'
    exact Or.inl hs'
  | event hc hpop =>
    rw [doEvent_unloading] at hs'
    exact Or.inl hs'
  | @simulationUnload i hc => exact Or.inr ⟨i, rfl⟩
  | simulationUnloaded hidle hunloading hworlds => exact Or.inl hunloading
  | _ => exact Or.inl hs'

/-! ### The invariant -/

/-- An entity in a node has been asked for; one whose last request came from a node is in a node
of its world or retired; and while `SimulationUnload` runs, the entities in the nodes are retired
and nothing is read. -/
structure NodeAccount (s : Simulation) : Prop where
  worlds : WorldsSound s
  asked : (∀ f, s.control ≠ .fault f) → ∀ a id, HeldBy s a id → Asked s id
  requests : (∀ f, s.control ≠ .fault f) → ∀ id a, lastRequest id s.history = some (some a) →
    HeldBy s a id ∨ Retired s id
  unloading : (∀ f, s.control ≠ .fault f) → s.unloading = true → ∀ a, ¬s.Loads a ∧
    ∀ id, HeldBy s a id → Retired s id

namespace NodeAccount

theorem initial (workers : Nat) : NodeAccount (initial workers) where
  worlds :=
    { below := fun _ _ h => by cases h
      sound := fun _ _ h => by cases h }
  asked _ _ _ h := by
    obtain ⟨m, hm, -⟩ := h
    cases hm
  requests _ _ _ h := by cases h
  unloading _ h := by cases h

/-- While `SimulationUnload` runs no node asks for an entity. -/
theorem readIds_nil (h : NodeAccount s) (hrun : ∀ f, s.control ≠ .fault f)
    (hs : s.unloading = true) (a : Nat) (l : Spatial3D.Label UniverseNode) :
    readIds s a l = [] := by
  unfold readIds
  split
  · next m hm =>
    rw [readRequests_nil fun now scale it hc => (h.unloading hrun hs a).1 ⟨m, hm, by rw [hc]; rfl⟩]
    rfl
  · rfl

theorem requested_none (h : NodeAccount s) (hs : s.unloading = true) (hstep : step s l = some s')
    (id : Nat) (world : Option Nat) : .loadRequested id world ∉ requested s l := by
  have hcalls : ∀ i, ¬s.Callable i := fun i hc => absurd (hs.symm.trans hc.2.1) (by simp)
  intro hmem
  cases step_stepped hstep with
  | createUniverse hc => exact hcalls _ hc
  | createSimulatedGalaxy hc => exact hcalls _ hc
  | disconnectFromUniverse hc => exact hcalls _ hc
  | simulationUnload hc => exact hcalls _ hc
  | @universeWorld i a l m m' hm hl hi hworld =>
    have hnil := h.readIds_nil (step_running hstep) hs a l
    simp only [readIds, hm, List.map_eq_nil_iff] at hnil
    simp only [requested, hm, hnil] at hmem
    cases hmem
  | _ => cases hmem

/-- While `SimulationUnload` runs, the entities in nodes stay retired. -/
theorem kept (h : NodeAccount s) (hs : s.unloading = true) (hstep : step s l = some s')
    (he : Effect s s' l) (hrun' : ∀ f, s'.control ≠ .fault f) (a : Nat) :
    ¬s'.Loads a ∧ ∀ id, HeldBy s' a id → Retired s' id := by
  have hw := step_worldsKept hstep
  have hrun := step_running hstep
  refine ⟨fun hloads => ?_, fun id hid => ?_⟩
  · rcases hw.loads a hloads with hold | ⟨i, now, rfl⟩
    · exact (h.unloading hrun hs a).1 hold
    · have hallows : s.Allows (.worldDoNodeLoadCommands now) := (universeWorld_quiet hstep).2
      rw [hallows.2] at hs
      cases hs
  · rcases hw.gained h.worlds a id hid with hold | ⟨i, l', rfl, hread⟩
    · exact ((h.unloading hrun hs a).2 id hold).effect he hrun' (h.requested_none hs hstep id)
    · rw [h.readIds_nil hrun hs] at hread
      cases hread

/-- `SimulationUnload` asks for the unload of every entity that is loaded. -/
theorem begun (h : NodeAccount s) (ha : Accounted s) (hlive : WorldsLive s.listedWorlds) {i : Nat}
    (hg : UnloadsWithSimulation s (.simulationUnload i))
    (hstep : step s (.simulationUnload i) = some s') (hrun' : ∀ f, s'.control ≠ .fault f) (a : Nat) :
    ¬s'.Loads a ∧ ∀ id, HeldBy s' a id → Retired s' id := by
  obtain ⟨⟨hc, hidle⟩, heq⟩ := Option.ite_none_right_eq_some.mp hstep
  cases heq
  have hrun := step_running hstep
  have hq := simulationUnload_quiet s hc.2.2
  have hworlds : (simulationUnload s i).worlds = s.worlds :=
    congrArg Prod.fst (unloads_spatial i s.updatingEntities
      { s with unloading := true, updatingEntities := [] })
  have hlisted : ∀ {world}, s.worlds a = some world → a ∈ s.spatialWorlds := fun hworld =>
    (hlive.listed a).mpr (Option.isSome_iff_exists.mpr ⟨_, hworld⟩)
  refine ⟨fun ⟨m, hm, hloads⟩ => ?_, fun id ⟨m, hm, hheld⟩ => ?_⟩
  · rw [hworlds] at hm
    have hall := List.all_eq_true.mp hidle a (hlisted hm)
    rw [hm, Option.all_some] at hall
    have hcontrol : m.control = .idle := of_decide_eq_true hall
    rw [hcontrol] at hloads
    cases hloads
  · rw [hworlds] at hm
    obtain ⟨world, hworld, hmem⟩ := held_entities h.worlds ⟨m, hm, hheld⟩
    have hload := hg a (hlisted hworld) world hworld id hmem
    have hevents := (h.asked hrun a id ⟨m, hm, hheld⟩).resolve_left hload
    refine ⟨?_, fun hwaits => ?_⟩
    · unfold Released
      rw [hq.events]
      cases hlast : lastEvent id s.history with
      | beginUnload =>
        refine Or.inl ?_
        rw [lastEvent] at hlast
        cases hlist : eventsOf id s.history with
        | nil => exact absurd hlist hevents
        | cons event events =>
          rw [hlist] at hlast
          exact congrArg some hlast
      | beginLoad =>
        refine Or.inr ((hq.unloads id).mpr ?_)
        rcases ha.held hrun id hlast with hupdating | hwaits
        · exact Or.inr (List.mem_reverse.mpr (List.mem_map_of_mem hupdating))
        · exact Or.inl hwaits
    · rcases (hq.loads id).mp hwaits with hold | ⟨world', hnew⟩
      · exact hload hold
      · obtain ⟨id', -, heq⟩ := List.mem_map.mp (List.mem_reverse.mp hnew)
        cases heq

theorem effect (h : NodeAccount s) (ha : Accounted s) (hlive : WorldsLive s.listedWorlds)
    (hg : UnloadsWithSimulation s l) (hstep : step s l = some s') (he : Effect s s' l) :
    NodeAccount s' := by
  have hw := step_worldsKept hstep
  have hrun := step_running hstep
  refine ⟨hw.sound h.worlds, fun hrun' a id hid => ?_, fun hrun' id a hid => ?_,
    fun hrun' hs' a => ?_⟩
  · rcases hw.gained h.worlds a id hid with hold | ⟨i, l', rfl, hread⟩
    · exact (h.asked hrun a id hold).effect he hrun'
    · exact Or.inl (((universeWorld_quiet hstep).1.loads id).mpr
        (Or.inr ⟨some a, mem_requested hread⟩))
  · rcases lastRequest_effect hstep he hid with hmem | ⟨hold, hnone⟩
    · exact Or.inl (requested_held h.worlds hstep hmem)
    · rcases h.requests hrun id a hold with hheld | hretired
      · rcases hw.held h.worlds a id hheld with hheld' | ⟨n, hn, entity, hentity, rfl⟩
        · exact Or.inl hheld'
        · -- the node goes while the simulation unloads
          have hs : s.unloading = true := by
            obtain ⟨i, b, l', rfl, -⟩ := held_destroyedBy hn hentity
            exact hg n hn (List.ne_nil_of_mem hentity)
          exact Or.inr (((h.unloading hrun hs a).2 _ hheld).effect he hrun' hnone)
      · exact Or.inr (hretired.effect he hrun' hnone)
  · rcases step_unloading hstep hs' with hs | ⟨i, rfl⟩
    · exact h.kept hs hstep he hrun' a
    · exact h.begun ha hlive hg hstep hrun' a

end NodeAccount

/-! ### Runs -/

variable {workers : Nat}

theorem reach_nodeAccount (h : (simulationMachine workers).Reach OrderlyUnloads s) :
    NodeAccount s := by
  refine h.invariant ?_ ?_
  · rintro s rfl
    exact NodeAccount.initial workers
  · intro s l s' hr hs hg hstep
    have haccount := reach_accounted (hr.mono fun _ _ hg => hg.1)
    exact hs.effect haccount (worldsLive_of_reachable hr.reachable) hg.2 hstep
      (step_effect hg.1 hstep)

theorem NodeAccount.entitiesReleased (h : NodeAccount s) (hg : OrderlyUnloads s l) :
    EntitiesReleased s l := by
  intro s' hstep n hn entity hentity
  obtain ⟨i, a, l', rfl, hheld⟩ := held_destroyedBy hn hentity
  have hs : s.unloading = true := hg.2 n hn (List.ne_nil_of_mem hentity)
  obtain ⟨hreleased, -⟩ := (h.unloading (step_running hstep) hs a).2 _ hheld
  obtain ⟨hq, -⟩ := universeWorld_quiet hstep
  unfold Released
  rw [hq.events]
  exact hreleased.imp_right fun hmem => (hq.unloads entity.id).mpr (Or.inl hmem)

theorem NodeAccount.noneRemains (h : NodeAccount s) (ha : Accounted s) : NoneRemains s := by
  intro a hempty hidle hwaiting id hid hlast
  rcases h.requests (Accounted.not_fault (Or.inl hidle)) id a hlast with
    ⟨m, hm, hheld⟩ | ⟨hreleased, -⟩
  · have hcount : (SpatialWorld.universe m).nodeCount = 0 := hempty _ hm
    exact held_nodeCount (h.worlds.sound a m hm) hheld hcount
  · rcases hreleased with hevent | hmem
    · have hloaded := ha.updating.loaded id hid
      rw [lastEvent, List.headD_eq_head?_getD, hevent] at hloaded
      cases hloaded
    · rw [hwaiting] at hmem
      cases hmem

/-- A record that names a galaxy without a loader. -/
def starRecord : Bytes :=
  universeType.serializeAll ⟨0, 0, 0⟩ ⟨0, { galaxies := [⟨5, createTypeId [cGalaxy]⟩] }⟩

/-- The universe is loaded, a node of it is read from this record, and its entity is loaded. -/
def readNodeRun : List Label :=
  [.createUniverse 0, .dispatch,
      .next (some fun c => if c = ⟨⟨0, 0, 0⟩, 0⟩ then some starRecord else none), .next none] ++
    loadRun.map (.universeWorld 0 0) ++ [.dispatch, .next none, .next none]

/-- The node is written; the next step of its world destroys it. -/
def writeNodeRun : List Label :=
  let write : List (Spatial3D.Label UniverseNode) :=
    [.worldDoNodeUnloadCommands, .next 0 0, .perform 0 .ok, .finish 0] ++ passScales ++
      [.worldDoNodeUnloadCommands]
  write.map (.universeWorld 0 0)

/-- The simulation is unloaded before the node. -/
def shutdownRun : List Label :=
  readNodeRun ++ [.simulationUnload 0, .dispatch, .next none, .next none, .next none] ++
    writeNodeRun ++ [.universeWorld 0 0 (.next 1 0)] ++ passScales.map (.universeWorld 0 0)

/-- The node is destroyed while nobody asked for its entity to be unloaded. -/
def keepEntityRun : List Label := readNodeRun ++ writeNodeRun

end CosmicArchitect.UniverseSimulation
