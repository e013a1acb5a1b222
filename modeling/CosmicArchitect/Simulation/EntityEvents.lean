import CosmicArchitect.Simulation.UniverseSimulation
import Mathlib.Data.List.Chain

/-!
# Load and unload events of entities

`SimulationCreateEntity` and `SimulationUnloadEntity` put a command into a list whatever the
entity is doing, and `unordered_erase` removes the first entry of a list. In runs whose callers
load what is not loaded and unload what is, and in which the first entry is the right one, the
events alternate and no list has an entity twice.
-/

namespace CosmicArchitect.UniverseSimulation
open Serialize Spatial3D Universe

/-- The events dispatched for an entity, newest first. -/
def eventsOf (entity : Nat) (history : List Entry) : List LoadEvent :=
  history.filterMap fun
    | .dispatched event entity' => if entity' = entity then some event else none
    | _ => none

/-- The last of them; an entity starts unloaded. -/
def lastEvent (entity : Nat) (history : List Entry) : LoadEvent :=
  (eventsOf entity history).headD .beginUnload

/-- The commands of all contexts in the order of the dispatch. -/
def waiting (contexts : List ThreadContext) : List (LoadEvent × Ref) :=
  contexts.flatMap fun context =>
    context.loadCommands.map (Prod.mk .beginLoad) ++
      context.unloadCommands.map (Prod.mk .beginUnload)

def commandsOf (entity : Nat) (commands : List (LoadEvent × Ref)) : List LoadEvent :=
  commands.filterMap fun command => if command.2 = some entity then some command.1 else none

/-- The events of an entity begin with `BeginLoad` and alternate, and the lists have it at
most once. -/
structure EntitiesAlternate (s : Simulation) : Prop where
  events : ∀ entity, (LoadEvent.beginUnload :: (eventsOf entity s.history).reverse).IsChain (· ≠ ·)
  updatingEntities : s.updatingEntities.Nodup
  universes : s.universes.Nodup
  galaxies : s.galaxies.Nodup

/-- `unordered_erase` removes no other entity than this one. -/
def ErasesOnly (entity : Nat) (l : List Nat) : Prop := ∀ first ∈ l.head?, first = entity

instance (entity : Nat) (l : List Nat) : Decidable (ErasesOnly entity l) :=
  inferInstanceAs (Decidable (∀ first ∈ l.head?, first = entity))

/-- A context with one more command. -/
def request (event : LoadEvent) (ref : Ref) (context : ThreadContext) : ThreadContext :=
  match event with
  | .beginLoad => { context with loadCommands := context.loadCommands ++ [ref] }
  | .beginUnload => { context with unloadCommands := context.unloadCommands ++ [ref] }

/-- The commands that are dispatched after a new one of the context `i`. -/
def behind (event : LoadEvent) : Nat → List ThreadContext → List (LoadEvent × Ref)
  | _, [] => []
  | 0, context :: rest =>
    match event with
    | .beginLoad => context.unloadCommands.map (Prod.mk .beginUnload) ++ waiting rest
    | .beginUnload => waiting rest
  | i + 1, _ :: rest => behind event i rest

/-- What the entity is told last, if nothing more is asked for. -/
def newest (s : Simulation) (id : Nat) : LoadEvent :=
  (commandsOf id (waiting s.threadContexts)).getLastD
    (if id ∈ s.updatingEntities then .beginLoad else .beginUnload)

/-- The caller asks for what the entity is not told already, in a context that is not before one
with a command for it. -/
def MayRequest (s : Simulation) (event : LoadEvent) (i id : Nat) : Prop :=
  newest s id ≠ event ∧ commandsOf id (behind event i s.threadContexts) = []

instance (s : Simulation) (event : LoadEvent) (i id : Nat) : Decidable (MayRequest s event i id) :=
  inferInstanceAs (Decidable (_ ∧ _))

/-- `BeginUnload` of this entity removes no other entity from the lists of its types. -/
def UnloadErasesOnly (s : Simulation) (id : Nat) : Prop :=
  ErasesOnly id s.updatingEntities ∧ ∀ entity ∈ s.entityFactory id,
    (entity.has [cUniverse] = true → ErasesOnly id s.universes) ∧
      (entity.has [cGalaxy] = true → ErasesOnly id s.galaxies)

instance (s : Simulation) (id : Nat) : Decidable (UnloadErasesOnly s id) :=
  inferInstanceAs (Decidable (_ ∧ ∀ entity ∈ s.entityFactory id, _ ∧ _))

/-- The entities that a step of a world asks for. -/
def readIds (s : Simulation) (a : Nat) (l : Spatial3D.Label UniverseNode) : List Nat :=
  match s.worlds a with
  | some (.universe m) => (readRequests m l).map (·.id)
  | _ => []

def Orderly (s : Simulation) : Label → Prop
  | .createUniverse i => MayRequest s .beginLoad i universeId
  | .createSimulatedGalaxy i id => MayRequest s .beginLoad i id
  | .disconnectFromUniverse i => ∀ id ∈ s.universeEntity, MayRequest s .beginUnload i id
  | .universeWorld i a l =>
    (readIds s a l).Nodup ∧ ∀ id ∈ readIds s a l, MayRequest s .beginLoad i id
  | .simulationUnload i => ∀ id ∈ s.updatingEntities, MayRequest s .beginUnload i id
  | .next _ =>
    match popCommand s.threadContexts with
    | some ((.beginUnload, some entity), _) => UnloadErasesOnly s entity
    | _ => True
  | _ => True

instance (s : Simulation) : (l : Label) → Decidable (Orderly s l)
  | .createUniverse _ => inferInstanceAs (Decidable (MayRequest ..))
  | .createSimulatedGalaxy .. => inferInstanceAs (Decidable (MayRequest ..))
  | .disconnectFromUniverse i =>
    inferInstanceAs (Decidable (∀ id ∈ s.universeEntity, MayRequest s .beginUnload i id))
  | .universeWorld i a l =>
    inferInstanceAs (Decidable ((readIds s a l).Nodup ∧
      ∀ id ∈ readIds s a l, MayRequest s .beginLoad i id))
  | .simulationUnload i =>
    inferInstanceAs (Decidable (∀ id ∈ s.updatingEntities, MayRequest s .beginUnload i id))
  | .next _ =>
    match h : popCommand s.threadContexts with
    | some ((.beginUnload, some entity), _) =>
      decidable_of_iff (UnloadErasesOnly s entity) (by simp only [Orderly, h])
    | some ((.beginUnload, none), _) => isTrue (by simp only [Orderly, h])
    | some ((.beginLoad, _), _) => isTrue (by simp only [Orderly, h])
    | none => isTrue (by simp only [Orderly, h])
  | .galaxyWorld .. => isTrue trivial
  | .scaleUpdateEntityNodes .. => isTrue trivial
  | .spatialUpdate => isTrue trivial
  | .dispatch => isTrue trivial
  | .simulationUnloaded => isTrue trivial

/-! ### Commands -/

theorem waiting_cons (context : ThreadContext) (rest : List ThreadContext) :
    waiting (context :: rest) = waiting [context] ++ waiting rest := by
  simp only [waiting, List.flatMap_cons, List.flatMap_nil, List.append_nil]

theorem popCommand_waiting {contexts contexts' : List ThreadContext} {command : LoadEvent × Ref}
    (h : popCommand contexts = some (command, contexts')) :
    waiting contexts = command :: waiting contexts' := by
  induction contexts generalizing contexts' with
  | nil => cases h
  | cons context rest ih =>
    obtain ⟨loads, unloads⟩ := context
    cases loads with
    | cons entity loads =>
      cases h
      rfl
    | nil =>
      cases unloads with
      | cons entity unloads =>
        cases h
        rfl
      | nil =>
        obtain ⟨⟨popped, rest'⟩, hpop, heq⟩ := Option.map_eq_some_iff.mp h
        cases heq
        have hrest : waiting rest = popped :: waiting rest' := ih hpop
        exact hrest

theorem popCommand_ne_nil {contexts contexts' : List ThreadContext} {command : LoadEvent × Ref}
    (h : popCommand contexts = some (command, contexts')) : contexts' ≠ [] := by
  cases contexts with
  | nil => cases h
  | cons context rest =>
    obtain ⟨loads, unloads⟩ := context
    cases loads with
    | cons entity loads =>
      cases h
      exact List.cons_ne_nil _ _
    | nil =>
      cases unloads with
      | cons entity unloads =>
        cases h
        exact List.cons_ne_nil _ _
      | nil =>
        obtain ⟨popped, -, heq⟩ := Option.map_eq_some_iff.mp h
        cases heq
        exact List.cons_ne_nil _ _

theorem popCommand_none {contexts : List ThreadContext} (h : popCommand contexts = none) :
    waiting contexts = [] := by
  induction contexts with
  | nil => rfl
  | cons context rest ih =>
    obtain ⟨loads, unloads⟩ := context
    cases loads with
    | cons entity loads => cases h
    | nil =>
      cases unloads with
      | cons entity unloads => cases h
      | nil => exact ih (Option.map_eq_none_iff.mp h)

/-- A new command comes between those ahead of it and those behind it. -/
theorem waiting_request (event : LoadEvent) (ref : Ref) :
    ∀ {contexts : List ThreadContext} {i : Nat}, i < contexts.length →
      ∃ ahead, waiting contexts = ahead ++ behind event i contexts ∧
        waiting (contexts.modify i (request event ref)) =
          ahead ++ (event, ref) :: behind event i contexts ∧
        behind event i (contexts.modify i (request event ref)) = behind event i contexts := by
  intro contexts
  induction contexts with
  | nil =>
    intro i hi
    exact absurd hi (Nat.not_lt_zero i)
  | cons context rest ih =>
    intro i hi
    cases i with
    | zero =>
      rw [List.modify_zero_cons, waiting_cons, waiting_cons (request event ref context)]
      cases event with
      | beginLoad =>
        refine ⟨context.loadCommands.map (Prod.mk .beginLoad), ?_, ?_, rfl⟩
        · simp only [waiting, List.flatMap_cons, List.flatMap_nil, List.append_nil, behind,
            List.append_assoc]
        · simp only [waiting, request, List.flatMap_cons, List.flatMap_nil, List.append_nil, behind,
            List.map_append, List.map_cons, List.map_nil, List.append_assoc, List.cons_append,
            List.nil_append]
      | beginUnload =>
        refine ⟨waiting [context], rfl, ?_, rfl⟩
        simp only [waiting, request, List.flatMap_cons, List.flatMap_nil, List.append_nil, behind,
          List.map_append, List.map_cons, List.map_nil, List.append_assoc, List.cons_append,
          List.nil_append]
    | succ i =>
      obtain ⟨ahead, hold, hnew, hbehind⟩ := ih (Nat.lt_of_succ_lt_succ hi)
      rw [List.modify_succ_cons, waiting_cons, waiting_cons context (rest.modify i _), hold, hnew]
      exact ⟨waiting [context] ++ ahead, (List.append_assoc ..).symm, (List.append_assoc ..).symm,
        hbehind⟩

theorem mem_waiting_request (event : LoadEvent) (ref : Ref) {contexts : List ThreadContext}
    {i : Nat} (hi : i < contexts.length) (command : LoadEvent × Ref) :
    command ∈ waiting (contexts.modify i (request event ref)) ↔
      command ∈ waiting contexts ∨ command = (event, ref) := by
  obtain ⟨ahead, hold, hnew, -⟩ := waiting_request event ref hi
  rw [hold, hnew]
  simp only [List.mem_append, List.mem_cons]
  tauto

theorem commandsOf_append (id : Nat) (l l' : List (LoadEvent × Ref)) :
    commandsOf id (l ++ l') = commandsOf id l ++ commandsOf id l' := List.filterMap_append

theorem commandsOf_cons (id : Nat) (event : LoadEvent) (commands : List (LoadEvent × Ref)) :
    commandsOf id ((event, some id) :: commands) = event :: commandsOf id commands := by
  simp only [commandsOf, List.filterMap_cons, if_true]

theorem commandsOf_cons_ne {id : Nat} {command : LoadEvent × Ref} (h : command.2 ≠ some id)
    (commands : List (LoadEvent × Ref)) :
    commandsOf id (command :: commands) = commandsOf id commands := by
  simp only [commandsOf, List.filterMap_cons, if_neg h]

/-- Requests for different entities, with no command for any of them behind, add one command each. -/
theorem commandsOf_requests (event : LoadEvent) {i : Nat} (ids : List Nat) :
    ∀ contexts : List ThreadContext, i < contexts.length → ids.Nodup →
      (∀ id ∈ ids, commandsOf id (behind event i contexts) = []) → ∀ id,
        commandsOf id (waiting (ids.foldl (fun contexts id =>
          contexts.modify i (request event (some id))) contexts)) =
            commandsOf id (waiting contexts) ++ if id ∈ ids then [event] else [] := by
  induction ids with
  | nil =>
    intro contexts _ _ _ id
    exact (List.append_nil _).symm
  | cons first ids ih =>
    intro contexts hi hnodup hbehind id
    obtain ⟨hfirst, hnodup⟩ := List.nodup_cons.mp hnodup
    obtain ⟨ahead, hold, hnew, hsame⟩ := waiting_request event (some first) hi
    rw [List.foldl_cons, ih _ (by rwa [List.length_modify]) hnodup, hold, hnew, commandsOf_append,
      commandsOf_append]
    · by_cases hid : id = first
      · subst hid
        rw [commandsOf_cons, hbehind id List.mem_cons_self, if_neg hfirst,
          if_pos List.mem_cons_self, List.append_nil, List.append_nil]
      · rw [commandsOf_cons_ne fun hc => hid (Option.some.inj hc).symm]
        simp only [List.mem_cons, hid, false_or]
    · intro id' hid'
      rw [hsame]
      exact hbehind id' (List.mem_cons_of_mem _ hid')

/-- For each entity at most one command comes, behind those that wait and not the newest again. -/
def Continued (s s' : Simulation) : Prop := ∀ id,
  commandsOf id (waiting s'.threadContexts) = commandsOf id (waiting s.threadContexts) ∨
    ∃ event, newest s id ≠ event ∧ commandsOf id (waiting s'.threadContexts) =
      commandsOf id (waiting s.threadContexts) ++ [event]

theorem Continued.same {s s' : Simulation} (h : s'.threadContexts = s.threadContexts) :
    Continued s s' := by
  intro id
  rw [h]
  exact Or.inl rfl

theorem requests_continued {s s' : Simulation} {event : LoadEvent} {i : Nat} (ids : List Nat)
    (hi : i < s.threadContexts.length) (hnodup : ids.Nodup)
    (hmay : ∀ id ∈ ids, MayRequest s event i id)
    (hcontexts : s'.threadContexts = ids.foldl (fun contexts id =>
      contexts.modify i (request event (some id))) s.threadContexts) : Continued s s' := by
  intro id
  rw [hcontexts, commandsOf_requests event ids s.threadContexts hi hnodup
    fun id hid => (hmay id hid).2]
  split
  · next hid => exact Or.inr ⟨event, (hmay id hid).1, rfl⟩
  · exact Or.inl (List.append_nil _)

/-! ### Steps without an event -/

/-- Living entities stay and keep their types. -/
def Grows (s s' : Simulation) : Prop :=
  ∀ id entity, s.entityFactory id = some entity →
    ∃ entity', s'.entityFactory id = some entity' ∧ entity'.typeId = entity.typeId

theorem Grows.refl (s : Simulation) : Grows s s := fun _ entity h => ⟨entity, h, rfl⟩

theorem Grows.trans {s s' s'' : Simulation} (h : Grows s s') (h' : Grows s' s'') :
    Grows s s'' := by
  intro id entity hid
  obtain ⟨entity', hid', htype⟩ := h id entity hid
  obtain ⟨entity'', hid'', htype'⟩ := h' id entity' hid'
  exact ⟨entity'', hid'', htype'.trans htype⟩

theorem modifyEntity_grows (s : Simulation) (id : Nat) {f : Entity → Entity}
    (hf : ∀ entity, (f entity).typeId = entity.typeId) : Grows s (modifyEntity s id f) := by
  intro id' entity h
  by_cases hid : id' = id
  · subst hid
    refine ⟨f entity, ?_, hf entity⟩
    simp only [modifyEntity, Function.update_self, h, Option.map_some]
  · exact ⟨entity, by simp only [modifyEntity, Function.update_of_ne hid, h], rfl⟩

theorem getPoly_grows (s : Simulation) (id types : Nat) : Grows s (getPoly s id types) := by
  unfold getPoly
  split
  · exact Grows.refl s
  · next hid =>
    intro id' entity h
    have hne : id' ≠ id := by
      rintro rfl
      rw [hid] at h
      cases h
    exact ⟨entity, by simp only [Function.update_of_ne hne, h], rfl⟩

/-- Nothing is dispatched; the history grows by `new`, whose requests are the new commands, and
entities leave `updating_entities` with an unload command only. -/
structure Quiet (s s' : Simulation) (new : List Entry) : Prop where
  history : s'.history = new ++ s.history
  silent : ∀ event id, .dispatched event id ∉ new
  loads : ∀ id, (.beginLoad, some id) ∈ waiting s'.threadContexts ↔
    (.beginLoad, some id) ∈ waiting s.threadContexts ∨ ∃ world, .loadRequested id world ∈ new
  unloads : ∀ id, (.beginUnload, some id) ∈ waiting s'.threadContexts ↔
    (.beginUnload, some id) ∈ waiting s.threadContexts ∨ .unloadRequested id ∈ new
  contexts : s'.threadContexts.length = s.threadContexts.length
  universes : s'.universes = s.universes
  galaxies : s'.galaxies = s.galaxies
  grows : Grows s s'
  updating : s'.updatingEntities = s.updatingEntities ∨ s'.updatingEntities = [] ∧
    ∀ id ∈ s.updatingEntities, (.beginUnload, some id) ∈ waiting s'.threadContexts
  control : s'.control = s.control ∨ ∃ f, s'.control = .fault f

theorem control_trans {s s' s'' : Simulation}
    (h : s'.control = s.control ∨ ∃ f, s'.control = .fault f)
    (h' : s''.control = s'.control ∨ ∃ f, s''.control = .fault f) :
    s''.control = s.control ∨ ∃ f, s''.control = .fault f := by
  rcases h' with heq | hfault
  · rw [heq]
    exact h
  · exact Or.inr hfault

theorem eventsOf_append (id : Nat) (new history : List Entry) :
    eventsOf id (new ++ history) = eventsOf id new ++ eventsOf id history :=
  List.filterMap_append

theorem eventsOf_silent {new : List Entry} (h : ∀ event id, .dispatched event id ∉ new) (id : Nat) :
    eventsOf id new = [] := by
  refine List.filterMap_eq_nil_iff.mpr fun entry hentry => ?_
  cases entry with
  | dispatched event id' => exact absurd hentry (h event id')
  | _ => rfl

namespace Quiet
variable {s s' s'' : Simulation} {new new' : List Entry}

theorem same (hhistory : s'.history = s.history) (hcontexts : s'.threadContexts = s.threadContexts)
    (huniverses : s'.universes = s.universes) (hgalaxies : s'.galaxies = s.galaxies)
    (hgrows : Grows s s') (hupdating : s'.updatingEntities = s.updatingEntities)
    (hcontrol : s'.control = s.control ∨ ∃ f, s'.control = .fault f) : Quiet s s' [] where
  history := hhistory
  silent _ _ h := by cases h
  loads id := by simp [hcontexts]
  unloads id := by simp [hcontexts]
  contexts := by rw [hcontexts]
  universes := huniverses
  galaxies := hgalaxies
  grows := hgrows
  updating := Or.inl hupdating
  control := hcontrol

theorem refl (s : Simulation) : Quiet s s [] :=
  same rfl rfl rfl rfl (Grows.refl s) rfl (Or.inl rfl)

theorem trans (h : Quiet s s' new) (h' : Quiet s' s'' new') : Quiet s s'' (new' ++ new) where
  history := by rw [h'.history, h.history, List.append_assoc]
  silent event id hmem := by
    rcases List.mem_append.mp hmem with hmem | hmem
    · exact h'.silent event id hmem
    · exact h.silent event id hmem
  loads id := by
    rw [h'.loads, h.loads]
    simp only [List.mem_append, exists_or]
    tauto
  unloads id := by
    rw [h'.unloads, h.unloads]
    simp only [List.mem_append]
    tauto
  contexts := h'.contexts.trans h.contexts
  universes := h'.universes.trans h.universes
  galaxies := h'.galaxies.trans h.galaxies
  grows := h.grows.trans h'.grows
  updating := by
    rcases h.updating with heq | ⟨hnil, hmem⟩
    · rw [← heq]
      exact h'.updating
    · refine Or.inr ⟨?_, fun id hid => (h'.unloads id).mpr (Or.inl (hmem id hid))⟩
      rcases h'.updating with heq | ⟨hnil', -⟩
      · exact heq.trans hnil
      · exact hnil'
  control := control_trans h.control h'.control

theorem events (h : Quiet s s' new) (id : Nat) :
    eventsOf id s'.history = eventsOf id s.history := by
  rw [h.history, eventsOf_append, eventsOf_silent h.silent, List.nil_append]

end Quiet

theorem simulationCreateEntity_quiet (s : Simulation) {i : Nat} (id types : Nat)
    (world : Option Nat) (hi : i < s.threadContexts.length) :
    Quiet s (simulationCreateEntity s i id types world) [.loadRequested id world] := by
  have hpoly : getPoly s id types =
      { s with entityFactory := (getPoly s id types).entityFactory } := by
    unfold getPoly
    split <;> rfl
  have hgrows : Grows s (simulationCreateEntity s i id types world) := getPoly_grows s id types
  rw [simulationCreateEntity, hpoly]
  rw [simulationCreateEntity, hpoly] at hgrows
  have hmem := fun command =>
    mem_waiting_request .beginLoad (some id) hi command
  refine ⟨rfl, fun event id' h => ?_, fun id' => ?_, fun id' => ?_, List.length_modify .., rfl, rfl,
    hgrows, Or.inl rfl, Or.inl rfl⟩
  · cases List.mem_singleton.mp h
  · refine (hmem _).trans (or_congr_right ⟨fun h => ?_, fun ⟨world', h⟩ => ?_⟩)
    · cases h
      exact ⟨world, List.mem_singleton.mpr rfl⟩
    · cases List.mem_singleton.mp h
      rfl
  · refine (hmem _).trans (or_congr_right ⟨fun h => ?_, fun h => ?_⟩)
    · cases h
    · cases List.mem_singleton.mp h

theorem simulationUnloadEntity_quiet (s : Simulation) {i : Nat} (ref : Ref)
    (hi : i < s.threadContexts.length) :
    Quiet s (simulationUnloadEntity s i ref) (ref.toList.map .unloadRequested) := by
  have hmem := fun command => mem_waiting_request .beginUnload ref hi command
  refine ⟨rfl, fun event id' h => ?_, fun id' => ?_, fun id' => ?_, List.length_modify .., rfl, rfl,
    Grows.refl s, Or.inl rfl, Or.inl rfl⟩
  · obtain ⟨id, -, hid⟩ := List.mem_map.mp h
    cases hid
  · refine (hmem _).trans (or_congr_right ⟨fun h => ?_, fun ⟨world', h⟩ => ?_⟩)
    · cases h
    · obtain ⟨id, -, hid⟩ := List.mem_map.mp h
      cases hid
  · refine (hmem _).trans (or_congr_right ⟨fun h => ?_, fun h => ?_⟩)
    · cases h
      exact List.mem_singleton.mpr rfl
    · obtain ⟨id, hid, heq⟩ := List.mem_map.mp h
      cases heq
      rw [Option.mem_toList.mp hid]

theorem modifyEntity_quiet (s : Simulation) (id : Nat) {f : Entity → Entity}
    (hf : ∀ entity, (f entity).typeId = entity.typeId) : Quiet s (modifyEntity s id f) [] :=
  Quiet.same rfl rfl rfl rfl (modifyEntity_grows s id hf) rfl (Or.inl rfl)

/-- The history after the requests of a node. -/
def requestEntries (world : Option Nat) (requests : List Galaxy) : List Entry :=
  (requests.map fun galaxy => Entry.loadRequested galaxy.id world).reverse

theorem requests_quiet {i : Nat} (world : Option Nat) (requests : List Galaxy) :
    ∀ s : Simulation, i < s.threadContexts.length →
      Quiet s (requests.foldl (fun simulation galaxy =>
        simulationCreateEntity simulation i galaxy.id galaxy.typeId world) s)
        (requestEntries world requests) := by
  induction requests with
  | nil => exact fun s _ => Quiet.refl s
  | cons galaxy requests ih =>
    intro s hi
    have hcreate := simulationCreateEntity_quiet s galaxy.id galaxy.typeId world hi
    have hrest := hcreate.trans (ih _ (by rw [hcreate.contexts]; exact hi))
    rw [requestEntries, List.map_cons, List.reverse_cons]
    exact hrest

theorem createUniverse_quiet (s : Simulation) {i : Nat} (hi : i < s.threadContexts.length) :
    Quiet s (createUniverse s i) [.loadRequested universeId none] := by
  have h := (simulationCreateEntity_quiet s universeId kUniverseType none hi).trans
    (modifyEntity_quiet _ universeId (f := fun entity => { entity with worldType := .universe })
      fun _ => rfl)
  exact ⟨h.history, h.silent, h.loads, h.unloads, h.contexts, h.universes, h.galaxies, h.grows,
    h.updating, h.control⟩

theorem createSimulatedGalaxy_quiet (s : Simulation) {i : Nat} (id : Nat)
    (hi : i < s.threadContexts.length) :
    Quiet s (createSimulatedGalaxy s i id)
      (if s.universeEntity = none then [] else [.loadRequested id none]) := by
  cases hcreator : s.universeEntity with
  | none =>
    rw [if_pos rfl, createSimulatedGalaxy, hcreator]
    exact Quiet.same rfl rfl rfl rfl (Grows.refl s) rfl (Or.inr ⟨_, rfl⟩)
  | some creator =>
    have h := (simulationCreateEntity_quiet s id kSimulatedGalaxyType none hi).trans
      (modifyEntity_quiet _ id (f := fun entity =>
        { entity with
          worldType := .galaxy
          parentWorld := (s.entityFactory creator).bind (·.world) }) fun _ => rfl)
    rw [if_neg (fun hnone => by cases hnone), createSimulatedGalaxy, hcreator]
    exact ⟨h.history, h.silent, h.loads, h.unloads, h.contexts, h.universes, h.galaxies, h.grows,
      h.updating, h.control⟩

theorem unloads_quiet {i : Nat} (entities : List Nat) :
    ∀ s : Simulation, i < s.threadContexts.length →
      let s' := entities.foldl (fun simulation entity =>
        simulationUnloadEntity simulation i (some entity)) s
      Quiet s s' (entities.map Entry.unloadRequested).reverse ∧
        s'.updatingEntities = s.updatingEntities := by
  induction entities with
  | nil => exact fun s _ => ⟨Quiet.refl s, rfl⟩
  | cons entity entities ih =>
    intro s hi
    have hunload := simulationUnloadEntity_quiet s (some entity) hi
    obtain ⟨hquiet, hupdating⟩ := ih _ (by rw [hunload.contexts]; exact hi)
    have hrest := hunload.trans hquiet
    rw [List.map_cons, List.reverse_cons]
    exact ⟨hrest, hupdating⟩

theorem simulationUnload_quiet (s : Simulation) {i : Nat} (hi : i < s.threadContexts.length) :
    Quiet s (simulationUnload s i) (s.updatingEntities.map Entry.unloadRequested).reverse := by
  obtain ⟨h, hupdating⟩ := unloads_quiet s.updatingEntities
    { s with unloading := true, updatingEntities := [] } hi
  refine ⟨h.history, h.silent, h.loads, h.unloads, h.contexts, h.universes, h.galaxies, h.grows,
    Or.inr ⟨hupdating, fun id hid => ?_⟩, h.control⟩
  refine (h.unloads id).mpr (Or.inr ?_)
  exact List.mem_reverse.mpr (List.mem_map_of_mem hid)

/-! ### The commands of a request -/

theorem simulationCreateEntity_contexts (s : Simulation) (i id types : Nat) (world : Option Nat) :
    (simulationCreateEntity s i id types world).threadContexts =
      s.threadContexts.modify i (request .beginLoad (some id)) := by
  rw [simulationCreateEntity, getPoly]
  cases s.entityFactory id <;> rfl

theorem requests_contexts (i : Nat) (world : Option Nat) (requests : List Galaxy) :
    ∀ s : Simulation, (requests.foldl (fun simulation galaxy =>
        simulationCreateEntity simulation i galaxy.id galaxy.typeId world) s).threadContexts =
      (requests.map (·.id)).foldl (fun contexts id =>
        contexts.modify i (request .beginLoad (some id))) s.threadContexts := by
  induction requests with
  | nil => exact fun _ => rfl
  | cons galaxy requests ih =>
    intro s
    rw [List.foldl_cons, ih, simulationCreateEntity_contexts]
    rfl

theorem unloads_contexts (i : Nat) (entities : List Nat) :
    ∀ s : Simulation, (entities.foldl (fun simulation entity =>
        simulationUnloadEntity simulation i (some entity)) s).threadContexts =
      entities.foldl (fun contexts id => contexts.modify i (request .beginUnload (some id)))
        s.threadContexts := by
  induction entities with
  | nil => exact fun _ => rfl
  | cons entity entities ih =>
    intro s
    rw [List.foldl_cons, ih]
    rfl

theorem createUniverse_continued {s : Simulation} {i : Nat} (hi : i < s.threadContexts.length)
    (hg : MayRequest s .beginLoad i universeId) : Continued s (createUniverse s i) :=
  requests_continued [universeId] hi (List.nodup_singleton _) (by simpa using hg)
    (simulationCreateEntity_contexts s i universeId kUniverseType none)

theorem createSimulatedGalaxy_continued {s : Simulation} {i id : Nat}
    (hi : i < s.threadContexts.length) (hg : MayRequest s .beginLoad i id) :
    Continued s (createSimulatedGalaxy s i id) := by
  rw [createSimulatedGalaxy]
  split
  · exact Continued.same rfl
  · exact requests_continued [id] hi (List.nodup_singleton _) (by simpa using hg)
      (simulationCreateEntity_contexts s i id kSimulatedGalaxyType none)

theorem disconnectFromUniverse_continued {s : Simulation} {i : Nat}
    (hi : i < s.threadContexts.length)
    (hg : ∀ id ∈ s.universeEntity, MayRequest s .beginUnload i id) :
    Continued s (disconnectFromUniverse s i) := by
  cases hentity : s.universeEntity with
  | none =>
    intro id
    obtain ⟨ahead, hold, hnew, -⟩ := waiting_request .beginUnload none hi
    refine Or.inl ?_
    rw [disconnectFromUniverse, hentity]
    show commandsOf id (waiting (s.threadContexts.modify i (request .beginUnload none))) = _
    rw [hold, hnew, commandsOf_append, commandsOf_append, commandsOf_cons_ne (by simp)]
  | some id =>
    rw [disconnectFromUniverse, hentity]
    exact requests_continued [id] hi (List.nodup_singleton _)
      (by simpa using hg id hentity) rfl

theorem afterUniverseStep_continued {s : Simulation} {i a : Nat} {m' : State UniverseNode}
    {requests : List Galaxy} (hi : i < s.threadContexts.length)
    (hnodup : (requests.map (·.id)).Nodup)
    (hg : ∀ id ∈ requests.map (·.id), MayRequest s .beginLoad i id) :
    Continued s (afterUniverseStep s i a m' requests) :=
  requests_continued _ hi hnodup hg (requests_contexts i (some a) requests _)

theorem simulationUnload_continued {s : Simulation} {i : Nat} (hi : i < s.threadContexts.length)
    (hnodup : s.updatingEntities.Nodup)
    (hg : ∀ id ∈ s.updatingEntities, MayRequest s .beginUnload i id) :
    Continued s (simulationUnload s i) :=
  requests_continued _ hi hnodup hg (unloads_contexts i s.updatingEntities _)

/-! ### Callbacks -/

/-- The callbacks for an entity edit its lists with `edit`; the others create, mark or look for
worlds. -/
structure Edited (edit : List Nat → List Nat) (entity : Entity) (s s' : Simulation) : Prop where
  history : s'.history = s.history
  contexts : s'.threadContexts = s.threadContexts
  updating : s'.updatingEntities = edit s.updatingEntities
  universes : s'.universes = if entity.has [cUniverse] then edit s.universes else s.universes
  galaxies : s'.galaxies = if entity.has [cGalaxy] then edit s.galaxies else s.galaxies
  grows : Grows s s'
  control : s'.control = s.control ∨ ∃ f, s'.control = .fault f

/-- A callback that leaves the lists alone. -/
structure WorldsOnly (s s' : Simulation) : Prop where
  history : s'.history = s.history
  contexts : s'.threadContexts = s.threadContexts
  updating : s'.updatingEntities = s.updatingEntities
  universes : s'.universes = s.universes
  galaxies : s'.galaxies = s.galaxies
  grows : Grows s s'
  control : s'.control = s.control ∨ ∃ f, s'.control = .fault f

theorem WorldsOnly.refl (s : Simulation) : WorldsOnly s s :=
  ⟨rfl, rfl, rfl, rfl, rfl, Grows.refl s, Or.inl rfl⟩

theorem WorldsOnly.failed (s : Simulation) (f : Fault) : WorldsOnly s (s.failed f) :=
  ⟨rfl, rfl, rfl, rfl, rfl, Grows.refl s, Or.inr ⟨f, rfl⟩⟩

theorem Edited.worldsOnly {edit : List Nat → List Nat} {entity : Entity} {s s' s'' : Simulation}
    (h : Edited edit entity s s') (h' : WorldsOnly s' s'') : Edited edit entity s s'' :=
  ⟨h'.history.trans h.history, h'.contexts.trans h.contexts, h'.updating.trans h.updating,
    h'.universes.trans h.universes, h'.galaxies.trans h.galaxies, h.grows.trans h'.grows,
    control_trans h.control h'.control⟩

theorem onLoadSpatialEntity_worldsOnly (database : Option (NodeCoord → Option Bytes))
    (s : Simulation) (id : Nat) (entity : Entity) :
    WorldsOnly s (onLoadSpatialEntity database s id entity) := by
  unfold onLoadSpatialEntity
  split
  · exact WorldsOnly.failed s _
  · exact ⟨rfl, rfl, rfl, rfl, rfl, modifyEntity_grows s id fun _ => rfl, Or.inl rfl⟩

theorem onUnloadSpatialEntity_worldsOnly (s : Simulation) (id : Nat) (entity : Entity) :
    WorldsOnly s (onUnloadSpatialEntity s id entity) := by
  unfold onUnloadSpatialEntity
  split
  · exact WorldsOnly.failed s _
  · split
    · exact WorldsOnly.failed s _
    · exact ⟨rfl, rfl, rfl, rfl, rfl, modifyEntity_grows s id fun _ => rfl, Or.inl rfl⟩

theorem onLoaderEntity_worldsOnly (s : Simulation) (entity : Entity) :
    WorldsOnly s (onLoaderEntity s entity) := by
  unfold onLoaderEntity
  split
  · exact WorldsOnly.failed s _
  · split
    · exact WorldsOnly.refl s
    · exact WorldsOnly.failed s _

theorem WorldsOnly.ite (b : Bool) {s s' : Simulation} (h : WorldsOnly s s') :
    WorldsOnly s (if b then s' else s) := by
  cases b
  · exact WorldsOnly.refl s
  · exact h

theorem beginLoad_edited (database : Option (NodeCoord → Option Bytes)) (s : Simulation)
    (id : Nat) (entity : Entity) :
    Edited (· ++ [id]) entity s (beginLoad database s id entity) := by
  have hlists : Edited (· ++ [id]) entity s
      (let s := onLoadEntity s id
       let s := if entity.has [cUniverse] then onLoadUniverseEntity s id else s
       if entity.has [cGalaxy] then onLoadGalaxyEntity s id else s) := by
    cases huniverse : entity.has [cUniverse] <;> cases hgalaxy : entity.has [cGalaxy] <;>
      exact ⟨rfl, rfl, rfl, by rw [huniverse]; rfl, by rw [hgalaxy]; rfl, Grows.refl s, Or.inl rfl⟩
  have hspatial := hlists.worldsOnly
    (WorldsOnly.ite (entity.has [cWorld]) (onLoadSpatialEntity_worldsOnly database _ id entity))
  exact hspatial.worldsOnly
    (WorldsOnly.ite (entity.has [cLoader, cEntity]) (onLoaderEntity_worldsOnly _ entity))

theorem beginUnload_edited (s : Simulation) (id : Nat) (entity : Entity) :
    Edited (unorderedErase · id) entity s (beginUnload s id entity) := by
  have hlists : Edited (unorderedErase · id) entity s
      (let s := onUnloadEntity s id
       let s := if entity.has [cUniverse] then onUnloadUniverseEntity s id else s
       if entity.has [cGalaxy] then onUnloadGalaxyEntity s id else s) := by
    cases huniverse : entity.has [cUniverse] <;> cases hgalaxy : entity.has [cGalaxy] <;>
      exact ⟨rfl, rfl, rfl, by rw [huniverse]; rfl, by rw [hgalaxy]; rfl, Grows.refl s, Or.inl rfl⟩
  have hspatial := hlists.worldsOnly
    (WorldsOnly.ite (entity.has [cWorld]) (onUnloadSpatialEntity_worldsOnly _ id entity))
  exact hspatial.worldsOnly
    (WorldsOnly.ite (entity.has [cLoader, cEntity]) (onLoaderEntity_worldsOnly _ entity))

/-! ### What a step does -/

def requested (s : Simulation) : Label → List Entry
  | .createUniverse _ => [.loadRequested universeId none]
  | .createSimulatedGalaxy _ id =>
    if s.universeEntity = none then [] else [.loadRequested id none]
  | .disconnectFromUniverse _ => s.universeEntity.toList.map .unloadRequested
  | .universeWorld _ a l =>
    match s.worlds a with
    | some (.universe m) => requestEntries (some a) (readRequests m l)
    | _ => []
  | .simulationUnload _ => (s.updatingEntities.map .unloadRequested).reverse
  | _ => []

/-- Everything an orderly step can do to the entities. -/
inductive Effect (s s' : Simulation) (l : Label) : Prop
  /-- Nothing is dispatched. -/
  | quiet (h : Quiet s s' (requested s l)) (hc : s.updatingEntities.Nodup → Continued s s')
  | dispatch (hc : s.control = .idle) (h : s' = { s with control := .dispatching })
  /-- The command names no living entity. -/
  | dead (command : LoadEvent × Ref) (contexts : List ThreadContext) (f : Fault)
      (hpop : popCommand s.threadContexts = some (command, contexts))
      (h : s' = { s with threadContexts := contexts, control := .fault f })
  | loaded (id : Nat) (contexts : List ThreadContext) (entity : Entity)
      (hc : s.control = .dispatching)
      (hpop : popCommand s.threadContexts = some ((.beginLoad, some id), contexts))
      (hid : s.entityFactory id = some entity)
      (h : Edited (· ++ [id]) entity ({ s with threadContexts := contexts }.record
        (.dispatched .beginLoad id)) s')
  | unloaded (id : Nat) (contexts : List ThreadContext) (entity : Entity)
      (hc : s.control = .dispatching)
      (hpop : popCommand s.threadContexts = some ((.beginUnload, some id), contexts))
      (hid : s.entityFactory id = some entity) (hg : UnloadErasesOnly s id)
      (h : Edited (unorderedErase · id) entity ({ s with threadContexts := contexts }.record
        (.dispatched .beginUnload id)) s')
  | cleanup (hc : s.control = .dispatching) (hpop : popCommand s.threadContexts = none)
      (h : s' = { cleanup s with control := .idle })

theorem readRequests_background {m : State UniverseNode} {l : Spatial3D.Label UniverseNode}
    {s : Simulation} (hl : s.Allows l) (hc : s.control ≠ .idle) : readRequests m l = [] := by
  cases l with
  | next fresh seed => exact absurd hl hc
  | _ => rfl

theorem Simulation.Allows.running {D : Type} {s : Simulation} {l : Spatial3D.Label D}
    (h : s.Allows l) : s.control = .idle ∨ s.control = .dispatching := by
  cases l with
  | touchNode => exact Or.inl h.1
  | worldDoNodeLoadCommands => exact Or.inl h.1
  | editNode => exact h.elim
  | unloadWorld => exact h.elim
  | perform => exact h
  | finish => exact h
  | scaleUnloadUnutilizedNodes => exact Or.inl h
  | worldDoNodeUnloadCommands => exact Or.inl h
  | next => exact Or.inl h

theorem control_faults (b : Bool) (f : Fault) (c : Control) :
    (if b then Control.fault f else c) = c ∨ ∃ f', (if b then Control.fault f else c) = .fault f' := by
  cases b
  · exact Or.inl rfl
  · exact Or.inr ⟨f, rfl⟩

theorem afterUniverseStep_quiet (s : Simulation) {i : Nat} (a : Nat) (m' : State UniverseNode)
    (requests : List Galaxy) (hi : i < s.threadContexts.length) :
    Quiet s (afterUniverseStep s i a m' requests) (requestEntries (some a) requests) := by
  have hstep : Quiet s
      { s with
        worlds := Function.update s.worlds a (some (.universe m'))
        control := if m'.control.isFault then .fault .spatial else s.control } [] :=
    Quiet.same rfl rfl rfl rfl (Grows.refl s) rfl (control_faults ..)
  have h := hstep.trans (requests_quiet (some a) requests _ hi)
  rw [List.append_nil] at h
  exact h

theorem doEvent_effect {s : Simulation} {event : LoadEvent} {ref : Ref}
    {contexts : List ThreadContext} (database : Option (NodeCoord → Option Bytes))
    (hg : Orderly s (.next database)) (hc : s.control = .dispatching)
    (hpop : popCommand s.threadContexts = some ((event, ref), contexts)) :
    Effect s (doEvent database { s with threadContexts := contexts } event ref)
      (.next database) := by
  unfold doEvent
  split
  · exact .dead _ contexts .nullEntity hpop rfl
  · next id =>
    split
    · exact .dead _ contexts .danglingEntity hpop rfl
    · next entity hid =>
      cases event with
      | beginLoad => exact .loaded id contexts entity hc hpop hid (beginLoad_edited ..)
      | beginUnload =>
        simp only [Orderly, hpop] at hg
        exact .unloaded id contexts entity hc hpop hid hg (beginUnload_edited ..)

theorem WorldsOnly.effect {s s' : Simulation} {l : Label} (h : WorldsOnly s s')
    (hl : requested s l = []) : Effect s s' l := by
  refine .quiet ?_ fun _ => Continued.same h.contexts
  rw [hl]
  exact Quiet.same h.history h.contexts h.universes h.galaxies h.grows h.updating h.control

/-- A step of a universe world asks for what its node read. -/
theorem universeWorld_quiet {s s' : Simulation} {i a : Nat} {l : Spatial3D.Label UniverseNode}
    (h : step s (.universeWorld i a l) = some s') :
    Quiet s s' (requested s (.universeWorld i a l)) ∧ s.Allows l := by
  cases step_stepped h with
  | @universeWorld _ _ _ m m' hm hl hi hstep =>
    have hrequested : requested s (.universeWorld i a l) =
        requestEntries (some a) (readRequests m l) := by simp only [requested, hm]
    rw [hrequested]
    exact ⟨afterUniverseStep_quiet s a m' (readRequests m l) hi, hl⟩

theorem step_effect {s s' : Simulation} {l : Label} (hg : Orderly s l)
    (h : step s l = some s') : Effect s s' l := by
  cases step_stepped h with
  | createUniverse hc =>
    exact .quiet (createUniverse_quiet s hc.2.2) fun _ => createUniverse_continued hc.2.2 hg
  | createSimulatedGalaxy hc =>
    exact .quiet (createSimulatedGalaxy_quiet s _ hc.2.2) fun _ =>
      createSimulatedGalaxy_continued hc.2.2 hg
  | disconnectFromUniverse hc =>
    exact .quiet (simulationUnloadEntity_quiet s _ hc.2.2) fun _ =>
      disconnectFromUniverse_continued hc.2.2 hg
  | universeWorld hm hl hi hstep =>
    simp only [Orderly, readIds, hm] at hg
    exact .quiet (universeWorld_quiet h).1 fun _ => afterUniverseStep_continued hi hg.1 hg.2
  | galaxyWorld hm hl hstep =>
    exact WorldsOnly.effect ⟨rfl, rfl, rfl, rfl, rfl, Grows.refl s, control_faults ..⟩ rfl
  | scaleUpdateEntityNodes hm hidle hunloading hne hmove =>
    exact WorldsOnly.effect ⟨rfl, rfl, rfl, rfl, rfl, Grows.refl s, Or.inl rfl⟩ rfl
  | spatialUpdate hidle =>
    exact WorldsOnly.effect ⟨rfl, rfl, rfl, rfl, rfl, Grows.refl s, Or.inl rfl⟩ rfl
  | dispatch hidle => exact .dispatch hidle rfl
  | event hc hpop => exact doEvent_effect _ hg hc hpop
  | cleanup hc hpop => exact .cleanup hc hpop rfl
  | simulationUnload hc =>
    exact .quiet (simulationUnload_quiet s hc.2.2) fun hnodup =>
      simulationUnload_continued hc.2.2 hnodup hg
  | simulationUnloaded hidle hunloading hworlds =>
    exact WorldsOnly.effect ⟨rfl, rfl, rfl, rfl, rfl, Grows.refl s, Or.inl rfl⟩ rfl

/-! ### The invariant -/

/-- A list that the events of entities with `types` edit. -/
structure Listed (s : Simulation) (types : List Nat) (l : List Nat) : Prop where
  nodup : l.Nodup
  loaded : ∀ id ∈ l, lastEvent id s.history = .beginLoad
  typed : ∀ id ∈ l, ∃ entity, s.entityFactory id = some entity ∧ entity.has types = true

/- What holds at every point of an orderly run. An entity that is loaded is listed, or its
   unload command keeps it alive. -/
structure Accounted (s : Simulation) : Prop where
  events : ∀ id, (eventsOf id s.history ++ [LoadEvent.beginUnload]).IsChain (· ≠ ·)
  upcoming : (∀ f, s.control ≠ .fault f) → ∀ id,
    (lastEvent id s.history :: commandsOf id (waiting s.threadContexts)).IsChain (· ≠ ·)
  updating : Listed s [] s.updatingEntities
  universes : Listed s [cUniverse] s.universes
  galaxies : Listed s [cGalaxy] s.galaxies
  held : (∀ f, s.control ≠ .fault f) → ∀ id, lastEvent id s.history = .beginLoad →
    id ∈ s.updatingEntities ∨ (.beginUnload, some id) ∈ waiting s.threadContexts

theorem Grows.has {s s' : Simulation} (h : Grows s s') {id : Nat} {types : List Nat}
    (hid : ∃ entity, s.entityFactory id = some entity ∧ entity.has types = true) :
    ∃ entity, s'.entityFactory id = some entity ∧ entity.has types = true := by
  obtain ⟨entity, hentity, hhas⟩ := hid
  obtain ⟨entity', hentity', htype⟩ := h id entity hentity
  refine ⟨entity', hentity', ?_⟩
  unfold Entity.has at hhas ⊢
  rw [htype]
  exact hhas

namespace Listed

theorem nil (s : Simulation) (types : List Nat) : Listed s types [] where
  nodup := List.nodup_nil
  loaded _ h := by cases h
  typed _ h := by cases h

theorem mono {s s' : Simulation} {types l : List Nat} (h : Listed s types l)
    (hevent : ∀ id ∈ l, lastEvent id s'.history = lastEvent id s.history)
    (hgrows : Grows s s') : Listed s' types l where
  nodup := h.nodup
  loaded id hid := (hevent id hid).trans (h.loaded id hid)
  typed id hid := hgrows.has (h.typed id hid)

end Listed

theorem eventsOf_dispatched (event : LoadEvent) (id : Nat) (history : List Entry) :
    eventsOf id (.dispatched event id :: history) = event :: eventsOf id history := by
  simp only [eventsOf, List.filterMap_cons, if_true]

theorem eventsOf_dispatched_ne (event : LoadEvent) {id id' : Nat} (h : id' ≠ id)
    (history : List Entry) :
    eventsOf id (.dispatched event id' :: history) = eventsOf id history := by
  simp only [eventsOf, List.filterMap_cons, if_neg h]

theorem lastEvent_dispatched (event : LoadEvent) (id : Nat) (history : List Entry) :
    lastEvent id (.dispatched event id :: history) = event := by
  rw [lastEvent, eventsOf_dispatched, List.headD_cons]

theorem lastEvent_dispatched_ne (event : LoadEvent) {id id' : Nat} (h : id' ≠ id)
    (history : List Entry) :
    lastEvent id (.dispatched event id' :: history) = lastEvent id history := by
  rw [lastEvent, eventsOf_dispatched_ne event h, lastEvent]

theorem Listed.load {s s' : Simulation} {types l : List Nat} {id : Nat} {entity : Entity}
    (h : Listed s types l) (hlast : lastEvent id s.history = .beginUnload)
    (hid : s.entityFactory id = some entity)
    (hhistory : s'.history = .dispatched .beginLoad id :: s.history) (hgrows : Grows s s') :
    Listed s' types (if entity.has types then l ++ [id] else l) := by
  have hnot : id ∉ l := by
    intro hmem
    rw [h.loaded id hmem] at hlast
    cases hlast
  have hold : Listed s' types l := by
    refine h.mono (fun id' hid' => ?_) hgrows
    have hne : id ≠ id' := by
      rintro rfl
      exact hnot hid'
    rw [hhistory, lastEvent_dispatched_ne _ hne]
  split
  · next hhas =>
    refine ⟨?_, ?_, ?_⟩
    · exact h.nodup.append (List.nodup_singleton id) (List.disjoint_singleton.mpr hnot)
    · intro id' hid'
      rcases List.mem_append.mp hid' with hid' | hid'
      · exact hold.loaded id' hid'
      · rw [List.mem_singleton.mp hid', hhistory]
        exact lastEvent_dispatched _ _ _
    · intro id' hid'
      rcases List.mem_append.mp hid' with hid' | hid'
      · exact hold.typed id' hid'
      · rw [List.mem_singleton.mp hid']
        exact hgrows.has ⟨entity, hid, hhas⟩
  · exact hold

/-- `unordered_erase` drops the first entry. -/
theorem unorderedErase_perm (first : Nat) (rest : List Nat) (id : Nat) :
    (unorderedErase (first :: rest) id).Perm rest := by
  cases hlast : rest.getLast? with
  | none =>
    simp only [unorderedErase, hlast]
    rw [List.getLast?_eq_none_iff.mp hlast]
  | some back =>
    simp only [unorderedErase, hlast]
    obtain ⟨init, rfl⟩ := List.getLast?_eq_some_iff.mp hlast
    rw [List.dropLast_concat]
    exact (List.perm_append_singleton back init).symm

theorem Listed.unload {s s' : Simulation} {types l : List Nat} {id : Nat} {entity : Entity}
    (h : Listed s types l) (hid : s.entityFactory id = some entity)
    (herases : entity.has types = true → ErasesOnly id l)
    (hhistory : s'.history = .dispatched .beginUnload id :: s.history) (hgrows : Grows s s') :
    Listed s' types (if entity.has types then unorderedErase l id else l) := by
  have hrest : ∀ {l' : List Nat}, Listed s types l' → id ∉ l' → Listed s' types l' := by
    intro l' hl' hnot
    refine hl'.mono (fun id' hid' => ?_) hgrows
    have hne : id ≠ id' := by
      rintro rfl
      exact hnot hid'
    rw [hhistory, lastEvent_dispatched_ne _ hne]
  split
  · next hhas =>
    cases l with
    | nil => exact Listed.nil s' types
    | cons first rest =>
      obtain rfl : first = id := herases hhas first rfl
      have hperm := unorderedErase_perm first rest first
      obtain ⟨hnot, hnodup⟩ := List.nodup_cons.mp h.nodup
      refine hrest ⟨hperm.nodup_iff.mpr hnodup, ?_, ?_⟩ fun hmem => hnot (hperm.mem_iff.mp hmem)
      · exact fun id' hid' => h.loaded id' (List.mem_cons_of_mem _ (hperm.mem_iff.mp hid'))
      · exact fun id' hid' => h.typed id' (List.mem_cons_of_mem _ (hperm.mem_iff.mp hid'))
  · next hhas =>
    refine hrest h fun hmem => hhas ?_
    obtain ⟨entity', hentity', hhas'⟩ := h.typed id hmem
    cases hid.symm.trans hentity'
    exact hhas'

/-! ### Effects keep the invariant -/

theorem lastEvent_of_eventsOf {history history' : List Entry} {id : Nat}
    (h : eventsOf id history' = eventsOf id history) :
    lastEvent id history' = lastEvent id history := by
  rw [lastEvent, h, lastEvent]

namespace Accounted
variable {s s' : Simulation}

theorem not_fault (h : s.control = .idle ∨ s.control = .dispatching) (f : Fault) :
    s.control ≠ .fault f := by
  intro hf
  rw [hf] at h
  rcases h with h | h <;> cases h

theorem initial (workers : Nat) : Accounted (initial workers) where
  events _ := List.isChain_singleton _
  upcoming _ id := by
    have hnone : waiting (UniverseSimulation.initial workers).threadContexts = [] := by
      refine List.flatMap_eq_nil_iff.mpr fun context hcontext => ?_
      rw [List.eq_of_mem_replicate hcontext]
      rfl
    rw [hnone]
    exact List.isChain_singleton _
  updating := Listed.nil _ _
  universes := Listed.nil _ _
  galaxies := Listed.nil _ _
  held _ id h := by cases h

/-- With no command that waits, an entity is listed while it is loaded. -/
theorem newest_eq (h : Accounted s) (hrun : ∀ f, s.control ≠ .fault f) (id : Nat) :
    newest s id = (commandsOf id (waiting s.threadContexts)).getLastD (lastEvent id s.history) := by
  rw [newest]
  cases hcommands : commandsOf id (waiting s.threadContexts) with
  | cons command commands => rfl
  | nil =>
    simp only [List.getLastD_nil]
    split
    · next hmem => exact (h.updating.loaded id hmem).symm
    · next hnot =>
      cases hlast : lastEvent id s.history with
      | beginUnload => rfl
      | beginLoad =>
        have hwaits := (h.held hrun id hlast).resolve_left hnot
        have hcommand : LoadEvent.beginUnload ∈ commandsOf id (waiting s.threadContexts) :=
          List.mem_filterMap.mpr ⟨_, hwaits, if_pos rfl⟩
        rw [hcommands] at hcommand
        cases hcommand

theorem quiet (h : Accounted s) {new : List Entry} (hq : Quiet s s' new) (hc : Continued s s') :
    Accounted s' := by
  have hlast : ∀ id, lastEvent id s'.history = lastEvent id s.history :=
    fun id => lastEvent_of_eventsOf (hq.events id)
  have hrun : (∀ f, s'.control ≠ .fault f) → ∀ f, s.control ≠ .fault f := by
    intro hfault f hf
    rcases hq.control with heq | ⟨f', hf'⟩
    · exact hfault f (heq.trans hf)
    · exact hfault f' hf'
  refine ⟨?_, ?_, ?_, ?_, ?_, ?_⟩
  · intro id
    rw [hq.events]
    exact h.events id
  · intro hfault id
    have hold := h.upcoming (hrun hfault) id
    rw [hlast]
    rcases hc id with hcommands | ⟨event, hne, hcommands⟩
    · rw [hcommands]
      exact hold
    · rw [h.newest_eq (hrun hfault)] at hne
      rw [hcommands, ← List.cons_append]
      refine hold.append (List.isChain_singleton _) fun last hmem first hfirst => ?_
      obtain rfl := Option.some.inj hfirst
      rw [List.getLast?_cons] at hmem
      rw [← Option.some.inj hmem, ← List.getLastD_eq_getLast?]
      exact hne
  · rcases hq.updating with heq | ⟨hnil, -⟩
    · rw [heq]
      exact h.updating.mono (fun id _ => hlast id) hq.grows
    · rw [hnil]
      exact Listed.nil _ _
  · rw [hq.universes]
    exact h.universes.mono (fun id _ => hlast id) hq.grows
  · rw [hq.galaxies]
    exact h.galaxies.mono (fun id _ => hlast id) hq.grows
  · intro hfault id hid
    rw [hlast] at hid
    rcases h.held (hrun hfault) id hid with hmem | hmem
    · rcases hq.updating with heq | ⟨-, hunload⟩
      · rw [heq]
        exact Or.inl hmem
      · exact Or.inr (hunload id hmem)
    · exact Or.inr ((hq.unloads id).mpr (Or.inl hmem))

theorem popped (h : Accounted s) {event : LoadEvent} {id : Nat} {contexts : List ThreadContext}
    (hc : s.control = .dispatching)
    (hpop : popCommand s.threadContexts = some ((event, some id), contexts)) :
    lastEvent id s.history ≠ event ∧
      ∀ id', (lastEvent id' (.dispatched event id :: s.history) ::
        commandsOf id' (waiting contexts)).IsChain (· ≠ ·) := by
  have hwaiting := popCommand_waiting hpop
  have hupcoming := h.upcoming (not_fault (Or.inr hc))
  have hid := hupcoming id
  rw [hwaiting, commandsOf_cons, List.isChain_cons_cons] at hid
  refine ⟨hid.1, fun id' => ?_⟩
  by_cases heq : id = id'
  · subst heq
    rw [lastEvent_dispatched]
    exact hid.2
  · have hother := hupcoming id'
    rw [hwaiting, commandsOf_cons_ne (fun hc => heq (Option.some.inj hc))] at hother
    rw [lastEvent_dispatched_ne _ heq]
    exact hother

theorem events_dispatched (h : Accounted s) {event : LoadEvent} {id : Nat}
    (hlast : lastEvent id s.history ≠ event) (id' : Nat) :
    (eventsOf id' (.dispatched event id :: s.history) ++ [LoadEvent.beginUnload]).IsChain
      (· ≠ ·) := by
  by_cases heq : id = id'
  · subst heq
    rw [eventsOf_dispatched, List.cons_append, List.isChain_cons]
    refine ⟨fun event' hevent' => ?_, h.events id⟩
    have hhead : (eventsOf id s.history ++ [LoadEvent.beginUnload]).head? =
        some (lastEvent id s.history) := by
      rw [lastEvent]
      cases eventsOf id s.history <;> rfl
    rw [hhead] at hevent'
    cases hevent'
    exact hlast.symm
  · rw [eventsOf_dispatched_ne _ heq]
    exact h.events id'

theorem dead (h : Accounted s) {contexts : List ThreadContext} {f : Fault}
    (hs : s' = { s with threadContexts := contexts, control := .fault f }) : Accounted s' := by
  subst hs
  exact ⟨h.events, fun hf => absurd rfl (hf f), h.updating.mono (fun _ _ => rfl) (Grows.refl s),
    h.universes.mono (fun _ _ => rfl) (Grows.refl s),
    h.galaxies.mono (fun _ _ => rfl) (Grows.refl s), fun hf => absurd rfl (hf f)⟩

theorem loaded (h : Accounted s) {id : Nat} {contexts : List ThreadContext} {entity : Entity}
    (hc : s.control = .dispatching)
    (hpop : popCommand s.threadContexts = some ((.beginLoad, some id), contexts))
    (hid : s.entityFactory id = some entity)
    (he : Edited (· ++ [id]) entity ({ s with threadContexts := contexts }.record
      (.dispatched .beginLoad id)) s') : Accounted s' := by
  obtain ⟨hne, hupcoming⟩ := h.popped hc hpop
  have hlast : lastEvent id s.history = .beginUnload := by
    cases hevent : lastEvent id s.history with
    | beginLoad => exact absurd hevent hne
    | beginUnload => rfl
  have hhistory : s'.history = .dispatched .beginLoad id :: s.history := he.history
  have hcontexts : s'.threadContexts = contexts := he.contexts
  refine ⟨?_, ?_, ?_, ?_, ?_, ?_⟩
  · intro id'
    rw [hhistory]
    exact h.events_dispatched hne id'
  · intro _ id'
    rw [hhistory, hcontexts]
    exact hupcoming id'
  · rw [he.updating]
    exact h.updating.load hlast hid hhistory he.grows
  · rw [he.universes]
    exact h.universes.load hlast hid hhistory he.grows
  · rw [he.galaxies]
    exact h.galaxies.load hlast hid hhistory he.grows
  · intro _ id' hid'
    have hupdating : s'.updatingEntities = s.updatingEntities ++ [id] := he.updating
    rw [hupdating]
    by_cases heq : id = id'
    · exact Or.inl (List.mem_append_right _ (List.mem_singleton.mpr heq.symm))
    · rw [hhistory, lastEvent_dispatched_ne _ heq] at hid'
      rcases h.held (not_fault (Or.inr hc)) id' hid' with hmem | hmem
      · exact Or.inl (List.mem_append_left _ hmem)
      · rw [popCommand_waiting hpop] at hmem
        rw [hcontexts]
        rcases List.mem_cons.mp hmem with hmem | hmem
        · cases hmem
        · exact Or.inr hmem

theorem unloaded (h : Accounted s) {id : Nat} {contexts : List ThreadContext} {entity : Entity}
    (hc : s.control = .dispatching)
    (hpop : popCommand s.threadContexts = some ((.beginUnload, some id), contexts))
    (hid : s.entityFactory id = some entity) (hg : UnloadErasesOnly s id)
    (he : Edited (unorderedErase · id) entity ({ s with threadContexts := contexts }.record
      (.dispatched .beginUnload id)) s') : Accounted s' := by
  obtain ⟨hne, hupcoming⟩ := h.popped hc hpop
  obtain ⟨hupdating, hkinds⟩ := hg
  have hhistory : s'.history = .dispatched .beginUnload id :: s.history := he.history
  have hcontexts : s'.threadContexts = contexts := he.contexts
  refine ⟨?_, ?_, ?_, ?_, ?_, ?_⟩
  · intro id'
    rw [hhistory]
    exact h.events_dispatched hne id'
  · intro _ id'
    rw [hhistory, hcontexts]
    exact hupcoming id'
  · rw [he.updating]
    exact h.updating.unload hid (fun _ => hupdating) hhistory he.grows
  · rw [he.universes]
    exact h.universes.unload hid (hkinds entity hid).1 hhistory he.grows
  · rw [he.galaxies]
    exact h.galaxies.unload hid (hkinds entity hid).2 hhistory he.grows
  · intro _ id' hid'
    have heq : id ≠ id' := by
      rintro rfl
      rw [hhistory, lastEvent_dispatched] at hid'
      cases hid'
    rw [hhistory, lastEvent_dispatched_ne _ heq] at hid'
    rcases h.held (not_fault (Or.inr hc)) id' hid' with hmem | hmem
    · -- the first entry is the one that leaves
      refine Or.inl ?_
      have herase : s'.updatingEntities = unorderedErase s.updatingEntities id := he.updating
      rw [herase]
      cases hlist : s.updatingEntities with
      | nil =>
        rw [hlist] at hmem
        cases hmem
      | cons first rest =>
        rw [hlist] at hmem hupdating
        obtain rfl : first = id := hupdating first rfl
        refine (unorderedErase_perm first rest first).mem_iff.mpr ?_
        exact (List.mem_cons.mp hmem).resolve_left fun h => heq h.symm
    · rw [popCommand_waiting hpop] at hmem
      rw [hcontexts]
      rcases List.mem_cons.mp hmem with hmem | hmem
      · cases hmem
        exact absurd rfl heq
      · exact Or.inr hmem

/-- `Cleanup` destroys no listed entity. -/
theorem cleaned (h : Accounted s) (hc : s.control = .dispatching)
    (hpop : popCommand s.threadContexts = none)
    (hs : s' = { cleanup s with control := .idle }) : Accounted s' := by
  have hempty := popCommand_none hpop
  have hlisted : ∀ {types l}, Listed s types l → Listed s' types l := by
    intro types l hl
    refine ⟨hl.nodup, fun id hid => ?_, fun id hid => ?_⟩
    · rw [hs]
      exact hl.loaded id hid
    · obtain ⟨entity, hentity, hhas⟩ := hl.typed id hid
      refine ⟨entity, ?_, hhas⟩
      have hmem : id ∈ s.updatingEntities := by
        rcases h.held (not_fault (Or.inr hc)) id (hl.loaded id hid) with hmem | hmem
        · exact hmem
        · rw [hempty] at hmem
          cases hmem
      have hreferenced : id ∈ s.references := by
        simp only [Simulation.references, List.mem_append]
        exact Or.inl (Or.inl (Or.inl (Or.inl hmem)))
      rw [hs]
      show (if id ∈ s.references then s.entityFactory id else none) = some entity
      rw [if_pos hreferenced, hentity]
  subst hs
  exact ⟨h.events, fun _ => h.upcoming (not_fault (Or.inr hc)), hlisted h.updating,
    hlisted h.universes, hlisted h.galaxies, fun _ => h.held (not_fault (Or.inr hc))⟩

theorem effect {l : Label} (h : Accounted s) (he : Effect s s' l) : Accounted s' := by
  cases he with
  | quiet hq hc => exact h.quiet hq (hc h.updating.nodup)
  | dispatch hc hs =>
    subst hs
    exact ⟨h.events, fun _ => h.upcoming (not_fault (Or.inl hc)),
      h.updating.mono (fun _ _ => rfl) (Grows.refl s),
      h.universes.mono (fun _ _ => rfl) (Grows.refl s),
      h.galaxies.mono (fun _ _ => rfl) (Grows.refl s), fun _ => h.held (not_fault (Or.inl hc))⟩
  | dead command contexts f hpop hs => exact h.dead hs
  | loaded id contexts entity hc hpop hid hs => exact h.loaded hc hpop hid hs
  | unloaded id contexts entity hc hpop hid hg hs => exact h.unloaded hc hpop hid hg hs
  | cleanup hc hpop hs => exact h.cleaned hc hpop hs

end Accounted

/-! ### Runs -/

theorem reach_accounted {workers : Nat} {s : Simulation}
    (h : (simulationMachine workers).Reach Orderly s) : Accounted s := by
  refine h.invariant ?_ ?_
  · rintro s rfl
    exact Accounted.initial workers
  · intro s l s' _ hs hg hstep
    exact hs.effect (step_effect hg hstep)

theorem Accounted.entitiesAlternate {s : Simulation} (h : Accounted s) : EntitiesAlternate s where
  events id := by
    have hreverse := List.isChain_reverse.mpr (h.events id)
    rw [List.reverse_append] at hreverse
    exact hreverse.imp fun _ _ hne => hne.symm
  updatingEntities := h.updating.nodup
  universes := h.universes.nodup
  galaxies := h.galaxies.nodup

/-- The universe is loaded and unloaded, twice. -/
def connectTwiceRun : List Label :=
  let connect : List Label := [.createUniverse 0, .dispatch, .next (some fun _ => none), .next none]
  let disconnect : List Label := [.disconnectFromUniverse 0, .dispatch, .next none, .next none]
  connect ++ disconnect ++ connect ++ disconnect

/-- `StartLocalUniverse` again while the universe is loaded. -/
def connectAgainRun : List Label :=
  let connect : List Label := [.createUniverse 0, .dispatch, .next (some fun _ => none), .next none]
  connect ++ connect

end CosmicArchitect.UniverseSimulation
