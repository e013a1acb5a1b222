import CosmicArchitect.Simulation.EntityEvents
import Mathlib.Data.List.Pairwise
import Mathlib.Data.List.Range

/-!
# The order of the dispatch (UniverseSimulation.cpp:326-341, 367-379)

The requests of all threads between two dispatches, in the order of their issue. They wait apart in
the contexts of their threads, loads and unloads in lists of their own, and are dispatched one context
after the other.
-/

namespace CosmicArchitect.UniverseSimulation
open Serialize Spatial3D

/-- A call of `SimulationCreateEntity` or `SimulationUnloadEntity` on the thread of a context. -/
inductive Request
  | create (context id types : Nat) (world : Option Nat)
  | unload (context : Nat) (entity : Ref)
deriving DecidableEq, Repr

namespace Request

def context : Request → Nat
  | create context _ _ _ => context
  | unload context _ => context

def event : Request → LoadEvent
  | create .. => .beginLoad
  | unload .. => .beginUnload

def entity : Request → Ref
  | create _ id _ _ => some id
  | unload _ entity => entity

def issue (s : Simulation) : Request → Simulation
  | create context id types world => simulationCreateEntity s context id types world
  | unload context entity => simulationUnloadEntity s context entity

end Request

def requestAll (s : Simulation) (requests : List Request) : Simulation :=
  requests.foldl Request.issue s

/-- The numbers of the requests that wait in one list of a context. -/
def numbers (requests : List Request) (context : Nat) (event : LoadEvent) : List Nat :=
  (List.range requests.length).filter fun i =>
    requests[i]?.any fun r => decide (r.context = context ∧ r.event = event)

/-- The numbers of the requests in the order of the dispatch. -/
def dispatchOrder (requests : List Request) (contexts : Nat) : List Nat :=
  (List.range contexts).flatMap fun context =>
    numbers requests context .beginLoad ++ numbers requests context .beginUnload

def commandsAt (requests : List Request) (order : List Nat) : List (LoadEvent × Ref) :=
  order.filterMap fun i => requests[i]?.map fun r => (r.event, r.entity)

/-- `SimulationUpdate` dispatches everything that waits; `databases` is what the loads find. -/
def Dispatches (s : Simulation) (databases : List (Option (NodeCoord → Option Bytes)))
    (s' : Simulation) : Prop :=
  (simulationMachine s.threadContexts.length).exec s (.dispatch :: databases.map .next) = some s' ∧
    s'.control = .idle

/-! ### The commands that wait -/

theorem mem_numbers {requests : List Request} {context i : Nat} {event : LoadEvent} :
    i ∈ numbers requests context event ↔
      ∃ r, requests[i]? = some r ∧ r.context = context ∧ r.event = event := by
  rw [numbers, List.mem_filter, List.mem_range, Option.any_eq_true]
  constructor
  · intro ⟨_, r, hr, hmatch⟩
    exact ⟨r, hr, of_decide_eq_true hmatch⟩
  · intro ⟨r, hr, hmatch⟩
    exact ⟨(List.getElem?_eq_some_iff.mp hr).1, r, hr, decide_eq_true hmatch⟩

theorem mem_dispatchOrder {requests : List Request} {contexts i : Nat} :
    i ∈ dispatchOrder requests contexts ↔
      ∃ r, requests[i]? = some r ∧ r.context < contexts := by
  rw [dispatchOrder, List.mem_flatMap]
  constructor
  · intro ⟨context, hcontext, hi⟩
    rw [List.mem_append, mem_numbers, mem_numbers] at hi
    obtain ⟨r, hr, heq, _⟩ | ⟨r, hr, heq, _⟩ := hi
    · exact ⟨r, hr, heq ▸ List.mem_range.mp hcontext⟩
    · exact ⟨r, hr, heq ▸ List.mem_range.mp hcontext⟩
  · intro ⟨r, hr, hlt⟩
    refine ⟨r.context, List.mem_range.mpr hlt, ?_⟩
    rw [List.mem_append, mem_numbers, mem_numbers]
    cases hevent : r.event with
    | beginLoad => exact Or.inl ⟨r, hr, rfl, hevent⟩
    | beginUnload => exact Or.inr ⟨r, hr, rfl, hevent⟩

theorem numbers_concat (requests : List Request) (r : Request) (context : Nat) (event : LoadEvent) :
    numbers (requests ++ [r]) context event = numbers requests context event ++
      if r.context = context ∧ r.event = event then [requests.length] else [] := by
  rw [numbers, List.length_append, List.length_singleton, List.range_succ, List.filter_append]
  congr 1
  · refine List.filter_congr fun i hi => ?_
    rw [List.getElem?_append_left (List.mem_range.mp hi)]
  · rw [List.filter_singleton, List.getElem?_concat_length, Option.any_some]
    by_cases h : r.context = context ∧ r.event = event
    · rw [if_pos h, decide_eq_true h]
      rfl
    · rw [if_neg h, decide_eq_false h]
      rfl

theorem commandsAt_concat (requests : List Request) (r : Request) (context : Nat)
    (event : LoadEvent) :
    commandsAt (requests ++ [r]) (numbers (requests ++ [r]) context event) =
      commandsAt requests (numbers requests context event) ++
        if r.context = context ∧ r.event = event then [(r.event, r.entity)] else [] := by
  rw [numbers_concat, commandsAt, List.filterMap_append]
  congr 1
  · refine List.filterMap_congr fun i hi => ?_
    obtain ⟨q, hq, _⟩ := mem_numbers.mp hi
    rw [List.getElem?_append_left (List.getElem?_eq_some_iff.mp hq).1]
  · split
    · rw [List.filterMap_cons, List.getElem?_concat_length]
      rfl
    · rfl

/-- A context after the requests. -/
def ThreadContext.after (context : ThreadContext) (requests : List Request) (i : Nat) :
    ThreadContext :=
  { loadCommands := context.loadCommands ++
      (commandsAt requests (numbers requests i .beginLoad)).map Prod.snd
    unloadCommands := context.unloadCommands ++
      (commandsAt requests (numbers requests i .beginUnload)).map Prod.snd }

theorem issue_contexts (s : Simulation) (r : Request) :
    (r.issue s).threadContexts = s.threadContexts.modify r.context fun context =>
      match r.event with
      | .beginLoad => { context with loadCommands := context.loadCommands ++ [r.entity] }
      | .beginUnload => { context with unloadCommands := context.unloadCommands ++ [r.entity] } := by
  cases r with
  | create context id types world =>
    rw [Request.issue, simulationCreateEntity, getPoly]
    cases s.entityFactory id <;> rfl
  | unload context entity => rfl

theorem requestAll_contexts (s : Simulation) (requests : List Request) (i : Nat) :
    (requestAll s requests).threadContexts[i]? =
      s.threadContexts[i]?.map fun context => context.after requests i := by
  induction requests using List.reverseRecOn with
  | nil =>
    have hafter : (fun context : ThreadContext => context.after [] i) = id := by
      funext context
      obtain ⟨loads, unloads⟩ := context
      simp [ThreadContext.after, commandsAt]
    rw [hafter, Option.map_id_fun]
    rfl
  | append_singleton requests r ih =>
    have hissue : requestAll s (requests ++ [r]) = r.issue (requestAll s requests) := by
      rw [requestAll, List.foldl_append]
      rfl
    rw [hissue, issue_contexts, List.getElem?_modify, ih, Option.map_eq_map, Option.map_map]
    refine Option.map_congr fun context _ => ?_
    rw [Function.comp_apply]
    simp only [ThreadContext.after, commandsAt_concat]
    by_cases hi : r.context = i
    · cases hevent : r.event <;> simp [hi]
    · simp [hi]

theorem waiting_nil {contexts : List ThreadContext} (h : waiting contexts = []) :
    ∀ context ∈ contexts, context = {} := by
  intro context hcontext
  obtain ⟨loads, unloads⟩ := context
  have hnil := List.flatMap_eq_nil_iff.mp h _ hcontext
  rw [List.append_eq_nil_iff, List.map_eq_nil_iff, List.map_eq_nil_iff] at hnil
  obtain ⟨rfl, rfl⟩ := hnil
  rfl

/-- What waits is what was requested, in the order of the dispatch. -/
theorem requestAll_waiting (s : Simulation) (requests : List Request)
    (hempty : waiting s.threadContexts = []) :
    waiting (requestAll s requests).threadContexts =
      commandsAt requests (dispatchOrder requests s.threadContexts.length) := by
  have hcontexts : (requestAll s requests).threadContexts =
      (List.range s.threadContexts.length).map fun i => ThreadContext.after {} requests i := by
    refine List.ext_getElem? fun i => ?_
    rw [requestAll_contexts, List.getElem?_map]
    by_cases hi : i < s.threadContexts.length
    · rw [List.getElem?_range hi, List.getElem?_eq_getElem hi,
        waiting_nil hempty _ (List.getElem_mem hi)]
      rfl
    · rw [List.getElem?_eq_none (by omega), List.getElem?_eq_none (by simpa using hi)]
      rfl
  have hevent : ∀ i event, (commandsAt requests (numbers requests i event)).map
      (fun command => (event, command.2)) = commandsAt requests (numbers requests i event) := by
    intro i event
    refine List.map_congr_left (fun command hcommand => ?_) |>.trans (List.map_id _)
    obtain ⟨j, hj, hr⟩ := List.mem_filterMap.mp hcommand
    obtain ⟨r, hget, _, rfl⟩ := mem_numbers.mp hj
    rw [hget, Option.map_some, Option.some.injEq] at hr
    rw [← hr]
    rfl
  rw [hcontexts, waiting, List.flatMap_map, dispatchOrder, commandsAt, List.filterMap_flatMap]
  refine List.flatMap_congr fun i _ => ?_
  rw [List.filterMap_append]
  simp only [ThreadContext.after, List.nil_append, List.map_map]
  exact congrArg₂ (· ++ ·) (hevent i .beginLoad) (hevent i .beginUnload)

/-! ### One request before another -/

/-- In a list that ascends two of its elements stand as the relation has them. -/
theorem pair_sublist_iff {α : Type} {R : α → α → Prop} (hasymm : ∀ a b, R a b → ¬ R b a)
    {l : List α} (hl : l.Pairwise R) {a b : α} (ha : a ∈ l) (hb : b ∈ l) (hne : a ≠ b) :
    [a, b].Sublist l ↔ R a b := by
  have hsub : ∀ {a b : α}, [a, b].Sublist l → R a b := List.pairwise_iff_forall_sublist.mp hl
  have hor : l.Pairwise fun a b => [a, b].Sublist l ∨ [b, a].Sublist l :=
    List.pairwise_iff_forall_sublist.mpr Or.inl
  have hsymm : Std.Symm fun a b => [a, b].Sublist l ∨ [b, a].Sublist l := ⟨fun _ _ h => h.symm⟩
  refine ⟨fun h => hsub h, fun h => ?_⟩
  obtain hab | hba := hor.forall ha hb hne
  · exact hab
  · exact absurd (hsub hba) (hasymm a b h)

/-- Contexts come one after the other, in a context the loads before the unloads. -/
def DispatchedFirst (requests : List Request) (i j : Nat) : Prop :=
  ∃ r r', requests[i]? = some r ∧ requests[j]? = some r' ∧
    (r.context < r'.context ∨ r.context = r'.context ∧
      (r.event = .beginLoad ∧ r'.event = .beginUnload ∨ r.event = r'.event ∧ i < j))

theorem DispatchedFirst.asymm {requests : List Request} (i j : Nat)
    (h : DispatchedFirst requests i j) : ¬ DispatchedFirst requests j i := by
  intro ⟨q', q, hq', hq, hback⟩
  obtain ⟨r, r', hr, hr', hfirst⟩ := h
  obtain rfl := Option.some.inj (hr.symm.trans hq)
  obtain rfl := Option.some.inj (hr'.symm.trans hq')
  obtain hlt | ⟨heq, hevents⟩ := hfirst
  · omega
  · obtain hlt' | ⟨_, hevents'⟩ := hback
    · omega
    · obtain ⟨hload, hunload⟩ | ⟨hsame, hij⟩ := hevents
      · rw [hload, hunload] at hevents'
        obtain ⟨hne, _⟩ | ⟨hne, _⟩ := hevents' <;> cases hne
      · obtain ⟨hload, hunload⟩ | ⟨_, hji⟩ := hevents'
        · rw [hload, hunload] at hsame
          cases hsame
        · omega

theorem numbers_pairwise (requests : List Request) (context : Nat) (event : LoadEvent) :
    (numbers requests context event).Pairwise (DispatchedFirst requests) := by
  refine ((List.pairwise_lt_range (n := requests.length)).filter _).imp_of_mem ?_
  intro i j hi hj hij
  obtain ⟨r, hr, hcontext, hevent⟩ := mem_numbers.mp hi
  obtain ⟨r', hr', hcontext', hevent'⟩ := mem_numbers.mp hj
  exact ⟨r, r', hr, hr', Or.inr ⟨hcontext.trans hcontext'.symm,
    Or.inr ⟨hevent.trans hevent'.symm, hij⟩⟩⟩

theorem dispatchOrder_pairwise (requests : List Request) (contexts : Nat) :
    (dispatchOrder requests contexts).Pairwise (DispatchedFirst requests) := by
  refine List.pairwise_flatMap.mpr ⟨fun context _ => ?_, ?_⟩
  · refine List.pairwise_append.mpr ⟨numbers_pairwise .., numbers_pairwise .., ?_⟩
    intro i hi j hj
    obtain ⟨r, hr, hcontext, hevent⟩ := mem_numbers.mp hi
    obtain ⟨r', hr', hcontext', hevent'⟩ := mem_numbers.mp hj
    exact ⟨r, r', hr, hr', Or.inr ⟨hcontext.trans hcontext'.symm, Or.inl ⟨hevent, hevent'⟩⟩⟩
  · refine List.pairwise_lt_range.imp fun {c c'} hlt i hi j hj => ?_
    rw [List.mem_append, mem_numbers, mem_numbers] at hi hj
    have hi' : ∃ r, requests[i]? = some r ∧ r.context = c :=
      hi.elim (fun ⟨r, hr, hc, _⟩ => ⟨r, hr, hc⟩) fun ⟨r, hr, hc, _⟩ => ⟨r, hr, hc⟩
    have hj' : ∃ r, requests[j]? = some r ∧ r.context = c' :=
      hj.elim (fun ⟨r, hr, hc, _⟩ => ⟨r, hr, hc⟩) fun ⟨r, hr, hc, _⟩ => ⟨r, hr, hc⟩
    obtain ⟨r, hr, rfl⟩ := hi'
    obtain ⟨r', hr', rfl⟩ := hj'
    exact ⟨r, r', hr, hr', Or.inl hlt⟩

/-- Every request is dispatched once. -/
theorem dispatchOrder_perm {requests : List Request} {contexts : Nat}
    (hcontexts : ∀ r ∈ requests, r.context < contexts) :
    (dispatchOrder requests contexts).Perm (List.range requests.length) := by
  have hnodup : (dispatchOrder requests contexts).Nodup :=
    (dispatchOrder_pairwise requests contexts).imp fun {i j} h heq => by
      subst heq
      exact h.asymm i i h
  refine (List.perm_ext_iff_of_nodup hnodup List.nodup_range).mpr fun i => ?_
  rw [mem_dispatchOrder, List.mem_range]
  constructor
  · intro ⟨r, hr, _⟩
    exact (List.getElem?_eq_some_iff.mp hr).1
  · intro hi
    exact ⟨requests[i], List.getElem?_eq_getElem hi, hcontexts _ (List.getElem_mem hi)⟩

/-! ### `updating_entities` -/

/-- `OnLoadEntity` and `OnUnloadEntity` for a command. -/
def editUpdating (updating : List Nat) : LoadEvent × Ref → List Nat
  | (.beginLoad, some id) => updating ++ [id]
  | (.beginUnload, some id) => unorderedErase updating id
  | (_, none) => updating

def loads (commands : List (LoadEvent × Ref)) : Nat := commands.countP (·.1 = .beginLoad)

def unloads (commands : List (LoadEvent × Ref)) : Nat := commands.countP (·.1 = .beginUnload)

/-- Loads that put the entities into an empty list. -/
def listing (updating : List Nat) : List (LoadEvent × Ref) :=
  updating.map fun id => (.beginLoad, some id)

/-- No tail of the commands loads more often than it unloads. -/
def NoneListed (before : List (LoadEvent × Ref)) : Prop :=
  ∀ tail, tail <:+ before → loads tail ≤ unloads tail

/-- The entity loaded between these commands is taken from the list: if none is listed before it by
an unload after it, else by one that comes after the unloads have once outnumbered the loads. -/
def Taken (before after : List (LoadEvent × Ref)) : Prop :=
  (NoneListed before ∧ 0 < unloads after) ∨
    ∃ part rest, after = part ++ rest ∧ loads part < unloads part ∧ 0 < unloads rest

theorem loads_append (l l' : List (LoadEvent × Ref)) : loads (l ++ l') = loads l + loads l' :=
  List.countP_append

theorem unloads_append (l l' : List (LoadEvent × Ref)) :
    unloads (l ++ l') = unloads l + unloads l' := List.countP_append

theorem loads_cons (command : LoadEvent × Ref) (l : List (LoadEvent × Ref)) :
    loads (command :: l) = loads l + if command.1 = .beginLoad then 1 else 0 := by
  simp only [loads, List.countP_cons, decide_eq_true_eq]

theorem unloads_cons (command : LoadEvent × Ref) (l : List (LoadEvent × Ref)) :
    unloads (command :: l) = unloads l + if command.1 = .beginUnload then 1 else 0 := by
  simp only [unloads, List.countP_cons, decide_eq_true_eq]

theorem unorderedErase_length (ids : List Nat) (id : Nat) :
    (unorderedErase ids id).length = ids.length - 1 := by
  cases ids with
  | nil => rfl
  | cons first rest => rw [(unorderedErase_perm first rest id).length_eq, List.length_cons,
      Nat.add_sub_cancel]

/-- A command before which a tail of others stands. -/
theorem tails_concat {commands : List (LoadEvent × Ref)} {command : LoadEvent × Ref} {k : Nat} :
    (∀ tail, tail <:+ commands ++ [command] → loads tail ≤ unloads tail + k) ↔
      ∀ tail, tail <:+ commands →
        loads tail + loads [command] ≤ unloads tail + unloads [command] + k := by
  constructor
  · intro h tail htail
    have hconcat := h (tail ++ [command]) (List.suffix_append_self_iff.mpr htail)
    rwa [loads_append, unloads_append] at hconcat
  · intro h tail htail
    rcases List.suffix_concat_iff.mp htail with rfl | ⟨tail', rfl, htail'⟩
    · exact Nat.zero_le _
    · rw [loads_append, unloads_append]
      exact h tail' htail'

/-- As many entities are listed as some tail of the commands loads more often than it unloads. -/
theorem length_updating_le_iff (commands : List (LoadEvent × Ref))
    (hsome : ∀ command ∈ commands, command.2.isSome) (k : Nat) :
    (commands.foldl editUpdating []).length ≤ k ↔
      ∀ tail, tail <:+ commands → loads tail ≤ unloads tail + k := by
  induction commands using List.reverseRecOn generalizing k with
  | nil =>
    refine iff_of_true (Nat.zero_le k) fun tail htail => ?_
    rw [List.suffix_nil.mp htail]
    exact Nat.zero_le _
  | append_singleton commands command ih =>
    have ih := ih fun c hc => hsome c (List.mem_append_left _ hc)
    obtain ⟨event, ref⟩ := command
    obtain ⟨id, rfl⟩ := Option.isSome_iff_exists.mp (hsome (event, ref) (by simp))
    rw [List.foldl_append, tails_concat]
    cases event with
    | beginLoad =>
      have hone : loads [(.beginLoad, some id)] = 1 ∧ unloads [(.beginLoad, some id)] = 0 :=
        ⟨rfl, rfl⟩
      rw [hone.1, hone.2, List.foldl_cons, List.foldl_nil, editUpdating, List.length_append,
        List.length_singleton]
      cases k with
      | zero =>
        refine iff_of_false (by omega) fun hc => ?_
        have hnil := hc [] (List.nil_suffix ..)
        simp [loads, unloads] at hnil
      | succ k =>
        rw [Nat.succ_le_succ_iff, ih k]
        exact forall₂_congr fun tail _ => by omega
    | beginUnload =>
      have hone : loads [(.beginUnload, some id)] = 0 ∧ unloads [(.beginUnload, some id)] = 1 :=
        ⟨rfl, rfl⟩
      rw [hone.1, hone.2, List.foldl_cons, List.foldl_nil, editUpdating, unorderedErase_length,
        Nat.sub_le_iff_le_add, ih (k + 1)]
      exact forall₂_congr fun tail _ => by omega

theorem updating_nil_iff {commands : List (LoadEvent × Ref)}
    (hsome : ∀ command ∈ commands, command.2.isSome) :
    commands.foldl editUpdating [] = [] ↔ NoneListed commands := by
  rw [← List.length_eq_zero_iff, ← Nat.le_zero, length_updating_le_iff commands hsome]
  rfl

/-- An entity stays in the list: `first` says that it is the first one, `above` counts those that
came after it. -/
def Kept (first : Prop) (above : Nat) (commands : List (LoadEvent × Ref)) : Prop :=
  (first → unloads commands = 0) ∧ ∀ part rest, commands = part ++ rest →
    above + loads part < unloads part → unloads rest = 0

theorem not_kept_iff {before after : List (LoadEvent × Ref)} :
    ¬ Kept (NoneListed before) 0 after ↔ Taken before after := by
  simp only [Kept, Taken, not_and_or, not_forall, exists_prop, Nat.zero_add, Nat.pos_iff_ne_zero]

theorem kept_nil (first : Prop) (above : Nat) : Kept first above [] := by
  refine ⟨fun _ => rfl, fun part rest h _ => ?_⟩
  obtain ⟨-, rfl⟩ := List.append_eq_nil_iff.mp h.symm
  rfl

theorem kept_load {first : Prop} {above id : Nat} {commands : List (LoadEvent × Ref)} :
    Kept first above ((.beginLoad, some id) :: commands) ↔ Kept first (above + 1) commands := by
  have hunloads : ∀ l, unloads ((.beginLoad, some id) :: l) = unloads l := fun l =>
    unloads_cons _ _
  have hloads : ∀ l, loads ((.beginLoad, some id) :: l) = loads l + 1 := fun l => loads_cons _ _
  rw [Kept, Kept, hunloads]
  refine and_congr_right fun _ => ⟨fun h part rest heq hlt => ?_, fun h part rest heq hlt => ?_⟩
  · refine h ((.beginLoad, some id) :: part) rest (by rw [heq]; rfl) ?_
    rw [hunloads, hloads]
    omega
  · rcases List.cons_eq_append_iff.mp heq with ⟨rfl, -⟩ | ⟨part', rfl, heq'⟩
    · exact absurd hlt (Nat.not_lt_zero _)
    · rw [hunloads, hloads] at hlt
      exact h part' rest heq' (by omega)

theorem kept_unload_first {above id : Nat} {commands : List (LoadEvent × Ref)} :
    ¬ Kept True above ((.beginUnload, some id) :: commands) := by
  intro h
  have hzero := h.1 trivial
  rw [unloads_cons, if_pos rfl] at hzero
  omega

/-- The last entity becomes the first one. -/
theorem kept_unload_last {id : Nat} {commands : List (LoadEvent × Ref)} {above : Nat} :
    Kept False 0 ((.beginUnload, some id) :: commands) ↔ Kept True above commands := by
  constructor
  · intro h
    have hzero : unloads commands = 0 :=
      h.2 [(.beginUnload, some id)] commands rfl (Nat.lt_succ_self 0)
    refine ⟨fun _ => hzero, fun part rest heq _ => ?_⟩
    rw [heq, unloads_append] at hzero
    omega
  · intro h
    refine ⟨False.elim, fun part rest heq hlt => ?_⟩
    have hzero := h.1 trivial
    rcases List.cons_eq_append_iff.mp heq with ⟨rfl, -⟩ | ⟨part', rfl, heq'⟩
    · exact absurd hlt (Nat.not_lt_zero _)
    · rw [heq', unloads_append] at hzero
      omega

/-- The others have one less after them. -/
theorem kept_unload {above id : Nat} {commands : List (LoadEvent × Ref)} :
    Kept False (above + 1) ((.beginUnload, some id) :: commands) ↔ Kept False above commands := by
  have hunloads : ∀ l, unloads ((.beginUnload, some id) :: l) = unloads l + 1 := fun l =>
    unloads_cons _ _
  have hloads : ∀ l, loads ((.beginUnload, some id) :: l) = loads l := fun l => loads_cons _ _
  rw [Kept, Kept]
  refine and_congr ⟨fun _ => False.elim, fun _ => False.elim⟩
    ⟨fun h part rest heq hlt => ?_, fun h part rest heq hlt => ?_⟩
  · refine h ((.beginUnload, some id) :: part) rest (by rw [heq]; rfl) ?_
    rw [hunloads, hloads]
    omega
  · rcases List.cons_eq_append_iff.mp heq with ⟨rfl, -⟩ | ⟨part', rfl, heq'⟩
    · exact absurd hlt (Nat.not_lt_zero _)
    · rw [hunloads, hloads] at hlt
      exact h part' rest heq' (by omega)

/-- An entity of the list stays there. -/
def Stays (id : Nat) (updating : List Nat) (commands : List (LoadEvent × Ref)) : Prop :=
  ∃ older newer, updating = older ++ id :: newer ∧ Kept (older = []) newer.length commands

theorem stays_load {id id' : Nat} {updating : List Nat} {commands : List (LoadEvent × Ref)} :
    Stays id (updating ++ [id']) commands ↔
      Stays id updating ((.beginLoad, some id') :: commands) ∨
        id' = id ∧ Kept (updating = []) 0 commands := by
  constructor
  · rintro ⟨older, newer, heq, hkept⟩
    rcases List.eq_nil_or_concat newer with rfl | ⟨newer, last, rfl⟩
    · obtain ⟨rfl, hid⟩ := List.append_inj' heq rfl
      obtain rfl := (List.cons.inj hid).1
      exact Or.inr ⟨rfl, hkept⟩
    · rw [List.concat_eq_append, ← List.cons_append, ← List.append_assoc] at heq
      obtain ⟨rfl, hlast⟩ := List.append_inj' heq rfl
      rw [List.length_concat] at hkept
      exact Or.inl ⟨older, newer, rfl, kept_load.mpr hkept⟩
  · rintro (⟨older, newer, rfl, hkept⟩ | ⟨rfl, hkept⟩)
    · refine ⟨older, newer ++ [id'], by simp, ?_⟩
      rw [List.length_append]
      exact kept_load.mp hkept
    · exact ⟨updating, [], rfl, hkept⟩

theorem stays_unload {id id' : Nat} {updating : List Nat} {commands : List (LoadEvent × Ref)} :
    Stays id (unorderedErase updating id') commands ↔
      Stays id updating ((.beginUnload, some id') :: commands) := by
  cases updating with
  | nil =>
    refine iff_of_false ?_ ?_
    · rintro ⟨older, newer, heq, -⟩
      simp [unorderedErase] at heq
    · rintro ⟨older, newer, heq, -⟩
      simp at heq
  | cons front rest =>
    -- the first entity is taken, whatever the others are
    have hfront : ∀ {older newer : List Nat}, front :: rest = older ++ id :: newer →
        Kept (older = []) newer.length ((.beginUnload, some id') :: commands) →
        ∃ older', older = front :: older' ∧ rest = older' ++ id :: newer := by
      intro older newer heq hkept
      rcases List.cons_eq_append_iff.mp heq with ⟨rfl, -⟩ | ⟨older', rfl, heq'⟩
      · rw [eq_self_iff_true] at hkept
        exact absurd hkept kept_unload_first
      · exact ⟨older', rfl, heq'⟩
    rcases List.eq_nil_or_concat rest with rfl | ⟨rest, back, rfl⟩
    · refine iff_of_false ?_ ?_
      · rintro ⟨older, newer, heq, -⟩
        simp [unorderedErase] at heq
      · rintro ⟨older, newer, heq, hkept⟩
        obtain ⟨older', -, hnil⟩ := hfront heq hkept
        simp at hnil
    · have herase : unorderedErase (front :: rest.concat back) id' = back :: rest := by
        simp [unorderedErase]
      rw [herase]
      constructor
      · rintro ⟨older, newer, heq, hkept⟩
        rcases List.cons_eq_append_iff.mp heq with ⟨rfl, hback⟩ | ⟨older', rfl, heq'⟩
        · obtain ⟨rfl, rfl⟩ := List.cons.inj hback
          refine ⟨front :: newer, [], by simp, ?_⟩
          rw [eq_self_iff_true] at hkept
          simp only [reduceCtorEq]
          exact kept_unload_last.mpr hkept
        · subst heq'
          refine ⟨front :: older', newer ++ [back], by simp, ?_⟩
          simp only [reduceCtorEq, List.length_append, List.length_singleton] at hkept ⊢
          exact kept_unload.mpr hkept
      · rintro ⟨older, newer, heq, hkept⟩
        obtain ⟨older', rfl, hrest⟩ := hfront heq hkept
        simp only [reduceCtorEq] at hkept
        rcases List.eq_nil_or_concat newer with rfl | ⟨newer, last, rfl⟩
        · rw [List.concat_eq_append] at hrest
          obtain ⟨rfl, hback⟩ := List.append_inj' hrest rfl
          obtain rfl := (List.cons.inj hback).1
          refine ⟨[], rest, rfl, ?_⟩
          rw [eq_self_iff_true]
          exact kept_unload_last.mp hkept
        · rw [List.concat_eq_append, List.concat_eq_append, ← List.cons_append,
            ← List.append_assoc] at hrest
          obtain ⟨rfl, hback⟩ := List.append_inj' hrest rfl
          refine ⟨back :: older', newer, rfl, ?_⟩
          simp only [reduceCtorEq, List.length_concat] at hkept ⊢
          exact kept_unload.mp hkept

/-- What is in the list at the end was there and stayed, or was loaded and stayed. -/
theorem mem_updating_iff {id : Nat} (commands : List (LoadEvent × Ref)) :
    ∀ updating : List Nat, (∀ command ∈ commands, command.2.isSome) →
      (id ∈ commands.foldl editUpdating updating ↔ Stays id updating commands ∨
        ∃ before after, commands = before ++ (.beginLoad, some id) :: after ∧
          Kept (before.foldl editUpdating updating = []) 0 after) := by
  induction commands with
  | nil =>
    intro updating _
    rw [List.foldl_nil, List.mem_iff_append]
    constructor
    · rintro ⟨older, newer, heq⟩
      exact Or.inl ⟨older, newer, heq, kept_nil ..⟩
    · rintro (⟨older, newer, heq, -⟩ | ⟨before, after, heq, -⟩)
      · exact ⟨older, newer, heq⟩
      · simp at heq
  | cons command commands ih =>
    intro updating hsome
    have hlater : (∃ before after, command :: commands = before ++ (.beginLoad, some id) :: after ∧
          Kept (before.foldl editUpdating updating = []) 0 after) ↔
        (command = (.beginLoad, some id) ∧ Kept (updating = []) 0 commands) ∨
        ∃ before after, commands = before ++ (.beginLoad, some id) :: after ∧
          Kept (before.foldl editUpdating (editUpdating updating command) = []) 0 after := by
      constructor
      · rintro ⟨before, after, heq, hkept⟩
        rcases List.cons_eq_append_iff.mp heq with ⟨rfl, hfirst⟩ | ⟨before', rfl, heq'⟩
        · obtain ⟨rfl, rfl⟩ := List.cons.inj hfirst
          exact Or.inl ⟨rfl, hkept⟩
        · exact Or.inr ⟨before', after, heq', hkept⟩
      · rintro (⟨rfl, hkept⟩ | ⟨before, after, rfl, hkept⟩)
        · exact ⟨[], commands, rfl, hkept⟩
        · exact ⟨command :: before, after, rfl, hkept⟩
    obtain ⟨event, ref⟩ := command
    obtain ⟨id', rfl⟩ := Option.isSome_iff_exists.mp (hsome (event, ref) List.mem_cons_self)
    rw [List.foldl_cons, ih _ fun c hc => hsome c (List.mem_cons_of_mem _ hc), hlater, ← or_assoc]
    refine or_congr_left ?_
    cases event with
    | beginLoad =>
      rw [editUpdating, stays_load]
      simp only [Prod.mk.injEq, true_and, Option.some.injEq]
    | beginUnload =>
      rw [editUpdating, stays_unload]
      simp only [Prod.mk.injEq, reduceCtorEq, false_and, or_false]

theorem foldl_listing (updating : List Nat) :
    (listing updating).foldl editUpdating [] = updating := by
  induction updating using List.reverseRecOn with
  | nil => rfl
  | append_singleton updating id ih =>
    rw [listing, List.map_append, List.foldl_append]
    exact congrArg (· ++ [id]) ih

/-- After the commands the entity is not listed when all that was listed of it, and all that was
loaded, is taken. -/
theorem not_mem_updating_iff (id : Nat) (updating : List Nat) (commands : List (LoadEvent × Ref))
    (hsome : ∀ command ∈ commands, command.2.isSome) :
    id ∉ commands.foldl editUpdating updating ↔
      ∀ before after, listing updating ++ commands = before ++ (.beginLoad, some id) :: after →
        Taken before after := by
  have hall : ∀ command ∈ listing updating ++ commands, command.2.isSome := by
    intro command hcommand
    rcases List.mem_append.mp hcommand with hlisted | hcommand
    · obtain ⟨_, -, rfl⟩ := List.mem_map.mp hlisted
      rfl
    · exact hsome command hcommand
  have hfold : commands.foldl editUpdating updating =
      (listing updating ++ commands).foldl editUpdating [] := by
    rw [List.foldl_append, foldl_listing]
  have hnone : ¬ Stays id [] (listing updating ++ commands) := by
    rintro ⟨older, newer, heq, -⟩
    simp at heq
  rw [hfold, mem_updating_iff _ [] hall, or_iff_right hnone]
  constructor
  · intro h before after heq
    rw [← not_kept_iff]
    intro hkept
    refine h ⟨before, after, heq, ?_⟩
    rwa [updating_nil_iff fun c hc => hall c (heq ▸ List.mem_append_left _ hc)]
  · rintro h ⟨before, after, heq, hkept⟩
    refine not_kept_iff.mpr (h before after heq) ?_
    rwa [← updating_nil_iff fun c hc => hall c (heq ▸ List.mem_append_left _ hc)]

/-! ### The dispatch -/

def dispatchedEntries (commands : List (LoadEvent × Ref)) : List Entry :=
  commands.filterMap fun command => command.2.map (Entry.dispatched command.1)

/-- A command that does not fault. -/
theorem doEvent_next {database : Option (NodeCoord → Option Bytes)} {s : Simulation}
    {event : LoadEvent} {ref : Ref} (hc : ∀ f, (doEvent database s event ref).control ≠ .fault f) :
    (doEvent database s event ref).control = s.control ∧
      (doEvent database s event ref).threadContexts = s.threadContexts ∧
      (doEvent database s event ref).updatingEntities =
        editUpdating s.updatingEntities (event, ref) ∧
      (doEvent database s event ref).history =
        (dispatchedEntries [(event, ref)]) ++ s.history := by
  cases ref with
  | none => exact absurd rfl (hc .nullEntity)
  | some id =>
    cases hid : s.entityFactory id with
    | none =>
      rw [doEvent, hid] at hc
      exact absurd rfl (hc .danglingEntity)
    | some entity =>
      rw [doEvent, hid] at hc ⊢
      cases event with
      | beginLoad =>
        have he := beginLoad_edited database (s.record (.dispatched .beginLoad id)) id entity
        obtain hcontrol | ⟨f, hf⟩ := he.control
        · exact ⟨hcontrol, he.contexts, he.updating, he.history⟩
        · exact absurd hf (hc f)
      | beginUnload =>
        have he := beginUnload_edited (s.record (.dispatched .beginUnload id)) id entity
        obtain hcontrol | ⟨f, hf⟩ := he.control
        · exact ⟨hcontrol, he.contexts, he.updating, he.history⟩
        · exact absurd hf (hc f)

/-- No step of a dispatch that has ended or faulted. -/
theorem exec_next_stuck {workers : Nat} {s s' : Simulation}
    {databases : List (Option (NodeCoord → Option Bytes))} (hc : s.control ≠ .dispatching)
    (hexec : (simulationMachine workers).exec s (databases.map .next) = some s') : s' = s := by
  cases databases with
  | nil => exact (Option.some.inj hexec).symm
  | cons database databases =>
    obtain ⟨t, hstep, _⟩ := Option.bind_eq_some_iff.mp hexec
    have hnone : step s (.next database) = none := if_neg hc
    exact absurd (hnone.symm.trans hstep) (by simp)

theorem dispatched_next {workers : Nat} {s' : Simulation}
    (databases : List (Option (NodeCoord → Option Bytes))) (s : Simulation)
    (hc : s.control = .dispatching)
    (hexec : (simulationMachine workers).exec s (databases.map .next) = some s')
    (hidle : s'.control = .idle) :
    s'.history = (dispatchedEntries (waiting s.threadContexts)).reverse ++ s.history ∧
      s'.updatingEntities = (waiting s.threadContexts).foldl editUpdating s.updatingEntities ∧
      waiting s'.threadContexts = [] ∧ ∀ command ∈ waiting s.threadContexts, command.2.isSome := by
  induction databases generalizing s with
  | nil =>
    cases hexec
    rw [hc] at hidle
    cases hidle
  | cons database databases ih =>
    obtain ⟨t, hstep, hrest⟩ := Option.bind_eq_some_iff.mp hexec
    simp only [simulationMachine, step, if_pos hc] at hstep
    cases hpop : popCommand s.threadContexts with
    | none =>
      rw [hpop] at hstep
      obtain rfl := Option.some.inj hstep
      have hend := exec_next_stuck (by simp) hrest
      rw [hend, popCommand_none hpop]
      exact ⟨rfl, rfl, popCommand_none hpop, fun command hc => absurd hc List.not_mem_nil⟩
    | some popped =>
      obtain ⟨⟨event, ref⟩, contexts⟩ := popped
      rw [hpop] at hstep
      obtain rfl := Option.some.inj hstep
      have hnot : ∀ f, (doEvent database { s with threadContexts := contexts } event ref).control ≠
          .fault f := by
        intro f hf
        have hend := exec_next_stuck (by rw [hf]; simp) hrest
        rw [hend, hf] at hidle
        cases hidle
      obtain ⟨hcontrol, hcontexts, hupdating, hhistory⟩ := doEvent_next hnot
      obtain ⟨ihHistory, ihUpdating, ihEmpty, ihSome⟩ := ih _ (hcontrol.trans hc) hrest
      rw [hcontexts] at ihSome
      rw [popCommand_waiting hpop, ihHistory, ihUpdating, hcontexts, hupdating, hhistory]
      refine ⟨?_, rfl, ihEmpty, List.forall_mem_cons.mpr ⟨?_, ihSome⟩⟩
      · have hcons : dispatchedEntries ((event, ref) :: waiting contexts) =
            dispatchedEntries [(event, ref)] ++ dispatchedEntries (waiting contexts) :=
          List.filterMap_append (l := [(event, ref)])
        have hone : (dispatchedEntries [(event, ref)]).reverse = dispatchedEntries [(event, ref)] := by
          cases ref <;> rfl
        rw [hcons, List.reverse_append, hone, List.append_assoc]
      · cases ref with
        | none => exact absurd rfl (hnot .nullEntity)
        | some id => rfl

/-! ### Create before unload -/

/-- The request `j` unloads the entity that the earlier request `i` created. -/
def CreatedThenUnloaded (requests : List Request) (i j id : Nat) : Prop :=
  i < j ∧ ∃ r r', requests[i]? = some r ∧ requests[j]? = some r' ∧
    r.event = .beginLoad ∧ r.entity = some id ∧ r'.event = .beginUnload ∧ r'.entity = some id

/-- An entity that is created and unloaded gets its `BeginLoad` before its `BeginUnload` and is not
listed after the update. -/
structure UnloadedInOrder (requests : List Request) (order : List Nat) (s' : Simulation) : Prop where
  dispatched : ∀ i j id, CreatedThenUnloaded requests i j id → [i, j].Sublist order
  gone : ∀ i j id, CreatedThenUnloaded requests i j id → id ∉ s'.updatingEntities

/-- A create waits in a context that does not come after the one of the unload, and among the
entities listed before the update and the commands the unloads are enough to take each load of the
entity. -/
structure UnloadsReach (requests : List Request) (updating : List Nat) (order : List Nat) : Prop where
  contexts : ∀ i j id, CreatedThenUnloaded requests i j id → ∀ r r', requests[i]? = some r →
    requests[j]? = some r' → r.context ≤ r'.context
  taken : ∀ i j id, CreatedThenUnloaded requests i j id → ∀ before after,
    listing updating ++ commandsAt requests order = before ++ (.beginLoad, some id) :: after →
      Taken before after

theorem dispatched_in_order_iff {requests : List Request} {contexts i j id : Nat}
    (hcontexts : ∀ r ∈ requests, r.context < contexts) (h : CreatedThenUnloaded requests i j id) :
    [i, j].Sublist (dispatchOrder requests contexts) ↔
      ∀ r r', requests[i]? = some r → requests[j]? = some r' → r.context ≤ r'.context := by
  obtain ⟨hij, r, r', hr, hr', hload, _, hunload, _⟩ := h
  have hi : i ∈ dispatchOrder requests contexts :=
    mem_dispatchOrder.mpr ⟨r, hr, hcontexts r (List.mem_of_getElem? hr)⟩
  have hj : j ∈ dispatchOrder requests contexts :=
    mem_dispatchOrder.mpr ⟨r', hr', hcontexts r' (List.mem_of_getElem? hr')⟩
  rw [pair_sublist_iff DispatchedFirst.asymm (dispatchOrder_pairwise ..) hi hj (by omega)]
  constructor
  · intro ⟨q, q', hq, hq', hfirst⟩ p p' hp hp'
    obtain rfl := Option.some.inj (hq.symm.trans hp)
    obtain rfl := Option.some.inj (hq'.symm.trans hp')
    omega
  · intro hle
    refine ⟨r, r', hr, hr', ?_⟩
    have hle := hle r r' hr hr'
    by_cases heq : r.context = r'.context
    · exact Or.inr ⟨heq, Or.inl ⟨hload, hunload⟩⟩
    · exact Or.inl (by omega)

theorem requestAll_updating (s : Simulation) (requests : List Request) :
    (requestAll s requests).updatingEntities = s.updatingEntities := by
  induction requests generalizing s with
  | nil => rfl
  | cons r requests ih =>
    rw [requestAll, List.foldl_cons]
    refine (ih (r.issue s)).trans ?_
    cases r with
    | create context id types world =>
      rw [Request.issue, simulationCreateEntity, getPoly]
      cases s.entityFactory id <;> rfl
    | unload context entity => rfl

/-- The requests are dispatched one context after the other; what is created and unloaded is loaded
before and gone after the update exactly when the contexts and the list allow it. -/
theorem create_before_unload_iff {s s' : Simulation} {requests : List Request}
    {databases : List (Option (NodeCoord → Option Bytes))}
    (hempty : waiting s.threadContexts = [])
    (hcontexts : ∀ r ∈ requests, r.context < s.threadContexts.length)
    (hupdate : Dispatches (requestAll s requests) databases s') :
    s'.history = (dispatchedEntries (commandsAt requests
        (dispatchOrder requests s.threadContexts.length))).reverse ++
          (requestAll s requests).history ∧
      (UnloadedInOrder requests (dispatchOrder requests s.threadContexts.length) s' ↔
        UnloadsReach requests s.updatingEntities
          (dispatchOrder requests s.threadContexts.length)) := by
  obtain ⟨hexec, hidle⟩ := hupdate
  obtain ⟨t, hstep, hrest⟩ := Option.bind_eq_some_iff.mp hexec
  simp only [simulationMachine, step] at hstep
  split at hstep
  next hready =>
    obtain rfl := Option.some.inj hstep
    obtain ⟨hhistory, hupdating, _, hsome⟩ := dispatched_next databases _ rfl hrest hidle
    rw [requestAll_waiting s requests hempty] at hhistory hupdating hsome
    rw [requestAll_updating] at hupdating
    refine ⟨hhistory, fun h => ⟨?_, ?_⟩, fun h => ⟨?_, ?_⟩⟩
    · intro i j id hpair
      exact (dispatched_in_order_iff hcontexts hpair).mp (h.dispatched i j id hpair)
    · intro i j id hpair
      have hgone := h.gone i j id hpair
      rw [hupdating, not_mem_updating_iff _ _ _ hsome] at hgone
      exact hgone
    · intro i j id hpair
      exact (dispatched_in_order_iff hcontexts hpair).mpr (h.contexts i j id hpair)
    · intro i j id hpair
      rw [hupdating, not_mem_updating_iff _ _ _ hsome]
      exact h.taken i j id hpair
  next => cases hstep

/-- Two entities, one created on a thread and unloaded on the next one, the other kept. -/
def orderedRequests : List Request :=
  [.create 0 7 1 none, .unload 1 (some 7), .create 1 8 1 none]

theorem create_before_unload_orderedRequests :
    ∃ s', Dispatches (requestAll (initial 2) orderedRequests) [none, none, none, none] s' ∧
      s'.updatingEntities = [8] ∧
      s'.history = (dispatchedEntries (commandsAt orderedRequests
        (dispatchOrder orderedRequests 2))).reverse ++
          (requestAll (initial 2) orderedRequests).history ∧
      (UnloadedInOrder orderedRequests (dispatchOrder orderedRequests 2) s' ↔
        UnloadsReach orderedRequests [] (dispatchOrder orderedRequests 2)) := by
  have hrun : ∃ s', Dispatches (requestAll (initial 2) orderedRequests) [none, none, none, none] s' ∧
      s'.updatingEntities = [8] := ⟨_, ⟨rfl, rfl⟩, rfl⟩
  obtain ⟨s', hs', hupdating⟩ := hrun
  exact ⟨s', hs', hupdating, create_before_unload_iff rfl (by decide) hs'⟩

/-- The entity is created on the thread of the second context and then unloaded on that of the
first. -/
def crossedRequests : List Request := [.create 1 7 1 none, .unload 0 (some 7)]

theorem create_after_unload_crossedRequests :
    ∃ s', Dispatches (requestAll (initial 2) crossedRequests) [none, none, none] s' ∧
      eventsOf 7 s'.history = [.beginLoad, .beginUnload] ∧ s'.updatingEntities = [7] ∧
      CreatedThenUnloaded crossedRequests 0 1 7 ∧
      ¬ UnloadedInOrder crossedRequests (dispatchOrder crossedRequests 2) s' := by
  have hrun : ∃ s', Dispatches (requestAll (initial 2) crossedRequests) [none, none, none] s' ∧
      eventsOf 7 s'.history = [.beginLoad, .beginUnload] ∧ s'.updatingEntities = [7] :=
    ⟨_, ⟨rfl, rfl⟩, rfl, rfl⟩
  obtain ⟨s', hs', hevents, hupdating⟩ := hrun
  have hpair : CreatedThenUnloaded crossedRequests 0 1 7 :=
    ⟨by decide, _, _, rfl, rfl, rfl, rfl, rfl, rfl⟩
  refine ⟨s', hs', hevents, hupdating, hpair, fun h => h.gone 0 1 7 hpair ?_⟩
  rw [hupdating]
  exact List.mem_singleton.mpr rfl

end CosmicArchitect.UniverseSimulation
