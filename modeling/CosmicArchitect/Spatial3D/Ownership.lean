import CosmicArchitect.Spatial3D.Placement
import Mathlib.Data.List.InsertIdx

/-!
# IO tasks and their owners

`Holding` ties the IO task a node owns to the state machine of the node and to the
background work in the pool. It reads state, task state and task pointer of a node only.
-/

namespace CosmicArchitect.Spatial3D
open Serialize Relation

variable {D : Type}

structure Hold where
  state : NodeState
  taskState : TaskState
  task : Option Nat
deriving DecidableEq, Repr

def Node.hold (n : Node D) : Hold := ⟨n.state, n.taskState, n.task⟩

def World.hold (w : World D) (a : Nat) : Option Hold := (w.heap a).map Node.hold

/-- The function an outstanding task of a node in this state runs. -/
def kindOf (ts : TaskState) : IOKind := if ts = .writeInProgress then .write else .read

/- The states of a node, its task state and its task that occur together. A node that was
   loaded before its read finished (`early`) keeps the task in task state Idle. -/
def Shape (early : Prop) (h : Hold) : Prop :=
  match h.state, h.taskState with
  | .loading, .idle => h.task = none
  | .loading, .readInProgress => h.task ≠ none
  | .loading, .readDone => h.task = none
  | .loaded, .idle => h.task = none ∨ early
  | .unloading, .idle => h.task = none ∨ early
  | .unloading, .writeInProgress => h.task ≠ none
  | .unloading, .writeDone => h.task = none
  | _, _ => False

/-- Every owned task is allocated and owned once; the pool holds exactly the owned tasks
that have not finished, each once. -/
structure Holding (early : Prop) (isLocal : Bool) (hold : Nat → Option Hold)
    (tasks : Nat → Option IOTask) (pool : List PoolTask) : Prop where
  shape : ∀ {a h}, hold a = some h → Shape early h
  remote : ∀ {a h}, isLocal = false → hold a = some h → h.task = none ∧ h.taskState = .idle
  live : ∀ {a h τ}, hold a = some h → h.task = some τ → ∃ io, tasks τ = some io
  exclusive : ∀ {a b h h' τ}, hold a = some h → hold b = some h' → h.task = some τ →
    h'.task = some τ → a = b
  owner : ∀ {e}, e ∈ pool → ∃ a h io, hold a = some h ∧ h.task = some e.task ∧
    tasks e.task = some io ∧ io.finished = false ∧ e.kind = kindOf h.taskState
  nodup : (pool.map PoolTask.task).Nodup
  outstanding : ∀ {a h τ io}, hold a = some h → h.task = some τ → tasks τ = some io →
    io.finished = false → ∃ e ∈ pool, e.task = τ

namespace Holding
variable {early : Prop} {isLocal : Bool} {hold : Nat → Option Hold}
  {tasks : Nat → Option IOTask} {pool : List PoolTask} {a : Nat}

theorem initial (early : Prop) (isLocal : Bool) :
    Holding early isLocal (fun _ => none) (fun _ => none) [] where
  shape h := by cases h
  remote _ h := by cases h
  live h := by cases h
  exclusive h := by cases h
  owner h := by cases h
  nodup := List.nodup_nil
  outstanding h := by cases h

theorem setNode (h : Holding early isLocal hold tasks pool) {x : Option Hold}
    (htask : x.bind Hold.task = (hold a).bind Hold.task)
    (hshape : ∀ k, x = some k → Shape early k)
    (hremote : ∀ k, isLocal = false → x = some k → k.taskState = .idle)
    (hkind : ∀ k k', x = some k → hold a = some k' → kindOf k.taskState = kindOf k'.taskState) :
    Holding early isLocal (Function.update hold a x) tasks pool := by
  -- an owner after the change was an owner before it, and conversely
  have hback : ∀ {b k τ}, Function.update hold a x b = some k → k.task = some τ →
      ∃ k', hold b = some k' ∧ k'.task = some τ := by
    intro b k τ hb hτ
    by_cases hba : b = a
    · subst hba
      rw [Function.update_self] at hb
      rw [hb, Option.bind_some, hτ] at htask
      exact Option.bind_eq_some_iff.mp htask.symm
    · rw [Function.update_of_ne hba] at hb
      exact ⟨k, hb, hτ⟩
  refine ⟨?_, ?_, ?_, ?_, ?_, h.nodup, ?_⟩
  · intro b k hb
    by_cases hba : b = a
    · subst hba
      rw [Function.update_self] at hb
      exact hshape k hb
    · rw [Function.update_of_ne hba] at hb
      exact h.shape hb
  · intro b k hl hb
    refine ⟨?_, ?_⟩
    · cases hτ : k.task with
      | none => rfl
      | some τ =>
        obtain ⟨k', hk', hτ'⟩ := hback hb hτ
        rw [(h.remote hl hk').1] at hτ'
        cases hτ'
    · by_cases hba : b = a
      · subst hba
        rw [Function.update_self] at hb
        exact hremote k hl hb
      · rw [Function.update_of_ne hba] at hb
        exact (h.remote hl hb).2
  · intro b k τ hb hτ
    obtain ⟨k', hk', hτ'⟩ := hback hb hτ
    exact h.live hk' hτ'
  · intro b c k k' τ hb hc hτ hτ'
    obtain ⟨l, hl, hlτ⟩ := hback hb hτ
    obtain ⟨l', hl', hlτ'⟩ := hback hc hτ'
    exact h.exclusive hl hl' hlτ hlτ'
  · intro e he
    obtain ⟨b, k, io, hb, hτ, hio, hfin, hkd⟩ := h.owner he
    by_cases hba : b = a
    · subst hba
      rw [hb, Option.bind_some, hτ] at htask
      obtain ⟨k', hk', hτ'⟩ := Option.bind_eq_some_iff.mp htask
      exact ⟨b, k', io, by rw [Function.update_self]; exact hk', hτ', hio, hfin,
        hkd.trans (hkind k' k hk' hb).symm⟩
    · exact ⟨b, k, io, by rw [Function.update_of_ne hba]; exact hb, hτ, hio, hfin, hkd⟩
  · intro b k τ io hb hτ hio hfin
    obtain ⟨k', hk', hτ'⟩ := hback hb hτ
    exact h.outstanding hk' hτ' hio hfin

theorem start (h : Holding early isLocal hold tasks pool) {k k' : Hold} {τ : Nat} {io : IOTask}
    {kind : IOKind} (hl : isLocal = true) (ha : hold a = some k) (hnone : k.task = none)
    (hfresh : tasks τ = none) (hk' : k'.task = some τ) (hshape : Shape early k')
    (hkind : kind = kindOf k'.taskState) (hfin : io.finished = false) :
    Holding early isLocal (Function.update hold a (some k')) (Function.update tasks τ (some io))
      (pool ++ [⟨kind, τ, false⟩]) := by
  have hne : ∀ {b l σ}, hold b = some l → l.task = some σ → b ≠ a ∧ σ ≠ τ := by
    intro b l σ hb hσ
    refine ⟨?_, ?_⟩
    · rintro rfl
      rw [ha] at hb
      cases hb
      rw [hnone] at hσ
      cases hσ
    · rintro rfl
      obtain ⟨io', hio'⟩ := h.live hb hσ
      rw [hfresh] at hio'
      cases hio'
  -- after the change a task is owned by `a` if it is the new one, else by its old owner
  have hback : ∀ {b l σ}, Function.update hold a (some k') b = some l → l.task = some σ →
      (b = a ∧ σ = τ ∧ l = k') ∨ (hold b = some l ∧ b ≠ a ∧ σ ≠ τ) := by
    intro b l σ hb hσ
    by_cases hba : b = a
    · subst hba
      rw [Function.update_self] at hb
      cases hb
      rw [hk'] at hσ
      cases hσ
      exact Or.inl ⟨rfl, rfl, rfl⟩
    · rw [Function.update_of_ne hba] at hb
      exact Or.inr ⟨hb, hne hb hσ⟩
  refine ⟨?_, ?_, ?_, ?_, ?_, ?_, ?_⟩
  · intro b l hb
    by_cases hba : b = a
    · subst hba
      rw [Function.update_self] at hb
      cases hb
      exact hshape
    · rw [Function.update_of_ne hba] at hb
      exact h.shape hb
  · intro b l hl' hb
    rw [hl] at hl'
    cases hl'
  · intro b l σ hb hσ
    rcases hback hb hσ with ⟨-, rfl, -⟩ | ⟨hb', -, hσ'⟩
    · exact ⟨io, Function.update_self ..⟩
    · rw [Function.update_of_ne hσ']
      exact h.live hb' hσ
  · intro b c l l' σ hb hc hσ hσ'
    rcases hback hb hσ with ⟨rfl, rfl, -⟩ | ⟨hb', -, hn⟩
    · rcases hback hc hσ' with ⟨rfl, -⟩ | ⟨-, -, hn⟩
      · rfl
      · exact absurd rfl hn
    · rcases hback hc hσ' with ⟨-, rfl, -⟩ | ⟨hc', -⟩
      · exact absurd rfl hn
      · exact h.exclusive hb' hc' hσ hσ'
  · intro e he
    rcases List.mem_append.mp he with he | he
    · obtain ⟨b, l, io', hb, hσ, hio, hf, hkd⟩ := h.owner he
      obtain ⟨hba, hστ⟩ := hne hb hσ
      exact ⟨b, l, io', by rw [Function.update_of_ne hba]; exact hb, hσ,
        by rw [Function.update_of_ne hστ]; exact hio, hf, hkd⟩
    · cases List.mem_singleton.mp he
      exact ⟨a, k', io, Function.update_self .., hk', Function.update_self .., hfin, hkind⟩
  · rw [List.map_append]
    refine h.nodup.append (List.nodup_singleton τ) (List.disjoint_singleton.mpr ?_)
    intro hmem
    obtain ⟨e, he, heτ⟩ := List.mem_map.mp hmem
    obtain ⟨b, l, io', -, -, hio, -⟩ := h.owner he
    rw [heτ, hfresh] at hio
    cases hio
  · intro b l σ io' hb hσ hio hf
    rcases hback hb hσ with ⟨-, rfl, -⟩ | ⟨hb', -, hστ⟩
    · exact ⟨⟨kind, σ, false⟩, List.mem_append_right _ (List.mem_singleton.mpr rfl), rfl⟩
    · rw [Function.update_of_ne hστ] at hio
      obtain ⟨e, he, heσ⟩ := h.outstanding hb' hσ hio hf
      exact ⟨e, List.mem_append_left _ he, heσ⟩

theorem release (h : Holding early isLocal hold tasks pool) {k k' : Hold} {τ : Nat}
    {io : IOTask} (ha : hold a = some k) (hτ : k.task = some τ) (hio : tasks τ = some io)
    (hfin : io.finished = true) (hk' : k'.task = none) (hshape : Shape early k') :
    Holding early isLocal (Function.update hold a (some k')) (Function.update tasks τ none)
      pool := by
  -- after the change every task has its old owner, which is not `a`
  have hback : ∀ {b l σ}, Function.update hold a (some k') b = some l → l.task = some σ →
      hold b = some l ∧ σ ≠ τ := by
    intro b l σ hb hσ
    by_cases hba : b = a
    · subst hba
      rw [Function.update_self] at hb
      cases hb
      rw [hk'] at hσ
      cases hσ
    · rw [Function.update_of_ne hba] at hb
      refine ⟨hb, ?_⟩
      rintro rfl
      exact hba (h.exclusive hb ha hσ hτ)
  refine ⟨?_, ?_, ?_, ?_, ?_, h.nodup, ?_⟩
  · intro b l hb
    by_cases hba : b = a
    · subst hba
      rw [Function.update_self] at hb
      cases hb
      exact hshape
    · rw [Function.update_of_ne hba] at hb
      exact h.shape hb
  · intro b l hl hb
    by_cases hba : b = a
    · rw [(h.remote hl ha).1] at hτ
      cases hτ
    · rw [Function.update_of_ne hba] at hb
      exact h.remote hl hb
  · intro b l σ hb hσ
    obtain ⟨hb', hστ⟩ := hback hb hσ
    rw [Function.update_of_ne hστ]
    exact h.live hb' hσ
  · intro b c l l' σ hb hc hσ hσ'
    exact h.exclusive (hback hb hσ).1 (hback hc hσ').1 hσ hσ'
  · intro e he
    obtain ⟨b, l, io', hb, hσ, hio', hf, hkd⟩ := h.owner he
    have hστ : e.task ≠ τ := by
      intro hc
      rw [hc, hio] at hio'
      cases hio'
      rw [hfin] at hf
      cases hf
    have hba : b ≠ a := by
      rintro rfl
      rw [ha] at hb
      cases hb
      rw [hτ] at hσ
      cases hσ
      exact hστ rfl
    exact ⟨b, l, io', by rw [Function.update_of_ne hba]; exact hb, hσ,
      by rw [Function.update_of_ne hστ]; exact hio', hf, hkd⟩
  · intro b l σ io' hb hσ hio' hf
    obtain ⟨hb', hστ⟩ := hback hb hσ
    rw [Function.update_of_ne hστ] at hio'
    exact h.outstanding hb' hσ hio' hf

theorem index_unique (h : Holding early isLocal hold tasks pool) {i j : Nat} {e f : PoolTask}
    (hi : pool[i]? = some e) (hj : pool[j]? = some f) (hef : e.task = f.task) : i = j := by
  have hilt := (List.getElem?_eq_some_iff.mp hi).1
  have hm : (pool.map PoolTask.task)[i]? = (pool.map PoolTask.task)[j]? := by
    rw [List.getElem?_map, List.getElem?_map, hi, hj]
    exact congrArg some hef
  exact (List.getElem?_inj (by simpa using hilt) h.nodup).mp hm

theorem perform (h : Holding early isLocal hold tasks pool) {i : Nat} {e : PoolTask}
    {io : IOTask} (hi : pool[i]? = some e) (hfin : io.finished = false) :
    Holding early isLocal hold (Function.update tasks e.task (some io))
      (pool.set i { e with performed := true }) := by
  have hmem : e ∈ pool := List.mem_of_getElem? hi
  have hmap : (pool.set i { e with performed := true }).map PoolTask.task =
      pool.map PoolTask.task := by
    obtain ⟨hlt, he⟩ := List.getElem?_eq_some_iff.mp hi
    have hlt' : i < (pool.map PoolTask.task).length := by simpa using hlt
    have htask : e.task = (pool.map PoolTask.task)[i] := by rw [List.getElem_map, he]
    rw [List.map_set]
    show (pool.map PoolTask.task).set i e.task = _
    rw [htask, List.set_getElem_self]
  -- an entry of the new pool has an entry of the old pool with the same task and kind
  have hold' : ∀ {f}, f ∈ pool.set i { e with performed := true } →
      ∃ g ∈ pool, g.task = f.task ∧ g.kind = f.kind := by
    intro f hf
    rcases List.mem_or_eq_of_mem_set hf with hf | rfl
    · exact ⟨f, hf, rfl, rfl⟩
    · exact ⟨e, hmem, rfl, rfl⟩
  refine ⟨h.shape, h.remote, ?_, h.exclusive, ?_, by rw [hmap]; exact h.nodup, ?_⟩
  · intro b k σ hb hσ
    by_cases hc : σ = e.task
    · subst hc; exact ⟨io, Function.update_self ..⟩
    · rw [Function.update_of_ne hc]; exact h.live hb hσ
  · intro f hf
    obtain ⟨g, hg, hgt, hgk⟩ := hold' hf
    obtain ⟨b, k, io', hb, hσ, hio, hf', hkd⟩ := h.owner hg
    rw [hgt] at hσ hio
    by_cases hc : f.task = e.task
    · exact ⟨b, k, io, hb, hσ, by rw [hc, Function.update_self], hfin, hgk.symm.trans hkd⟩
    · exact ⟨b, k, io', hb, hσ, by rw [Function.update_of_ne hc]; exact hio, hf',
        hgk.symm.trans hkd⟩
  · intro b k σ io' hb hσ hio hf
    have hex : ∃ g ∈ pool, g.task = σ := by
      by_cases hc : σ = e.task
      · exact ⟨e, hmem, hc.symm⟩
      · rw [Function.update_of_ne hc] at hio
        exact h.outstanding hb hσ hio hf
    obtain ⟨g, hg, hgσ⟩ := hex
    have hmem' : σ ∈ (pool.set i { e with performed := true }).map PoolTask.task := by
      rw [hmap]
      exact List.mem_map.mpr ⟨g, hg, hgσ⟩
    obtain ⟨f, hf', hfσ⟩ := List.mem_map.mp hmem'
    exact ⟨f, hf', hfσ⟩

theorem finish (h : Holding early isLocal hold tasks pool) {i : Nat} {e : PoolTask}
    {io : IOTask} (hi : pool[i]? = some e) (hfin : io.finished = true) :
    Holding early isLocal hold (Function.update tasks e.task (some io)) (pool.eraseIdx i) := by
  refine ⟨h.shape, h.remote, ?_, h.exclusive, ?_, ?_, ?_⟩
  · intro b k σ hb hσ
    by_cases hc : σ = e.task
    · subst hc; exact ⟨io, Function.update_self ..⟩
    · rw [Function.update_of_ne hc]; exact h.live hb hσ
  · intro f hf
    obtain ⟨j, hji, hj⟩ := List.mem_eraseIdx_iff_getElem?.mp hf
    have hne : f.task ≠ e.task := fun hc => hji (h.index_unique hj hi hc)
    obtain ⟨b, k, io', hb, hσ, hio, hf', hkd⟩ := h.owner (List.mem_of_getElem? hj)
    exact ⟨b, k, io', hb, hσ, by rw [Function.update_of_ne hne]; exact hio, hf', hkd⟩
  · rw [← List.eraseIdx_map]
    exact h.nodup.eraseIdx i
  · intro b k σ io' hb hσ hio hf
    have hne : σ ≠ e.task := by
      rintro rfl
      rw [Function.update_self] at hio
      cases hio
      rw [hfin] at hf
      cases hf
    rw [Function.update_of_ne hne] at hio
    obtain ⟨g, hg, hgσ⟩ := h.outstanding hb hσ hio hf
    obtain ⟨j, hj⟩ := List.getElem?_of_mem hg
    have hji : j ≠ i := by
      rintro rfl
      cases hj.symm.trans hi
      exact hne hgσ.symm
    exact ⟨g, List.mem_eraseIdx_iff_getElem?.mpr ⟨j, hji, hj⟩, hgσ⟩

end Holding

/-! ### Effects keep the invariant -/

def Holds (t : TypeData D) (G : Guard) (w : World D) : Prop :=
  Holding G.unfinishedRead t.localNode w.hold w.tasks w.pool

theorem hold_of_core {w w' : World D} (h : w'.core = w.core) : w'.hold = w.hold := by
  have hcore : ∀ v : World D, v.core.hold = v.hold := by
    intro v
    funext a
    simp only [World.hold, World.core, Option.map_map]
    rfl
  rw [← hcore w', h, hcore]

theorem tasks_of_core {w w' : World D} (h : w'.core = w.core) :
    w'.tasks = w.tasks ∧ w'.pool = w.pool := by
  constructor
  · show w'.core.tasks = w.core.tasks
    rw [h]
  · show w'.core.pool = w.core.pool
    rw [h]

theorem hold_modify {w : World D} {a : Nat} {n : Node D} (hn : w.heap a = some n)
    (f : Node D → Node D) : (w.modify a f).hold = Function.update w.hold a (some (f n).hold) := by
  funext b
  simp only [World.hold, World.heap_modify]
  by_cases hb : b = a
  · subst hb
    simp only [Function.update_self, hn, Option.map_some]
  · simp only [Function.update_of_ne hb]
    rfl

theorem hold_of_heap {w : World D} {a : Nat} {n : Node D} (hn : w.heap a = some n) :
    w.hold a = some n.hold := by
  simp only [World.hold, hn, Option.map_some]

theorem holds_of_eq {t : TypeData D} {G : Guard} {w w' : World D} (h : Holds t G w)
    (hh : w'.hold = w.hold) (ht : w'.tasks = w.tasks) (hp : w'.pool = w.pool) : Holds t G w' := by
  unfold Holds
  rw [hh, ht, hp]
  exact h

variable {t : TypeData D} {G : Guard} {w w' : World D} {s it : Nat} {a : Nat} {n : Node D}
  {pos : Vector3i}

/-- What `finishLoad` makes of the loaded node. -/
def Node.afterLoad (t : TypeData D) (now : Int) (n : Node D) : Node D :=
  { n with taskState := if t.localNode then .idle else n.taskState
           state := .loaded, lastUpdateTime := now }

theorem core_finishLoad (t : TypeData D) (s a : Nat) (pos : Vector3i) (now : Int) (w : World D) :
    (finishLoad t s now w a pos).core =
    ((w.modify a (Node.afterLoad t now)).setScale s fun scale =>
      { scale with nodes := scale.nodes.insert pos (some a) }).core :=
  core_linkNode _ _ _ _ _

theorem finishUnload_tasks (t : TypeData D) (s : Nat) (pos : Vector3i) (hn : w.heap a = some n)
    (htask : n.task = none) :
    (finishUnload t s w a pos).hold = Function.update w.hold a none ∧
      (finishUnload t s w a pos).tasks = w.tasks ∧
      (finishUnload t s w a pos).pool = w.pool := by
  have hcore := core_unlinkNode t.maxScale w a s
  have hhold := hold_of_core hcore
  obtain ⟨m, hm⟩ : ∃ m, (unlinkNode t.maxScale w a s).heap a = some m := by
    have ha := congrFun hhold a
    rw [hold_of_heap hn] at ha
    obtain ⟨m, hm, -⟩ := Option.map_eq_some_iff.mp ha
    exact ⟨m, hm⟩
  have hmt : m.task = none := by
    have ha := congrFun hhold a
    rw [hold_of_heap hn, hold_of_heap hm] at ha
    have := congrArg Hold.task (Option.some.inj ha)
    exact this.trans htask
  have hdestroy : ∀ v : World D, (v.heap a).bind (·.task) = none →
      destroyPoly v a = { v with heap := Function.update v.heap a none } := by
    intro v hv
    simp only [destroyPoly, hv]
  have hw : (finishUnload t s w a pos) = _ := hdestroy _ (by
    simp only [World.heap_setScale, World.heap_modify, Function.update_self, hm, Option.map_some,
      Option.bind_some, hmt])
  rw [hw]
  refine ⟨?_, (tasks_of_core hcore).1, (tasks_of_core hcore).2⟩
  funext b
  by_cases hb : b = a
  · subst hb
    simp only [World.hold, Function.update_self, Option.map_none]
  · rw [Function.update_of_ne hb, ← congrFun hhold b]
    simp only [World.hold, World.heap_setScale, World.heap_modify, Function.update_of_ne hb]

theorem holds_destroy (h : Holds t G w) (hn : w.heap a = some n) (htask : n.task = none) :
    Holds t G ((finishUnload t s w a pos).eraseUnloading s it) := by
  obtain ⟨hh, ht, hp⟩ := finishUnload_tasks t s pos hn htask
  have hset : Holding G.unfinishedRead t.localNode (Function.update w.hold a none) w.tasks
      w.pool := by
    refine h.setNode ?_ ?_ ?_ ?_
    · rw [hold_of_heap hn]; exact htask.symm
    · rintro k ⟨⟩
    · rintro k - ⟨⟩
    · rintro k k' ⟨⟩
  unfold Holds
  rw [← hh, ← ht, ← hp] at hset
  exact hset

theorem holds_release (h : Holds t G w) (hn : w.heap a = some n) {τ : Nat} {io : IOTask}
    (hτ : n.task = some τ) (hio : w.tasks τ = some io) (hfin : io.finished = true)
    {f : Node D → Node D} (hf : (f n).task = none)
    (hshape : Shape G.unfinishedRead (f n).hold) :
    Holds t G ((w.freeTask τ).modify a f) := by
  have hr := Holding.release h (hold_of_heap hn) hτ hio hfin hf hshape
  rw [← hold_modify hn f] at hr
  exact hr

theorem holds_start (h : Holds t G w) (hn : w.heap a = some n) (hl : t.localNode = true)
    (hnone : n.task = none) {τ : Nat} {io : IOTask} {kind : IOKind} (hfresh : w.tasks τ = none)
    {f : Node D → Node D} (hf : (f n).task = some τ) (hshape : Shape G.unfinishedRead (f n).hold)
    (hkind : kind = kindOf (f n).taskState) (hfin : io.finished = false) :
    Holds t G ((w.addNativeTask kind τ io).modify a f) := by
  have hr := Holding.start h hl (hold_of_heap hn) hnone hfresh hf hshape hkind hfin
  rw [← hold_modify hn f] at hr
  exact hr

theorem holds_modify (h : Holds t G w) (hn : w.heap a = some n) {f : Node D → Node D}
    (hf : (f n).task = n.task) (hshape : Shape G.unfinishedRead (f n).hold)
    (hremote : t.localNode = false → (f n).taskState = .idle)
    (hkind : kindOf (f n).taskState = kindOf n.taskState) : Holds t G (w.modify a f) := by
  have hr := Holding.setNode (a := a) (x := some (f n).hold) h
    (by rw [hold_of_heap hn]; exact hf)
    (by rintro k ⟨⟩; exact hshape)
    (by rintro k hl ⟨⟩; exact hremote hl)
    (by
      rintro k k' ⟨⟩ hk'
      cases (hold_of_heap hn).symm.trans hk'
      exact hkind)
  rw [← hold_modify hn f] at hr
  exact hr

theorem holds_load (h : Holds t G w) (now : Int) (hn : w.heap a = some n)
    (hst : n.state = .loading)
    (hready : t.localNode = true → n.taskState = .readDone ∨ (n.taskState = .readInProgress ∧
      G.unfinishedRead ∧ ∃ τ io, n.task = some τ ∧ w.tasks τ = some io ∧ io.finished = false)) :
    Holds t G ((finishLoad t s now w a pos).eraseLoading s it) := by
  have hshape := Holding.shape h (hold_of_heap hn)
  have hmod : Holds t G (w.modify a (Node.afterLoad t now)) := by
    by_cases hl : t.localNode = true
    · refine holds_modify h hn rfl ?_ ?_ ?_
      · rcases hready hl with hts | ⟨hts, hG, -⟩
        · have hnone : n.task = none := by simpa [Shape, Node.hold, hst, hts] using hshape
          simp [Shape, Node.hold, Node.afterLoad, hl, hnone]
        · simp [Shape, Node.hold, Node.afterLoad, hl, hG]
      · intro hl'
        rw [hl] at hl'
        cases hl'
      · rcases hready hl with hts | ⟨hts, -⟩ <;> simp [Node.afterLoad, hl, hts, kindOf]
    · have hl' : t.localNode = false := by simpa using hl
      obtain ⟨hnone, hts⟩ := Holding.remote h hl' (hold_of_heap hn)
      have hnone : n.task = none := hnone
      have hts : n.taskState = .idle := hts
      refine holds_modify h hn rfl ?_ ?_ ?_
      · simp [Shape, Node.hold, Node.afterLoad, hl', hnone, hts]
      · intro _
        simp [Node.afterLoad, hl', hts]
      · simp [Node.afterLoad, hl']
  have hcore := core_finishLoad t s a pos now w
  have hstored : Holds t G ((w.modify a (Node.afterLoad t now)).setScale s fun scale =>
      { scale with nodes := scale.nodes.insert pos (some a) }) :=
    holds_of_eq hmod rfl rfl rfl
  have hload : Holds t G (finishLoad t s now w a pos) :=
    holds_of_eq hstored (hold_of_core hcore) (tasks_of_core hcore).1 (tasks_of_core hcore).2
  exact holds_of_eq hload rfl rfl rfl

theorem holds_create (h : Holds t G w) (now : Int) (ha : w.heap a = none) :
    Holds t G (w.create t s pos now a) := by
  have hold' : (w.create t s pos now a).hold =
      Function.update w.hold a (some ⟨.loading, .idle, none⟩) := by
    funext b
    by_cases hb : b = a
    · subst hb
      simp only [World.create, World.hold, World.heap_setScale, Function.update_self]
      rfl
    · simp only [World.create, World.hold, World.heap_setScale, Function.update_of_ne hb]
  have hnone : w.hold a = none := by simp only [World.hold, ha, Option.map_none]
  have hset := Holding.setNode (a := a) (x := some (⟨.loading, .idle, none⟩ : Hold)) h
    (by rw [hnone]; rfl)
    (by rintro k ⟨⟩; rfl)
    (by rintro k - ⟨⟩; rfl)
    (by
      rintro k k' ⟨⟩ hk'
      rw [hnone] at hk'
      cases hk')
  rw [← hold'] at hset
  exact hset

theorem hold_modify_keep (hn : w.heap a = some n) {f : Node D → Node D}
    (hf : (f n).hold = n.hold) : (w.modify a f).hold = w.hold := by
  rw [hold_modify hn f, hf, ← hold_of_heap hn, Function.update_eq_self]

theorem holds_finishWrite (h : Holds t G w) (hn : w.heap a = some n) (hst : n.state = .unloading)
    {τ : Nat} {io : IOTask} (hτ : n.task = some τ) (hio : w.tasks τ = some io)
    (hfin : io.finished = true) : Holds t G (w.finishWrite a τ) :=
  holds_release h hn hτ hio hfin rfl (by simp [Shape, Node.hold, hst])

theorem nodeReadIOTask_finished (database : NodeCoord → Option Bytes) (io : IOTask)
    (outcome : Outcome) : (nodeReadIOTask database io outcome).finished = io.finished := by
  cases outcome with
  | ok => unfold nodeReadIOTask; simp only; split <;> rfl
  | error status => rfl

theorem nodeWriteIOTask_finished (database : NodeCoord → Option Bytes) (io : IOTask)
    (outcome : Outcome) : (nodeWriteIOTask database io outcome).2.1.finished = io.finished := by
  cases outcome <;> rfl

theorem unfinished_of_pool (h : Holds t G w) {i : Nat} {e : PoolTask} {io : IOTask}
    (hi : w.pool[i]? = some e) (hio : w.tasks e.task = some io) : io.finished = false := by
  obtain ⟨a, k, io', -, -, hio', hfin, -⟩ := Holding.owner h (List.mem_of_getElem? hi)
  cases hio.symm.trans hio'
  exact hfin

theorem effect_holds {tr tr' : List Event} (h : Holds t G w)
    (he : Effect t G (w, tr) (w', tr')) : Holds t G w' := by
  cases he with
  | touch now hat => exact holds_of_eq h (hold_modify_keep hat.heap rfl) rfl rfl
  | edit body hat => exact holds_of_eq h (hold_modify_keep hat.heap rfl) rfl rfl
  | create now hs hfind ha => exact holds_create h now ha
  | @mark _ _ s pos a n hat hst =>
    have hshape := Holding.shape h (hold_of_heap hat.heap)
    refine holds_of_eq (w := w.modify a fun n => { n with state := .unloading }) ?_ rfl rfl rfl
    have hts : n.taskState = .idle := by
      cases hts : n.taskState <;> simp_all [Shape, Node.hold]
    refine holds_modify h hat.heap rfl ?_ (fun _ => hts) rfl
    simpa [Shape, Node.hold, hst, hts] using hshape
  | unloadWorld => exact holds_of_eq h rfl rfl rfl
  | startRead hat hst hl hts hnone hfresh =>
    exact holds_start h hat.heap hl hnone hfresh rfl (by simp [Shape, Node.hold, hst]) rfl rfl
  | finishRead seed hat hst hl hts hτ hio hfin _ =>
    exact holds_release h hat.heap hτ hio hfin rfl (by simp [Shape, Node.hold, Node.withBody, hst])
  | load now _ _ hat hst hready => exact holds_load h now hat.heap hst hready
  | startWrite hat hst hl hts hnone hfresh =>
    exact holds_start h hat.heap hl hnone hfresh rfl (by simp [Shape, Node.hold, hst]) rfl rfl
  | @destroy _ _ s it pos a n _ _ hat hst hready =>
    have hshape := Holding.shape h (hold_of_heap hat.heap)
    refine holds_destroy h hat.heap ?_
    by_cases hl : t.localNode = true
    · simpa [Shape, Node.hold, hst, hready hl] using hshape
    · exact (Holding.remote h (by simpa using hl) (hold_of_heap hat.heap)).1
  | @destroyWritten _ _ _ _ _ _ _ τ _ _ _ hat hst _ _ hτ hio hfin =>
    exact holds_destroy (holds_finishWrite h hat.heap hst hτ hio hfin) (at_finishWrite hat).heap rfl
  | performRead outcome hi _ _ hio _ _ =>
    have hfin := unfinished_of_pool h hi hio
    exact Holding.perform h hi (by rw [nodeReadIOTask_finished]; exact hfin)
  | performWrite outcome hi _ _ hio _ _ =>
    have hfin := unfinished_of_pool h hi hio
    exact Holding.perform h hi (by rw [nodeWriteIOTask_finished]; exact hfin)
  | finish hi _ hio => exact Holding.finish h hi rfl

end CosmicArchitect.Spatial3D
