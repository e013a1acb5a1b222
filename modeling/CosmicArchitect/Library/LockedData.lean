import CosmicArchitect.Library.Machine
import Mathlib.Logic.Function.Basic

/-!
# Data behind a lock

Threads take and release a lock in steps of their own and write the data while they own it
exclusively, one write at a time. A lock that excludes makes every session of a thread look as if
nothing else happened meanwhile, and the data what the sessions make of it one after another.
-/

namespace CosmicArchitect.Library

universe u v w x

/-- What a thread has of a lock. -/
inductive Ownership
  | none
  | shared
  | exclusive
deriving DecidableEq, Repr

/-- A lock as a machine, with the thread that takes each step. -/
structure Lock (σ : Type u) (ℓ : Type v) (ι : Type w) where
  machine : Machine σ ℓ
  thread : ℓ → ι
  owns : σ → ι → Ownership

namespace Lock
variable {σ : Type u} {ℓ : Type v} {ι : Type w} {α : Type x} (L : Lock σ ℓ ι)

/-- Beside an exclusive owner there is no owner. -/
def Excludes (s : σ) : Prop := ∀ i j, L.owns s i = .exclusive → j ≠ i → L.owns s j = .none

/-- What the sessions need of the lock. -/
structure Sound (guard : σ → ℓ → Prop) : Prop where
  free : ∀ s, L.machine.init s → ∀ i, L.owns s i = .none
  excludes : ∀ s, L.machine.Reach guard s → L.Excludes s
  others : ∀ s l s', L.machine.step s l = some s' → ∀ j, j ≠ L.thread l → L.owns s' j = L.owns s j

/-- The data when a thread became an owner, and what it wrote since. -/
structure Session (α : Type x) where
  start : α
  writes : List (α → α)

def replay (data : α) (writes : List (α → α)) : α := writes.foldl (fun d f => f d) data

theorem replay_append (data : α) (writes writes' : List (α → α)) :
    replay data (writes ++ writes') = replay (replay data writes) writes' := List.foldl_append

/-- A lock and the data behind it. `committed` are the exclusive sessions that are over. -/
structure Guarded (σ : Type u) (ι : Type w) (α : Type x) where
  lock : σ
  data : α
  sessions : ι → Option (Session α) := fun _ => none
  committed : List (List (α → α)) := []

inductive Label (ℓ : Type v) (ι : Type w) (α : Type x)
  | lock (l : ℓ)
  | write (i : ι) (f : α → α)

variable [DecidableEq ι]

/-- A session begins with the ownership and ends with it; a downgrade begins a new one. -/
def nextSession (data : α) (session : Option (Session α)) :
    Ownership → Ownership → Option (Session α)
  | _, .none => none
  | .none, _ | .exclusive, .shared => some ⟨data, []⟩
  | _, _ => session

def follow (g : Guarded σ ι α) (i : ι) (s : σ) : Guarded σ ι α where
  lock := s
  data := g.data
  sessions := Function.update g.sessions i
    (nextSession g.data (g.sessions i) (L.owns g.lock i) (L.owns s i))
  committed :=
    if L.owns g.lock i = .exclusive ∧ L.owns s i ≠ .exclusive then
      g.committed ++ ((g.sessions i).map Session.writes).toList
    else g.committed

def step (g : Guarded σ ι α) : Label ℓ ι α → Option (Guarded σ ι α)
  | .lock l => (L.machine.step g.lock l).map (L.follow g (L.thread l))
  | .write i f =>
    if L.owns g.lock i = .exclusive then
      some { g with
        data := f g.data
        sessions := Function.update g.sessions i
          ((g.sessions i).map fun e => { e with writes := e.writes ++ [f] }) }
    else none

/-- All runs of the threads over the data. -/
def guarded (data : α) : Machine (Guarded σ ι α) (Label ℓ ι α) where
  init g := L.machine.init g.lock ∧ g.data = data ∧ g.sessions = (fun _ => none) ∧ g.committed = []
  step := L.step

/-- A guard of the lock on the runs over the data. -/
def lift (guard : σ → ℓ → Prop) (g : Guarded σ ι α) : Label ℓ ι α → Prop
  | .lock l => guard g.lock l
  | .write .. => True

instance {guard : σ → ℓ → Prop} [∀ s l, Decidable (guard s l)] (g : Guarded σ ι α)
    (l : Label ℓ ι α) : Decidable (lift guard g l) :=
  match l with
  | .lock l => inferInstanceAs (Decidable (guard g.lock l))
  | .write .. => isTrue trivial

/-- Every owner sees the data that the sessions before it left and its own writes, readers the same
data as long as they read; the exclusive sessions happen one after another. -/
structure Isolated (data : α) (g : Guarded σ ι α) : Prop where
  excludes : L.Excludes g.lock
  session : ∀ i, g.sessions i = none ↔ L.owns g.lock i = .none
  start : ∀ i e, g.sessions i = some e → e.start = replay data g.committed.flatten
  own : ∀ i e, g.sessions i = some e → g.data = replay e.start e.writes
  reads : ∀ i e, g.sessions i = some e → L.owns g.lock i = .shared → e.writes = []
  serial : (∀ i, L.owns g.lock i ≠ .exclusive) → g.data = replay data g.committed.flatten

section
variable {L} {guard : σ → ℓ → Prop} {data : α} {g : Guarded σ ι α} {i j : ι} {s : σ}

theorem follow_sessions_self : (L.follow g i s).sessions i =
    nextSession g.data (g.sessions i) (L.owns g.lock i) (L.owns s i) := Function.update_self ..

theorem follow_sessions_of_ne (hj : j ≠ i) : (L.follow g i s).sessions j = g.sessions j :=
  Function.update_of_ne hj ..

theorem reach_lock (h : (L.guarded data).Reach (lift guard) g) : L.machine.Reach guard g.lock := by
  refine h.invariant (I := fun g => L.machine.Reach guard g.lock) ?_ ?_
  · intro g hinit
    exact .init hinit.1
  intro g l g' _ hreach hguard hstep
  cases l with
  | lock l =>
    obtain ⟨s, hs, rfl⟩ := Option.map_eq_some_iff.mp hstep
    exact hreach.step hguard hs
  | write i f =>
    obtain ⟨-, heq⟩ := Option.ite_none_right_eq_some.mp hstep
    cases heq
    exact hreach

namespace Isolated
variable (h : L.Isolated data g)
include h

omit [DecidableEq ι] in
theorem exists_session (hi : L.owns g.lock i ≠ .none) : ∃ e, g.sessions i = some e :=
  Option.ne_none_iff_exists'.mp fun hnone => hi ((h.session i).mp hnone)

omit [DecidableEq ι] in
theorem alone (hi : L.owns g.lock i = .exclusive) (hj : j ≠ i) : g.sessions j = none :=
  (h.session j).mpr (h.excludes i j hi hj)

theorem write (hi : L.owns g.lock i = .exclusive) (f : α → α) :
    L.Isolated data { g with
      data := f g.data
      sessions := Function.update g.sessions i
        ((g.sessions i).map fun e => { e with writes := e.writes ++ [f] }) } := by
  obtain ⟨e, he⟩ := h.exists_session (i := i) (by rw [hi]; decide)
  have honly : ∀ {j e'}, Function.update g.sessions i
      ((g.sessions i).map fun e => { e with writes := e.writes ++ [f] }) j = some e' →
        j = i ∧ e' = { e with writes := e.writes ++ [f] } := by
    intro j e' he'
    by_cases hj : j = i
    · rw [hj, Function.update_self, he] at he'
      exact ⟨hj, (Option.some.inj he').symm⟩
    · rw [Function.update_of_ne hj, h.alone hi hj] at he'
      cases he'
  refine ⟨h.excludes, fun j => ?_, fun j e' he' => ?_, fun j e' he' => ?_, fun j e' he' hj => ?_,
    fun hno => absurd hi (hno i)⟩
  · dsimp only
    rw [← h.session j]
    by_cases hj : j = i
    · rw [hj, Function.update_self, Option.map_eq_none_iff]
    · rw [Function.update_of_ne hj]
  · obtain ⟨-, rfl⟩ := honly he'
    exact h.start i e he
  · obtain ⟨-, rfl⟩ := honly he'
    rw [replay_append, ← h.own i e he]
    rfl
  · obtain ⟨rfl, -⟩ := honly he'
    rw [hi] at hj
    cases hj

/-- The data is what the committed sessions make of it whenever nobody owns the lock exclusively,
also just after the one who did has released it. -/
theorem follow_serial (hfree : ∀ j, j ≠ i → L.owns g.lock j ≠ .exclusive)
    (hi : L.owns g.lock i ≠ .exclusive ∨ L.owns s i ≠ .exclusive) :
    g.data = replay data (L.follow g i s).committed.flatten := by
  by_cases hb : L.owns g.lock i = .exclusive
  · obtain ⟨e, he⟩ := h.exists_session (i := i) (by rw [hb]; decide)
    have hs : L.owns s i ≠ .exclusive := hi.resolve_left fun hn => hn hb
    show _ = replay data (if _ then _ else _ : List (List (α → α))).flatten
    rw [if_pos ⟨hb, hs⟩, he, Option.map_some, Option.toList_some, List.flatten_append, replay_append,
      ← h.start i e he, List.flatten_cons, List.flatten_nil, List.append_nil]
    exact h.own i e he
  · show _ = replay data (if _ then _ else _ : List (List (α → α))).flatten
    rw [if_neg fun hc => hb hc.1]
    refine h.serial fun j => ?_
    by_cases hj : j = i
    · exact hj ▸ hb
    · exact hfree j hj

/-- A session after the step is one from before it or begins with it. -/
theorem follow_session (hexcludes : L.Excludes s)
    (hothers : ∀ j, j ≠ i → L.owns s j = L.owns g.lock j) {e : Session α}
    (he : (L.follow g i s).sessions j = some e) :
    (g.sessions j = some e ∧ (L.follow g i s).committed = g.committed ∧
        (L.owns s j = .shared → L.owns g.lock j = .shared)) ∨
      e = ⟨g.data, []⟩ ∧ g.data = replay data (L.follow g i s).committed.flatten := by
  have hfree : L.owns s i ≠ .none → ∀ k, k ≠ i → L.owns g.lock k ≠ .exclusive := fun hi k hk hex =>
    hi (hexcludes k i ((hothers k hk).trans hex) (Ne.symm hk))
  have hcommitted : L.owns g.lock i ≠ .exclusive ∨ L.owns s i = .exclusive →
      (L.follow g i s).committed = g.committed := fun hor =>
    if_neg fun ⟨hb, hs⟩ => hor.elim (fun hn => hn hb) hs
  by_cases hj : j = i
  · subst hj
    rw [follow_sessions_self] at he
    cases hb : L.owns g.lock j <;> cases hs : L.owns s j <;> rw [hb, hs] at he
    case none.none | shared.none | exclusive.none => cases he
    case none.shared | none.exclusive | exclusive.shared =>
      refine Or.inr ⟨(Option.some.inj he).symm, h.follow_serial (hfree ?_) ?_⟩
      · rw [hs]
        decide
      · rw [hb, hs]
        decide
    case shared.shared | shared.exclusive | exclusive.exclusive =>
      refine Or.inl ⟨he, hcommitted ?_, ?_⟩
      · rw [hb, hs]
        decide
      · decide
  · rw [follow_sessions_of_ne hj] at he
    refine Or.inl ⟨he, hcommitted (Or.inl fun hb => ?_), fun hs => (hothers j hj).symm.trans hs⟩
    rw [h.alone hb hj] at he
    cases he

/-- The step of a thread in the lock leaves the sessions of the others as they are. -/
theorem follow (hexcludes : L.Excludes s)
    (hothers : ∀ j, j ≠ i → L.owns s j = L.owns g.lock j) : L.Isolated data (L.follow g i s) := by
  refine ⟨hexcludes, fun j => ?_, fun j e he => ?_, fun j e he => ?_, fun j e he hj => ?_,
    fun hno => ?_⟩
  · by_cases hj : j = i
    · subst hj
      show _ ↔ L.owns s j = .none
      have hsession := h.session j
      rw [follow_sessions_self]
      cases hb : L.owns g.lock j <;> cases hs : L.owns s j <;> simp_all [nextSession]
    · show _ ↔ L.owns s j = .none
      rw [follow_sessions_of_ne hj, hothers j hj]
      exact h.session j
  · rcases h.follow_session hexcludes hothers he with ⟨hold, hcommitted, -⟩ | ⟨rfl, hdata⟩
    · rw [hcommitted]
      exact h.start j e hold
    · exact hdata
  · rcases h.follow_session hexcludes hothers he with ⟨hold, -, -⟩ | ⟨rfl, -⟩
    · exact h.own j e hold
    · rfl
  · rcases h.follow_session hexcludes hothers he with ⟨hold, -, hshared⟩ | ⟨rfl, -⟩
    · exact h.reads j e hold (hshared hj)
    · rfl
  · exact h.follow_serial (fun j hj => hothers j hj ▸ hno j) (Or.inr (hno i))

end Isolated

theorem isolated_of_reach (hL : L.Sound guard) (h : (L.guarded data).Reach (lift guard) g) :
    L.Isolated data g := by
  refine h.invariant (I := L.Isolated data) ?_ ?_
  · rintro g ⟨hinit, hdata, hsessions, hcommitted⟩
    have hfree := hL.free g.lock hinit
    have hno : ∀ {i e}, g.sessions i ≠ some e := fun {i e} he => by
      rw [hsessions] at he
      cases he
    refine ⟨hL.excludes _ (.init hinit), fun i => ?_, fun _ _ he => absurd he hno,
      fun _ _ he => absurd he hno, fun _ _ he => absurd he hno, fun _ => ?_⟩
    · exact iff_of_true (congrFun hsessions i) (hfree i)
    · rw [hdata, hcommitted]
      rfl
  · intro g l g' hreach hg hguard hstep
    cases l with
    | lock l =>
      obtain ⟨s, hs, rfl⟩ := Option.map_eq_some_iff.mp hstep
      exact hg.follow (hL.excludes s ((reach_lock hreach).step hguard hs)) (hL.others _ _ _ hs)
    | write i f =>
      obtain ⟨hi, heq⟩ := Option.ite_none_right_eq_some.mp hstep
      cases heq
      exact hg.write hi f

end
end Lock
end CosmicArchitect.Library
