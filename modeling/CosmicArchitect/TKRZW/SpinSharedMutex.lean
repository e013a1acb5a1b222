import CosmicArchitect.Library.LockedData
import Mathlib.Data.Fintype.Card

/-!
# The spin lock with shared ownership (lib/TKRZW/tkrzw_thread_util.h, `SpinSharedMutex`)

A step is one atomic operation on `count_` of one thread. `compare_exchange_weak` may fail for no
reason, and an attempt to share the lock raises the count before it looks at it.
-/

namespace CosmicArchitect.TKRZW
open Library

variable {ι α : Type} [DecidableEq ι]

def int32Max : UInt32 := 2147483647

namespace SpinSharedMutex

/-- Where a thread is: in no method, with what it owns, or before an operation on `count_`. A thread
that `retries` is in `lock_shared`, else in `try_lock_shared`. -/
inductive Place
  | outside
  | exclusive
  | shared
  | exchange (weak : Bool)
  | tryExchange
  | fetchAdd (retries : Bool)
  | load (retries : Bool)
  | reset (retries : Bool) (oldValue : UInt32)
  | upgrade
deriving DecidableEq, Repr

def Place.ownership : Place → Ownership
  | .exclusive => .exclusive
  | .shared | .upgrade => .shared
  | _ => .none

/-- Back to the head of the loop of `lock_shared`, or out of `try_lock_shared`. -/
def Place.again : Bool → Place
  | true => .fetchAdd true
  | false => .outside

inductive Method
  | lock
  | tryLock
  | unlock
  | lockShared
  | tryLockShared
  | unlockShared
  | tryUpgrade
  | downgrade
deriving DecidableEq, Repr

inductive Label (ι : Type)
  | call (i : ι) (method : Method)
  | next (i : ι) (spurious : Bool)

def Label.thread : Label ι → ι
  | .call i _ => i
  | .next i _ => i

end SpinSharedMutex

structure SpinSharedMutex (ι : Type) where
  count : UInt32 := 0
  places : ι → SpinSharedMutex.Place := fun _ => .outside

namespace SpinSharedMutex

def goto (m : SpinSharedMutex ι) (i : ι) (place : Place) : SpinSharedMutex ι :=
  { m with places := Function.update m.places i place }

/-- `compare_exchange` from a value to `INT32MAX`. -/
def exchange (m : SpinSharedMutex ι) (oldValue : UInt32) : SpinSharedMutex ι :=
  if m.count = oldValue then { m with count := int32Max } else m

/-- A method is called by a thread that may call it; those with one operation are done at once. -/
def call (m : SpinSharedMutex ι) (i : ι) : Method → Option (SpinSharedMutex ι)
  | .lock => if m.places i = .outside then some (m.goto i (.exchange true)) else none
  | .tryLock => if m.places i = .outside then some (m.goto i .tryExchange) else none
  | .unlock =>
    if m.places i = .exclusive then some ({ m with count := 0 }.goto i .outside) else none
  | .lockShared => if m.places i = .outside then some (m.goto i (.fetchAdd true)) else none
  | .tryLockShared => if m.places i = .outside then some (m.goto i (.fetchAdd false)) else none
  | .unlockShared =>
    if m.places i = .shared then some ({ m with count := m.count - 1 }.goto i .outside) else none
  | .tryUpgrade => if m.places i = .shared then some (m.goto i .upgrade) else none
  | .downgrade =>
    if m.places i = .exclusive then some ({ m with count := 1 }.goto i .shared) else none

/-- The next operation of a thread in a method. -/
def next (m : SpinSharedMutex ι) (i : ι) (spurious : Bool) : Option (SpinSharedMutex ι) :=
  match m.places i with
  | .outside | .exclusive | .shared => none
  | .exchange weak =>
    if m.count = 0 ∧ ¬ (weak ∧ spurious) then some ((m.exchange 0).goto i .exclusive)
    else some (m.goto i (.exchange (!weak)))
  | .tryExchange => some ((m.exchange 0).goto i (if m.count = 0 then .exclusive else .outside))
  | .fetchAdd retries =>
    some ({ m with count := m.count + 1 }.goto i
      (if m.count ≥ int32Max then .load retries else .shared))
  | .load retries =>
    some (m.goto i (if m.count > int32Max then .reset retries m.count else .again retries))
  | .reset retries oldValue =>
    some ((if spurious then m else m.exchange oldValue).goto i (.again retries))
  | .upgrade =>
    some ((m.exchange 1).goto i
      (if m.count = 1 then .exclusive else if m.count < int32Max then .shared else .upgrade))

def step (m : SpinSharedMutex ι) : Label ι → Option (SpinSharedMutex ι)
  | .call i method => m.call i method
  | .next i spurious => m.next i spurious

def owns (m : SpinSharedMutex ι) (i : ι) : Ownership := (m.places i).ownership

/-- All runs of threads that call a method only with the ownership it is documented for. -/
def asLock (ι : Type) [DecidableEq ι] : Lock (SpinSharedMutex ι) (Label ι) ι where
  machine := { init := fun m => m = {}, step := step }
  thread := Label.thread
  owns := owns

/-- `fetch_add` does not wrap around, for which it would take `2 ^ 31` failed attempts to share the
lock during one exclusive ownership, none of them undone by `compare_exchange_weak`. -/
def NoWrap (m : SpinSharedMutex ι) : Label ι → Prop
  | .call .. => True
  | .next i _ => (∃ retries, m.places i = .fetchAdd retries) → m.count + 1 ≠ 0

section
variable {m m' : SpinSharedMutex ι} {i j : ι} {place : Place}

theorem owns_goto_self : (m.goto i place).owns i = place.ownership :=
  congrArg Place.ownership (Function.update_self ..)

theorem owns_goto_of_ne (hj : j ≠ i) : (m.goto i place).owns j = m.owns j :=
  congrArg Place.ownership (Function.update_of_ne hj ..)

theorem not_exclusive_goto (hothers : ∀ j, j ≠ i → m.owns j ≠ .exclusive)
    (hplace : place.ownership ≠ .exclusive) (j : ι) : (m.goto i place).owns j ≠ .exclusive := by
  by_cases hj : j = i
  · rw [hj, owns_goto_self]
    exact hplace
  · rw [owns_goto_of_ne hj]
    exact hothers j hj

theorem places_goto {place' : Place} (h : (m.goto i place).places j = place') :
    j = i ∧ place = place' ∨ m.places j = place' := by
  by_cases hj : j = i
  · exact Or.inl ⟨hj, (Function.update_self ..).symm.trans (hj ▸ h)⟩
  · exact Or.inr ((Function.update_of_ne hj ..).symm.trans h)

end

omit [DecidableEq ι] in
theorem exchange_places (m : SpinSharedMutex ι) (oldValue : UInt32) :
    (m.exchange oldValue).places = m.places := by
  unfold exchange
  split <;> rfl

/-- A step moves the thread that takes it, and no other. -/
theorem step_places {m m' : SpinSharedMutex ι} {l : Label ι} (h : m.step l = some m') :
    ∃ place, m'.places = Function.update m.places l.thread place := by
  have hgoto : ∀ {m₁ : SpinSharedMutex ι} {i : ι} {place : Place}, m₁.places = m.places →
      ∃ place', (m₁.goto i place).places = Function.update m.places i place' :=
    fun {m₁ i place} heq => ⟨place, by rw [← heq]; rfl⟩
  cases l with
  | call i method =>
    cases method <;> obtain ⟨-, heq⟩ := Option.ite_none_right_eq_some.mp h <;> cases heq <;>
      exact hgoto rfl
  | next i spurious =>
    replace h : m.next i spurious = some m' := h
    unfold next at h
    split at h
    case h_1 | h_2 | h_3 => cases h
    case h_4 =>
      split at h <;> cases h
      · exact hgoto (exchange_places m 0)
      · exact hgoto rfl
    case h_5 | h_9 =>
      cases h
      exact hgoto (exchange_places m _)
    case h_6 | h_7 =>
      cases h
      exact hgoto rfl
    case h_8 =>
      cases h
      cases spurious
      · exact hgoto (exchange_places m _)
      · exact hgoto rfl

theorem ownership_again (retries : Bool) : (Place.again retries).ownership = .none := by
  cases retries <;> rfl

theorem again_ne_reset {retries retries' : Bool} {oldValue count : UInt32}
    (h : Place.again retries = .reset retries' oldValue) : count < oldValue := by
  cases retries <;> cases h

theorem int32Max_le_succ {count : UInt32} (h : int32Max ≤ count) (hwrap : count + 1 ≠ 0) :
    int32Max ≤ count + 1 := by
  have hlt := count.toNat_lt
  have hle : 2147483647 ≤ count.toNat := UInt32.le_iff_toNat_le.mp h
  have hsucc : (count + 1).toNat = (count.toNat + 1) % 2 ^ 32 := UInt32.toNat_add count 1
  have hne : (count + 1).toNat ≠ 0 := fun hc => hwrap (UInt32.toNat_inj.mp hc)
  exact UInt32.le_iff_toNat_le.mpr (show 2147483647 ≤ (count + 1).toNat by omega)

variable [Fintype ι]

/-- The threads that share the lock. -/
def sharers (m : SpinSharedMutex ι) : Finset ι := Finset.univ.filter fun i => m.owns i = .shared

omit [DecidableEq ι] in
theorem mem_sharers {m : SpinSharedMutex ι} {i : ι} : i ∈ m.sharers ↔ m.owns i = .shared := by
  rw [sharers, Finset.mem_filter]
  exact and_iff_right (Finset.mem_univ i)

theorem sharers_goto (m : SpinSharedMutex ι) (i : ι) (place : Place) : (m.goto i place).sharers =
    if place.ownership = .shared then insert i m.sharers else m.sharers.erase i := by
  ext j
  rw [mem_sharers]
  by_cases hj : j = i
  · subst hj
    rw [owns_goto_self]
    split <;> simp [*]
  · rw [owns_goto_of_ne hj, ← mem_sharers]
    split <;> simp [hj]

/-- The count is the number of the threads that share the lock, or that there is an exclusive owner. -/
structure Exact (m : SpinSharedMutex ι) : Prop where
  excludes : (asLock ι).Excludes m
  exclusive : ∀ i, m.owns i = .exclusive → int32Max ≤ m.count
  shared : (∀ i, m.owns i ≠ .exclusive) → m.count.toNat = m.sharers.card
  reset : ∀ i retries oldValue, m.places i = .reset retries oldValue → int32Max < oldValue

theorem exact_init : Exact ({} : SpinSharedMutex ι) where
  excludes _ _ hi := by cases hi
  exclusive _ hi := by cases hi
  shared _ := by
    rw [Eq.comm]
    exact Finset.card_eq_zero.mpr (Finset.filter_eq_empty_iff.mpr fun _ _ hi => by cases hi)
  reset _ _ _ hi := by cases hi

namespace Exact
variable {m m' : SpinSharedMutex ι} {i : ι} (h : Exact m)
include h

theorem goto_reset {count : UInt32} {place : Place}
    (hplace : ∀ retries oldValue, place = .reset retries oldValue → int32Max < oldValue) :
    ∀ j retries oldValue, ({ m with count := count }.goto i place).places j =
      .reset retries oldValue → int32Max < oldValue := by
  intro j retries oldValue hj
  rcases places_goto hj with ⟨-, hp⟩ | hj
  · exact hplace retries oldValue hp
  · exact h.reset j retries oldValue hj

/-- A thread goes on without more or less ownership; failed attempts count above an exclusive owner. -/
theorem walk {count : UInt32} {place : Place} (howns : place.ownership = m.owns i)
    (hcount : count = m.count ∨ (∃ j, m.owns j = .exclusive) ∧ int32Max ≤ count)
    (hplace : ∀ retries oldValue, place = .reset retries oldValue → int32Max < oldValue) :
    Exact ({ m with count := count }.goto i place) := by
  have hsame : ∀ j, ({ m with count := count }.goto i place).owns j = m.owns j := by
    intro j
    by_cases hj : j = i
    · rw [hj, owns_goto_self, howns]
    · exact owns_goto_of_ne hj
  refine ⟨fun j k hj hk => ?_, fun j hj => ?_, fun hno => ?_, h.goto_reset hplace⟩
  · exact (hsame k).trans (h.excludes j k ((hsame j).symm.trans hj) hk)
  · rcases hcount with rfl | ⟨-, hle⟩
    · exact h.exclusive j ((hsame j).symm.trans hj)
    · exact hle
  · have hno' : ∀ j, m.owns j ≠ .exclusive := fun j hj => hno j ((hsame j).trans hj)
    rcases hcount with rfl | ⟨⟨j, hj⟩, -⟩
    · refine (h.shared hno').trans (congrArg Finset.card ?_)
      exact Finset.filter_congr fun j _ => by rw [hsame j]
    · exact absurd hj (hno' j)

/-- A thread beside which there is no owner becomes the exclusive owner. -/
theorem take (hothers : ∀ j, j ≠ i → m.owns j = .none) :
    Exact ({ m with count := int32Max }.goto i .exclusive) := by
  refine ⟨fun j k hj hk => ?_, fun _ _ => UInt32.le_refl _, fun hno => absurd owns_goto_self (hno i),
    h.goto_reset fun _ _ hp => by cases hp⟩
  by_cases hji : j = i
  · subst hji
    exact (owns_goto_of_ne hk).trans (hothers k hk)
  · have hnone := (owns_goto_of_ne hji).symm.trans hj
    cases (hothers j hji).symm.trans hnone

/-- The exclusive owner releases the lock or goes on sharing it. -/
theorem release {count : UInt32} {place : Place} (hi : m.owns i = .exclusive)
    (hplace : place = .outside ∧ count = 0 ∨ place = .shared ∧ count = 1) :
    Exact ({ m with count := count }.goto i place) := by
  have hnot : ∀ j, ({ m with count := count }.goto i place).owns j ≠ .exclusive := by
    refine not_exclusive_goto (fun j hj hex => ?_) ?_
    · cases (h.excludes i j hi hj).symm.trans hex
    · rcases hplace with ⟨rfl, -⟩ | ⟨rfl, -⟩ <;> decide
  refine ⟨fun j _ hj => absurd hj (hnot j), fun j hj => absurd hj (hnot j), fun _ => ?_,
    h.goto_reset fun _ _ hp => ?_⟩
  · have hempty : ({ m with count := count } : SpinSharedMutex ι).sharers = ∅ := by
      refine Finset.eq_empty_of_forall_notMem fun j hj => ?_
      by_cases hji : j = i
      · cases hi.symm.trans (hji ▸ mem_sharers.mp hj)
      · cases (h.excludes i j hi hji).symm.trans (mem_sharers.mp hj)
    rw [sharers_goto, hempty]
    rcases hplace with ⟨rfl, rfl⟩ | ⟨rfl, rfl⟩ <;> rfl
  · rcases hplace with ⟨rfl, -⟩ | ⟨rfl, -⟩ <;> cases hp

theorem share (hi : m.owns i = .none) (hcount : m.count < int32Max) :
    Exact ({ m with count := m.count + 1 }.goto i .shared) := by
  have hno : ∀ j, m.owns j ≠ .exclusive := fun j hj =>
    absurd (h.exclusive j hj) (UInt32.not_le.mpr hcount)
  have hnot : ∀ j, ({ m with count := m.count + 1 }.goto i .shared).owns j ≠ .exclusive :=
    not_exclusive_goto (fun j _ => hno j) (by decide)
  refine ⟨fun j _ hj => absurd hj (hnot j), fun j hj => absurd hj (hnot j), fun _ => ?_,
    h.goto_reset fun _ _ hp => by cases hp⟩
  have hnotMem : i ∉ m.sharers := fun hmem => by cases hi.symm.trans (mem_sharers.mp hmem)
  have hcard : (insert i m.sharers).card = m.count.toNat + 1 := by
    rw [Finset.card_insert_of_notMem hnotMem, h.shared hno]
  rw [sharers_goto, if_pos (show Place.shared.ownership = .shared from rfl)]
  refine Eq.trans ?_ hcard.symm
  show (m.count + 1).toNat = m.count.toNat + 1
  have hlt : m.count.toNat < 2147483647 := UInt32.lt_iff_toNat_lt.mp hcount
  rw [UInt32.toNat_add]
  show (m.count.toNat + 1) % 2 ^ 32 = _
  omega

theorem unshare (hi : m.owns i = .shared) :
    Exact ({ m with count := m.count - 1 }.goto i .outside) := by
  have hno : ∀ j, m.owns j ≠ .exclusive := by
    intro j hj
    by_cases hji : i = j
    · cases hi.symm.trans (hji ▸ hj)
    · cases hi.symm.trans (h.excludes j i hj hji)
  have hnot : ∀ j, ({ m with count := m.count - 1 }.goto i .outside).owns j ≠ .exclusive :=
    not_exclusive_goto (fun j _ => hno j) (by decide)
  refine ⟨fun j _ hj => absurd hj (hnot j), fun j hj => absurd hj (hnot j), fun _ => ?_,
    h.goto_reset fun _ _ hp => by cases hp⟩
  have hmem : i ∈ m.sharers := mem_sharers.mpr hi
  have hpos := Finset.card_pos.mpr ⟨i, hmem⟩
  have hcard : (m.sharers.erase i).card = m.count.toNat - 1 := by
    rw [Finset.card_erase_of_mem hmem, h.shared hno]
  have hshared := h.shared hno
  rw [sharers_goto, if_neg (by decide)]
  refine Eq.trans ?_ hcard.symm
  show (m.count - 1).toNat = m.count.toNat - 1
  exact UInt32.toNat_sub_of_le _ _ (UInt32.le_iff_toNat_le.mpr (show 1 ≤ m.count.toNat by omega))

/-- A count of this size says that there is an exclusive owner. -/
theorem exists_exclusive (hthreads : Fintype.card ι < 2147483647) (hcount : int32Max ≤ m.count) :
    ∃ j, m.owns j = .exclusive := by
  by_contra hno
  have hcard := h.shared fun j hj => hno ⟨j, hj⟩
  have hle : m.sharers.card ≤ Fintype.card ι := Finset.card_le_univ _
  have : 2147483647 ≤ m.count.toNat := UInt32.le_iff_toNat_le.mp hcount
  omega

theorem free_of_zero (hcount : m.count = 0) (j : ι) : m.owns j = .none := by
  have hno : ∀ j, m.owns j ≠ .exclusive := fun j hj => by
    have hle := h.exclusive j hj
    rw [hcount] at hle
    exact absurd hle (by decide)
  have hcard := h.shared hno
  rw [hcount] at hcard
  have hj : j ∉ m.sharers := by
    rw [Finset.card_eq_zero.mp hcard.symm]
    exact Finset.notMem_empty j
  rw [mem_sharers] at hj
  cases hown : m.owns j with
  | none => rfl
  | shared => exact absurd hown hj
  | exclusive => exact absurd hown (hno j)

theorem alone_of_one (hcount : m.count = 1) (hi : m.owns i = .shared) (j : ι) (hj : j ≠ i) :
    m.owns j = .none := by
  have hno : ∀ j, m.owns j ≠ .exclusive := fun j hj => by
    have hle := h.exclusive j hj
    rw [hcount] at hle
    exact absurd hle (by decide)
  have hcard := h.shared hno
  rw [hcount] at hcard
  obtain ⟨k, hk⟩ := Finset.card_eq_one.mp hcard.symm
  have hik : i = k := Finset.mem_singleton.mp (hk ▸ mem_sharers.mpr hi)
  cases hown : m.owns j with
  | none => rfl
  | shared =>
    have hjk : j = k := Finset.mem_singleton.mp (hk ▸ mem_sharers.mpr hown)
    exact absurd (hjk.trans hik.symm) hj
  | exclusive => exact absurd hown (hno j)

/-- What an attempt from `count` does that finds it or does not. -/
theorem next (hthreads : Fintype.card ι < 2147483647) {spurious : Bool}
    (hwrap : NoWrap m (.next i spurious)) (hstep : m.next i spurious = some m') : Exact m' := by
  have howns : m.owns i = (m.places i).ownership := rfl
  unfold SpinSharedMutex.next at hstep
  cases hp : m.places i with
  | outside | exclusive | shared =>
    rw [hp] at hstep
    cases hstep
  | exchange weak =>
    rw [hp] at hstep howns
    dsimp only at hstep
    split at hstep
    · next hzero =>
      cases hstep
      rw [exchange, if_pos hzero.1]
      exact h.take fun j _ => h.free_of_zero hzero.1 j
    · cases hstep
      exact h.walk howns.symm (Or.inl rfl) fun _ _ hc => by cases hc
  | tryExchange =>
    rw [hp] at hstep howns
    cases hstep
    by_cases hzero : m.count = 0
    · rw [exchange, if_pos hzero, if_pos hzero]
      exact h.take fun j _ => h.free_of_zero hzero j
    · rw [exchange, if_neg hzero, if_neg hzero]
      exact h.walk howns.symm (Or.inl rfl) fun _ _ hc => by cases hc
  | fetchAdd retries =>
    rw [hp] at hstep howns
    cases hstep
    by_cases hfail : m.count ≥ int32Max
    · rw [if_pos hfail]
      refine h.walk howns.symm (Or.inr ⟨h.exists_exclusive hthreads hfail, ?_⟩) fun _ _ hc => by cases hc
      exact int32Max_le_succ hfail (hwrap ⟨retries, hp⟩)
    · rw [if_neg hfail]
      exact h.share howns (UInt32.not_le.mp hfail)
  | load retries =>
    rw [hp] at hstep howns
    cases hstep
    by_cases hover : m.count > int32Max
    · rw [if_pos hover]
      refine h.walk howns.symm (Or.inl rfl) fun _ _ hc => ?_
      cases hc
      exact hover
    · rw [if_neg hover]
      exact h.walk (ownership_again retries ▸ howns.symm) (Or.inl rfl) fun _ _ => again_ne_reset
  | reset retries oldValue =>
    rw [hp] at hstep howns
    cases hstep
    have hagain : (Place.again retries).ownership = m.owns i := ownership_again retries ▸ howns.symm
    by_cases hdone : spurious = false ∧ m.count = oldValue
    · obtain ⟨rfl, hcount⟩ := hdone
      have hover : int32Max < m.count := hcount ▸ h.reset i retries oldValue hp
      rw [if_neg Bool.false_ne_true, exchange, if_pos hcount]
      exact h.walk hagain (Or.inr ⟨h.exists_exclusive hthreads (UInt32.le_of_lt hover),
        UInt32.le_refl _⟩) fun _ _ => again_ne_reset
    · have hsame : (if spurious then m else m.exchange oldValue) = m := by
        cases spurious with
        | true => rfl
        | false => exact if_neg fun hcount => hdone ⟨rfl, hcount⟩
      rw [hsame]
      exact h.walk hagain (Or.inl rfl) fun _ _ => again_ne_reset
  | upgrade =>
    rw [hp] at hstep howns
    cases hstep
    by_cases hone : m.count = 1
    · rw [exchange, if_pos hone, if_pos hone]
      exact h.take (h.alone_of_one hone howns)
    · rw [exchange, if_neg hone, if_neg hone]
      refine h.walk ?_ (Or.inl rfl) fun _ _ hc => ?_
      · rw [howns]
        split <;> rfl
      · split at hc <;> cases hc

theorem call {method : Method} (hstep : m.call i method = some m') : Exact m' := by
  have howns : m.owns i = (m.places i).ownership := rfl
  cases method with
  | lock | tryLock | lockShared | tryLockShared | tryUpgrade =>
    obtain ⟨hp, heq⟩ := Option.ite_none_right_eq_some.mp hstep
    cases heq
    rw [hp] at howns
    exact h.walk howns.symm (Or.inl rfl) fun _ _ hc => by cases hc
  | unlock =>
    obtain ⟨hp, heq⟩ := Option.ite_none_right_eq_some.mp hstep
    cases heq
    rw [hp] at howns
    exact h.release howns (Or.inl ⟨rfl, rfl⟩)
  | unlockShared =>
    obtain ⟨hp, heq⟩ := Option.ite_none_right_eq_some.mp hstep
    cases heq
    rw [hp] at howns
    exact h.unshare howns
  | downgrade =>
    obtain ⟨hp, heq⟩ := Option.ite_none_right_eq_some.mp hstep
    cases heq
    rw [hp] at howns
    exact h.release howns (Or.inr ⟨rfl, rfl⟩)

end Exact

theorem exact_of_reach (hthreads : Fintype.card ι < 2147483647) {m : SpinSharedMutex ι}
    (h : (asLock ι).machine.Reach NoWrap m) : Exact m := by
  refine h.invariant (I := Exact) ?_ ?_
  · intro m hinit
    cases hinit
    exact exact_init
  · intro m l m' _ hm hguard hstep
    cases l with
    | call i method => exact hm.call hstep
    | next i spurious => exact hm.next hthreads hguard hstep

theorem sound (hthreads : Fintype.card ι < 2147483647) : (asLock ι).Sound NoWrap where
  free m hinit i := by
    cases hinit
    rfl
  excludes m h := (exact_of_reach hthreads h).excludes
  others m l m' hstep j hj := by
    obtain ⟨place, hplaces⟩ := step_places hstep
    exact congrArg Place.ownership ((congrFun hplaces j).trans (Function.update_of_ne hj ..))

/-- Whatever the order in which threads lock, upgrade, downgrade and release: the data behind the lock
is what the exclusive owners made of it one after another, everybody who owns it sees no writes but
its own, and `count_` is exact, so that it is zero when nobody owns the lock. -/
theorem spin_shared_mutex_isolates (data : α) (hthreads : Fintype.card ι < 2147483647)
    {g : Lock.Guarded (SpinSharedMutex ι) ι α}
    (h : ((asLock ι).guarded data).Reach (Lock.lift NoWrap) g) :
    (asLock ι).Isolated data g ∧ Exact g.lock :=
  ⟨Lock.isolated_of_reach (sound hthreads) h, exact_of_reach hthreads (Lock.reach_lock h)⟩

instance (m : SpinSharedMutex ι) (l : Label ι) : Decidable (NoWrap m l) :=
  match l with
  | .call .. => isTrue trivial
  | .next i _ => inferInstanceAs (Decidable ((∃ retries, m.places i = .fetchAdd retries) → _))

/- While the first thread writes, the attempt of the second one is counted and undone; it shares the
   lock with the third, which upgrades it later and writes on what the first has left. -/
def upgradeRun : List (Lock.Label (Label (Fin 3)) (Fin 3) Nat) :=
  [.lock (.call 0 .lock), .lock (.next 0 true), .lock (.next 0 false), .lock (.call 1 .lockShared),
    .write 0 (· + 5), .lock (.next 1 false), .write 0 (· * 2), .lock (.next 1 false),
    .lock (.next 1 false), .lock (.call 0 .unlock), .lock (.next 1 false),
    .lock (.call 2 .tryLockShared), .lock (.next 2 false), .lock (.call 2 .tryUpgrade),
    .lock (.next 2 false), .lock (.call 1 .unlockShared), .lock (.call 2 .tryUpgrade),
    .lock (.next 2 false), .write 2 (· + 1), .lock (.call 2 .downgrade)]

theorem spin_shared_mutex_isolates_upgradeRun :
    ∃ g : Lock.Guarded (SpinSharedMutex (Fin 3)) (Fin 3) Nat,
      ((asLock (Fin 3)).guarded 1).exec { lock := {}, data := 1 } upgradeRun = some g ∧
        (asLock (Fin 3)).Isolated 1 g ∧ Exact g.lock := by
  have hrun : (((asLock (Fin 3)).guarded 1).exec { lock := {}, data := 1 } upgradeRun).isSome = true ∧
      ((asLock (Fin 3)).guarded 1).Follows (Lock.lift NoWrap) { lock := {}, data := 1 } upgradeRun := by
    decide +kernel
  obtain ⟨g, hg⟩ := Option.isSome_iff_exists.mp hrun.1
  have hinit : ((asLock (Fin 3)).guarded 1).init { lock := {}, data := 1 } := ⟨rfl, rfl, rfl, rfl⟩
  exact ⟨g, hg, spin_shared_mutex_isolates 1 (by decide)
    (Machine.Reach.exec (.init hinit) hrun.2 hg)⟩

/-! ### A count that wraps around -/

/-- The first thread owns the lock, and the second attempts to share it. -/
def attempting (count : UInt32) (place : Place) : SpinSharedMutex (Fin 2) where
  count := count
  places i := if i.val = 0 then .exclusive else place

theorem goto_attempting (count : UInt32) (place place' : Place) :
    (attempting count place).goto 1 place' = attempting count place' := by
  refine congrArg (SpinSharedMutex.mk count) (funext fun i => ?_)
  by_cases hi : i = 1
  · rw [hi, Function.update_self]
    rfl
  · rw [Function.update_of_ne hi]
    have hzero : i = 0 := by omega
    rw [hzero]
    rfl

theorem reach_load {count : UInt32} (hcount : int32Max ≤ count)
    (h : (asLock (Fin 2)).machine.Reachable (attempting count (.fetchAdd true))) :
    (asLock (Fin 2)).machine.Reachable (attempting (count + 1) (.load true)) := by
  refine h.step trivial (l := .next 1 false) ?_
  show some ((attempting (count + 1) (.fetchAdd true)).goto 1 _) = _
  rw [goto_attempting]
  exact congrArg some (congrArg _ (if_pos hcount))

/-- The thread reads the raised count, and `compare_exchange_weak` fails for no reason. -/
theorem reach_attempting (attempts : Nat) (hattempts : attempts ≤ 2147483648) :
    (asLock (Fin 2)).machine.Reachable
      (attempting (int32Max + UInt32.ofNat attempts) (.fetchAdd true)) := by
  induction attempts with
  | zero =>
    have hexec : (asLock (Fin 2)).machine.exec {} [.call 0 .lock, .next 0 false, .call 1 .lockShared] =
        some (attempting (int32Max + UInt32.ofNat 0) (.fetchAdd true)) := by
      refine congrArg some (congrArg (SpinSharedMutex.mk int32Max) (funext fun i => ?_))
      match i with
      | 0 => rfl
      | 1 => rfl
    exact Machine.reachable_of_exec rfl hexec
  | succ attempts ih =>
    have hreach := ih (by omega)
    have hcount : int32Max + UInt32.ofNat (attempts + 1) = int32Max + UInt32.ofNat attempts + 1 := by
      rw [UInt32.ofNat_add, UInt32.add_assoc]
      rfl
    have hsize : UInt32.size = 4294967296 := rfl
    have hnat : (UInt32.ofNat attempts).toNat = attempts := UInt32.toNat_ofNat_of_lt (by omega)
    have hsum : (int32Max + UInt32.ofNat attempts).toNat = 2147483647 + attempts := by
      rw [UInt32.toNat_add, hnat]
      show (2147483647 + attempts) % 2 ^ 32 = _
      omega
    have hle : int32Max ≤ int32Max + UInt32.ofNat attempts :=
      UInt32.le_iff_toNat_le.mpr (show 2147483647 ≤ _ by omega)
    have hlt : int32Max < int32Max + UInt32.ofNat attempts + 1 := by
      refine UInt32.lt_iff_toNat_lt.mpr ?_
      rw [UInt32.toNat_add, hsum]
      show 2147483647 < (2147483647 + attempts + 1) % 2 ^ 32
      omega
    rw [hcount]
    generalize int32Max + UInt32.ofNat attempts = count at hreach hle hlt
    have hload := reach_load hle hreach
    have hreset : (asLock (Fin 2)).machine.Reachable (attempting (count + 1) (.reset true (count + 1))) := by
      refine hload.step trivial (l := .next 1 false) ?_
      show some ((attempting (count + 1) (.load true)).goto 1 _) = _
      rw [goto_attempting]
      exact congrArg some (congrArg _ (if_pos hlt))
    refine hreset.step trivial (l := .next 1 true) ?_
    show some ((attempting (count + 1) (.reset true (count + 1))).goto 1 _) = _
    rw [goto_attempting]
    rfl

/-- The guard is needed: a count that has wrapped around lets a thread in beside the exclusive owner. -/
theorem shared_beside_exclusive : ∃ m, (asLock (Fin 2)).machine.Reachable m ∧ m.owns 0 = .exclusive ∧
    m.owns 1 = .shared := by
  have hreach := reach_attempting 2147483648 le_rfl
  have hload := reach_load (by decide) hreach
  have hzero : int32Max + UInt32.ofNat 2147483648 + 1 = 0 := by decide
  rw [hzero] at hload
  have hagain : (asLock (Fin 2)).machine.Reachable (attempting 0 (.fetchAdd true)) := by
    refine hload.step trivial (l := .next 1 false) ?_
    show some ((attempting 0 (.load true)).goto 1 _) = _
    rw [goto_attempting]
    rfl
  refine ⟨attempting 1 .shared, hagain.step trivial (l := .next 1 false) ?_, rfl, rfl⟩
  show some ((attempting 1 (.fetchAdd true)).goto 1 _) = _
  rw [goto_attempting]
  rfl

end SpinSharedMutex
end CosmicArchitect.TKRZW
