import CosmicArchitect.Library.Machine
import CosmicArchitect.Library.RingSlots

/-!
# The circular buffer of constant size (Util/CircularBuffer.h)

A deque in a ring of slots, one of which stays empty. Both circular buffers share the base, which
asks the derived buffer for the index behind a new last or at a new first item.
-/

namespace CosmicArchitect.Util

open Library

universe u
variable {α : Type u}

/-- `m_buffer` of a growing buffer; a freed one is still pointed to. -/
inductive BufferPointer
  | null
  | allocated
  | freed
deriving DecidableEq, Repr

/-- The pointer of a growing buffer to its storage, and a record of what was done to the heap that
not every item type, or none at all, allows: an item assigned to a slot where none is constructed,
a storage freed for the second time. -/
structure HeapStorage where
  pointer : BufferPointer := .null
  assignedRaw : Bool := false
  freedTwice : Bool := false
deriving DecidableEq, Repr

/-- The slots of the storage (`none` where no item is constructed) and the ends. -/
structure CircularBufferBase (α : Type u) where
  storage : Nat → Option α := fun _ => none
  capacity : Nat
  first : Nat := 0
  last : Nat := 0
  heap : HeapStorage := {}

namespace CircularBufferBase

/-- The slots passed from `index` to `end()`; `none` when the turns do not reach it. -/
def passed (b : CircularBufferBase α) : Nat → Nat → Option (List Nat)
  | 0, _ => none
  | turns + 1, index =>
    if index ≠ b.last then (b.passed turns ((index + 1) % b.capacity)).map (index :: ·)
    else some []

/-- The slots from `begin()` to `end()`. -/
def slots (b : CircularBufferBase α) : Option (List Nat) := b.passed (b.capacity + 1) b.first

/-- What stands in the slots visited from `begin()` to `end()`. -/
def visited (b : CircularBufferBase α) : Option (List (Option α)) := b.slots.map (·.map b.storage)

def emplaceBack (getNewLast : CircularBufferBase α → Option (Nat × CircularBufferBase α))
    (b : CircularBufferBase α) (item : α) : CircularBufferBase α :=
  let oldLast := b.last
  match getNewLast b with
  | none => b
  | some (newLast, b) =>
    { b with last := newLast, storage := Function.update b.storage oldLast (some item) }

def emplaceFront (getNewFirst : CircularBufferBase α → Option (Nat × CircularBufferBase α))
    (b : CircularBufferBase α) (item : α) : CircularBufferBase α :=
  match getNewFirst b with
  | none => b
  | some (newFirst, b) =>
    { b with first := newFirst, storage := Function.update b.storage newFirst (some item) }

def popBack (b : CircularBufferBase α) : CircularBufferBase α :=
  if b.last = b.first then b
  else
    let last := (b.last + b.capacity - 1) % b.capacity
    { b with last := last, storage := Function.update b.storage last none }

def popFront (b : CircularBufferBase α) : CircularBufferBase α :=
  if b.last = b.first then b
  else
    { b with
      storage := Function.update b.storage b.first none
      first := (b.first + 1) % b.capacity }

/-- Destroys the items it visits. -/
def clear (b : CircularBufferBase α) : CircularBufferBase α :=
  { b with
    storage := (b.slots.getD []).foldl (fun storage i => Function.update storage i none) b.storage
    first := 0
    last := 0 }

def size (b : CircularBufferBase α) : Nat :=
  if b.first > b.last then b.capacity - (b.first - b.last) else b.last - b.first

/-! ### The list a buffer stands for -/

/-- The buffer holds the items, with a slot to spare. -/
structure Represents (b : CircularBufferBase α) (items : List α) : Prop where
  holds : Ring.Holds b.storage b.capacity b.first items
  fits : items.length < b.capacity
  last : b.last = Ring.slot b.capacity b.first items.length

variable {b : CircularBufferBase α} {items : List α}

theorem Represents.last_ne (h : b.Represents items) (hpos : 0 < items.length) :
    b.last ≠ b.first := by
  have hslot := Ring.slot_inj h.holds.first_lt h.fits (Nat.lt_of_le_of_lt (Nat.zero_le _) h.fits)
  rw [Ring.slot_zero h.holds.first_lt, ← h.last] at hslot
  rw [Ne, hslot]
  omega

theorem Represents.last_eq_iff (h : b.Represents items) : b.last = b.first ↔ items = [] := by
  constructor
  · intro heq
    by_contra hne
    exact h.last_ne (List.length_pos_iff.mpr hne) heq
  · intro hnil
    rw [h.last, hnil]
    exact Ring.slot_zero h.holds.first_lt

/-- An iterator passes the slots up to the end in order. -/
theorem passed_eq {capacity : Nat} (hcapacity : b.capacity = capacity) :
    ∀ (count turns index : Nat), index < capacity → count < capacity → count < turns →
      b.last = Ring.slot capacity index count →
      b.passed turns index = some ((List.range count).map (Ring.slot capacity index)) := by
  intro count
  induction count with
  | zero =>
    intro turns index hindex _ hturns hlast
    obtain ⟨turns, rfl⟩ := Nat.exists_eq_succ_of_ne_zero (Nat.ne_of_gt hturns)
    rw [Ring.slot_zero hindex] at hlast
    simp [passed, hlast]
  | succ count ih =>
    intro turns index hindex hcount hturns hlast
    obtain ⟨turns, rfl⟩ := Nat.exists_eq_succ_of_ne_zero (Nat.ne_of_gt (Nat.zero_lt_of_lt hturns))
    have hne : index ≠ b.last := by
      have hslot := Ring.slot_inj hindex hcount (Nat.zero_lt_of_lt hcount)
      rw [Ring.slot_zero hindex, ← hlast] at hslot
      omega
    have hnext : (index + 1) % b.capacity = Ring.slot capacity index 1 := by
      rw [hcapacity, Ring.slot]
    have hrest := ih turns (Ring.slot capacity index 1) (Ring.slot_lt hindex 1) (by omega)
      (by omega) (by rw [Ring.slot_slot, hlast, Nat.add_comm])
    simp only [passed, if_pos hne, hnext, hrest, Option.map_some, List.range_succ_eq_map,
      List.map_cons, List.map_map, Ring.slot_zero hindex]
    congr 2
    refine List.map_congr_left fun i _ => ?_
    rw [Function.comp_apply, Ring.slot_slot, Nat.add_comm]

theorem Represents.slots (h : b.Represents items) :
    b.slots = some ((List.range items.length).map (Ring.slot b.capacity b.first)) :=
  passed_eq rfl _ _ _ h.holds.first_lt h.fits (Nat.lt_succ_of_lt h.fits) h.last

theorem Represents.visited (h : b.Represents items) : b.visited = some (items.map some) := by
  rw [CircularBufferBase.visited, h.slots, Option.map_some, List.map_map]
  congr 1
  refine List.ext_getElem (by simp) fun i hi _ => ?_
  rw [List.length_map, List.length_range] at hi
  rw [List.getElem_map, List.getElem_range, List.getElem_map, Function.comp_apply,
    h.holds.item i hi]

theorem Represents.size (h : b.Represents items) : b.size = items.length := by
  have hfirst := h.holds.first_lt
  have hfits := h.fits
  have hlast := h.last
  rw [Ring.slot] at hlast
  rw [CircularBufferBase.size]
  rcases Nat.lt_or_ge (b.first + items.length) b.capacity with hlt | hge
  · rw [Nat.mod_eq_of_lt hlt] at hlast
    rw [if_neg (by omega)]
    omega
  · rw [Nat.mod_eq_sub_mod hge, Nat.mod_eq_of_lt (by omega)] at hlast
    rw [if_pos (by omega)]
    omega

theorem represents_empty {capacity : Nat} (h : 1 ≤ capacity) :
    Represents ({ capacity := capacity } : CircularBufferBase α) [] :=
  ⟨Ring.Holds.nil h, h, (Ring.slot_zero h).symm⟩

theorem Represents.popBack (h : b.Represents items) : b.popBack.Represents items.dropLast := by
  by_cases hnil : items = []
  · rw [CircularBufferBase.popBack, if_pos (h.last_eq_iff.mpr hnil)]
    subst hnil
    exact h
  · have hpos : 0 < items.length := List.length_pos_iff.mpr hnil
    have hfits := h.fits
    have hnew : (b.last + b.capacity - 1) % b.capacity =
        Ring.slot b.capacity b.first (items.length - 1) := by
      have hsub : b.last + b.capacity - 1 = b.last + (b.capacity - 1) := by omega
      have hplace : items.length + (b.capacity - 1) = items.length - 1 + b.capacity := by omega
      rw [hsub, h.last]
      show Ring.slot _ (Ring.slot _ _ _) _ = _
      rw [Ring.slot_slot, hplace, Ring.slot_add_capacity]
    rw [CircularBufferBase.popBack, if_neg (h.last_ne hpos), hnew]
    refine ⟨h.holds.dropLast hpos, ?_, ?_⟩
    · rw [List.length_dropLast]
      exact Nat.lt_of_le_of_lt (Nat.sub_le _ _) hfits
    · rw [List.length_dropLast]

theorem Represents.popFront (h : b.Represents items) : b.popFront.Represents items.tail := by
  by_cases hnil : items = []
  · rw [CircularBufferBase.popFront, if_pos (h.last_eq_iff.mpr hnil)]
    subst hnil
    exact h
  · have hpos : 0 < items.length := List.length_pos_iff.mpr hnil
    have hlength : 1 + (items.length - 1) = items.length := by omega
    rw [CircularBufferBase.popFront, if_neg (h.last_ne hpos)]
    refine ⟨h.holds.tail hpos, ?_, ?_⟩
    · rw [List.length_tail]
      exact Nat.lt_of_le_of_lt (Nat.sub_le _ _) h.fits
    · show b.last = Ring.slot b.capacity (Ring.slot b.capacity b.first 1) _
      rw [List.length_tail, Ring.slot_slot, hlength, h.last]

theorem Represents.clear (h : b.Represents items) : b.clear.Represents [] := by
  have hpos : 0 < b.capacity := Nat.zero_lt_of_lt h.fits
  exact ⟨Ring.Holds.nil hpos, hpos, (Ring.slot_zero hpos).symm⟩

end CircularBufferBase

namespace CircularBuffer

/-- The index behind the last item after adding to the back; `none` out of space. -/
def getNewLast (b : CircularBufferBase α) : Option (Nat × CircularBufferBase α) :=
  let newLast := (b.last + 1) % b.capacity
  if newLast = b.first then none else some (newLast, b)

/-- The index of the first item after adding to the front; the test for a full buffer is
against the first item again. -/
def getNewFirst (b : CircularBufferBase α) : Option (Nat × CircularBufferBase α) :=
  let newFirst := (b.first + b.capacity - 1) % b.capacity
  if newFirst = b.first then none else some (newFirst, b)

inductive Call (α : Type u)
  | op (o : Deque.Op α)
  | clear
deriving DecidableEq, Repr

def call (b : CircularBufferBase α) : Call α → CircularBufferBase α
  | .op (.pushBack item) => b.emplaceBack getNewLast item
  | .op (.pushFront item) => b.emplaceFront getNewFirst item
  | .op .popBack => b.popBack
  | .op .popFront => b.popFront
  | .clear => b.clear

/-- The buffer after the calls, from the empty one. -/
def run (capacity : Nat) (calls : List (Call α)) : CircularBufferBase α :=
  calls.foldl call { capacity := capacity }

/-- A deque for one item less than the capacity. -/
def dequeCall (capacity : Nat) (items : List α) : Call α → List α
  | .op o => Deque.applyWithin (capacity - 1) items o
  | .clear => []

def deque (capacity : Nat) (calls : List (Call α)) : List α :=
  calls.foldl (dequeCall capacity) []

variable {b : CircularBufferBase α} {items : List α}

/-- A push to the back is refused exactly when the buffer is full. -/
theorem emplaceBack_represents (h : b.Represents items) (item : α) :
    (b.emplaceBack getNewLast item).Represents
      (Deque.applyWithin (b.capacity - 1) items (.pushBack item)) := by
  have hfits := h.fits
  have hfirst := h.holds.first_lt
  have hnew : (b.last + 1) % b.capacity = Ring.slot b.capacity b.first (items.length + 1) := by
    rw [h.last]
    exact Ring.slot_slot _ _
  by_cases hfull : items.length + 1 = b.capacity
  · have hrefuse : getNewLast b = none := by
      rw [getNewLast, hnew, hfull, Ring.slot_capacity hfirst]
      exact if_pos rfl
    simp only [CircularBufferBase.emplaceBack, hrefuse, Deque.applyWithin]
    rw [if_neg (by omega)]
    exact h
  · have hspace : getNewLast b = some (Ring.slot b.capacity b.first (items.length + 1), b) := by
      have hne := Ring.slot_inj hfirst (i := items.length + 1) (j := 0) (by omega) (by omega)
      rw [Ring.slot_zero hfirst] at hne
      rw [getNewLast, hnew]
      exact if_neg (by omega)
    simp only [CircularBufferBase.emplaceBack, hspace, Deque.applyWithin]
    rw [if_pos (by omega), h.last]
    refine ⟨h.holds.concat hfits item, ?_, ?_⟩
    · rw [List.length_append, List.length_singleton]
      show items.length + 1 < b.capacity
      omega
    · rw [List.length_append, List.length_singleton]

theorem newFirst_eq (h : b.Represents items) :
    (b.first + b.capacity - 1) % b.capacity =
      Ring.slot b.capacity b.first (b.capacity - 1) := by
  have hfits := h.fits
  rw [Nat.add_sub_assoc (by omega)]
  rfl

/-- With space left, or with room for no item at all, a push to the front is right. -/
theorem emplaceFront_represents (h : b.Represents items) (item : α)
    (hspace : b.capacity = 1 ∨ items.length + 1 < b.capacity) :
    (b.emplaceFront getNewFirst item).Represents
      (Deque.applyWithin (b.capacity - 1) items (.pushFront item)) := by
  have hfits := h.fits
  have hfirst := h.holds.first_lt
  have hslot := Ring.slot_inj hfirst (i := b.capacity - 1) (j := 0) (by omega) (by omega)
  rw [Ring.slot_zero hfirst] at hslot
  rcases hspace with hone | hspace
  · have hrefuse : getNewFirst b = none := by
      rw [getNewFirst, newFirst_eq h]
      exact if_pos (by omega)
    simp only [CircularBufferBase.emplaceFront, hrefuse, Deque.applyWithin]
    rw [if_neg (by omega)]
    exact h
  · have hnew : getNewFirst b = some (Ring.slot b.capacity b.first (b.capacity - 1), b) := by
      rw [getNewFirst, newFirst_eq h]
      exact if_neg (by omega)
    simp only [CircularBufferBase.emplaceFront, hnew, Deque.applyWithin]
    rw [if_pos (by omega)]
    refine ⟨h.holds.cons hfits item, hspace, ?_⟩
    show b.last = Ring.slot b.capacity (Ring.slot b.capacity b.first (b.capacity - 1)) _
    have hplace : b.capacity - 1 + (items.length + 1) = items.length + b.capacity := by omega
    rw [List.length_cons, Ring.slot_slot, hplace, Ring.slot_add_capacity, h.last]

/-- On a full buffer for one item or more a push to the front empties the buffer: its first
index comes to stand on its last. -/
theorem emplaceFront_full (h : b.Represents items) (item : α) (hone : b.capacity ≠ 1)
    (hfull : ¬items.length + 1 < b.capacity) :
    (b.emplaceFront getNewFirst item).visited = some [] := by
  have hfits := h.fits
  have hfirst := h.holds.first_lt
  have hslot := Ring.slot_inj hfirst (i := b.capacity - 1) (j := 0) (by omega) (by omega)
  rw [Ring.slot_zero hfirst] at hslot
  have hnew : getNewFirst b = some (Ring.slot b.capacity b.first (b.capacity - 1), b) := by
    rw [getNewFirst, newFirst_eq h]
    exact if_neg (by omega)
  have hlast : b.last = Ring.slot b.capacity b.first (b.capacity - 1) := by
    rw [h.last]
    congr 1
    omega
  simp [CircularBufferBase.emplaceFront, hnew, CircularBufferBase.visited,
    CircularBufferBase.slots, CircularBufferBase.passed, hlast]

theorem call_capacity (b : CircularBufferBase α) (c : Call α) :
    (call b c).capacity = b.capacity := by
  cases c with
  | clear => rfl
  | op o =>
    cases o with
    | pushBack item =>
      simp only [call, CircularBufferBase.emplaceBack, getNewLast]
      split
      next => rfl
      next heq =>
        split at heq
        · exact absurd heq (by simp)
        · obtain ⟨_, rfl⟩ := Prod.mk.inj (Option.some.inj heq)
          rfl
    | pushFront item =>
      simp only [call, CircularBufferBase.emplaceFront, getNewFirst]
      split
      next => rfl
      next heq =>
        split at heq
        · exact absurd heq (by simp)
        · obtain ⟨_, rfl⟩ := Prod.mk.inj (Option.some.inj heq)
          rfl
    | popBack =>
      simp only [call, CircularBufferBase.popBack]
      split <;> rfl
    | popFront =>
      simp only [call, CircularBufferBase.popFront]
      split <;> rfl

/-- The call is no push to the front of a full deque for one item or more. -/
def SpaceInFront (capacity : Nat) (items : List α) (c : Call α) : Prop :=
  ∀ item, c = .op (.pushFront item) → capacity = 1 ∨ items.length + 1 < capacity

/-- Each call but that one does to the buffer what it does to the deque. -/
theorem call_represents {capacity : Nat} (hsame : b.capacity = capacity) (h : b.Represents items)
    {c : Call α} (hc : SpaceInFront capacity items c) :
    (call b c).Represents (dequeCall capacity items c) := by
  subst hsame
  cases c with
  | clear => exact h.clear
  | op o =>
    cases o with
    | pushBack item => exact emplaceBack_represents h item
    | pushFront item => exact emplaceFront_represents h item (hc item rfl)
    | popBack => exact h.popBack
    | popFront => exact h.popFront

/-- After each call what is visited from `begin()` to `end()` is what the deque holds. -/
def VisitsDeque (capacity : Nat) (calls : List (Call α)) : Prop :=
  ∀ before, before <+: calls →
    (run capacity before).visited = some ((deque capacity before).map some)

/-- The buffer visits the items of a bounded deque throughout exactly when no call pushes to
the front of a full one. -/
theorem visitsDeque_iff {capacity : Nat} (hcapacity : 1 ≤ capacity) (calls : List (Call α)) :
    VisitsDeque capacity calls ↔
      ∀ before c, before ++ [c] <+: calls → SpaceInFront capacity (deque capacity before) c := by
  have hrun : ∀ (before : List (Call α)) (c : Call α),
      run capacity (before ++ [c]) = call (run capacity before) c ∧
      deque capacity (before ++ [c]) = dequeCall capacity (deque capacity before) c := by
    intro before c
    rw [run, deque, List.foldl_append, List.foldl_append]
    exact ⟨rfl, rfl⟩
  refine beginnings_good_iff
    (I := fun before => (run capacity before).Represents (deque capacity before) ∧
      (run capacity before).capacity = capacity) ?_ ?_ ?_ ?_ calls
  · exact ⟨CircularBufferBase.represents_empty hcapacity, rfl⟩
  · exact fun before h => h.1.visited
  · rintro before c ⟨h, hsame⟩ hc
    obtain ⟨hnext, hdeque⟩ := hrun before c
    rw [hnext, hdeque]
    exact ⟨call_represents hsame h hc, by rw [call_capacity, hsame]⟩
  · rintro before c ⟨h, hsame⟩ hc hvisited
    obtain ⟨hnext, hdeque⟩ := hrun before c
    simp only [SpaceInFront, not_forall, not_or] at hc
    obtain ⟨item, rfl, hone, hfull⟩ := hc
    have hfits := h.fits
    rw [hsame] at hfits
    have hempty := emplaceFront_full h item (by rw [hsame]; exact hone) (by rw [hsame]; exact hfull)
    rw [hnext, hdeque, call, hempty] at hvisited
    have hitems : deque capacity before = [] := by
      simp only [dequeCall, Deque.applyWithin] at hvisited
      rw [if_neg (by omega)] at hvisited
      simpa using hvisited
    rw [hitems, List.length_nil] at hfull hfits
    omega

/-- A buffer for two items that is turned once around and never pushed to in front when full. -/
theorem visitsDeque_iff_turned :
    let calls : List (Call Nat) := [.op (.pushBack 1), .op (.pushFront 2), .op (.pushBack 3),
      .op .popBack, .op (.pushFront 4), .op .popFront, .clear, .op (.pushFront 5)]
    VisitsDeque 3 calls ↔
      ∀ before c, before ++ [c] <+: calls → SpaceInFront 3 (deque 3 before) c :=
  visitsDeque_iff (by decide) _

/-- A push to the front of a full buffer loses all its items. -/
theorem pushFront_full_empties :
    let calls : List (Call Nat) := [.op (.pushBack 1), .op (.pushBack 2), .op (.pushFront 3)]
    (run 3 calls).visited = some [] ∧ deque 3 calls = [1, 2] ∧ ¬VisitsDeque 3 calls := by
  intro calls
  have hvisited : (run 3 calls).visited = some [] := by rfl
  have hdeque : deque 3 calls = [1, 2] := by rfl
  refine ⟨hvisited, hdeque, fun h => ?_⟩
  have hall := h calls List.prefix_rfl
  rw [hvisited, hdeque] at hall
  exact absurd hall (by decide)

end CircularBuffer
end CosmicArchitect.Util
