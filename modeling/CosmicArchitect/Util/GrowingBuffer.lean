import CosmicArchitect.Util.CircularBuffer
import CosmicArchitect.Util.SmallVector

/-!
# The growing circular buffer (Util/CircularBuffer.h)

A push that finds no slot to spare moves the items to a buffer twice as large, from its slot 0
on. A push to the back has read the old last index by then. The items are assigned to the new
buffer, where none is constructed.
-/

namespace CosmicArchitect.Util.GrowingCircularBuffer

open Library

universe u
variable {α : Type u}

/-- `delete[] m_buffer` -/
def deleteBuffer (h : HeapStorage) : HeapStorage :=
  { h with pointer := .freed, freedTwice := h.freedTwice || h.pointer = .freed }

/-- The items are assigned to the new buffer in the order they are visited. -/
def reserve (b : CircularBufferBase α) (newCapacity : Nat) : CircularBufferBase α :=
  let newCapacity := if newCapacity < 4 then 4 else newCapacity
  let oldSize := b.size
  let moved := if b.heap.pointer ≠ .null then b.slots.getD [] else []
  let heap := if b.heap.pointer ≠ .null then deleteBuffer b.heap else b.heap
  { storage := fun i => moved[i]?.bind b.storage
    capacity := newCapacity
    first := 0
    last := oldSize
    heap := { heap with
      pointer := .allocated
      assignedRaw := heap.assignedRaw || !moved.isEmpty } }

def grow (b : CircularBufferBase α) : CircularBufferBase α := reserve b (b.capacity * 2)

/-- The test both of the functions below begin with. -/
def growWhenFull (b : CircularBufferBase α) : CircularBufferBase α :=
  if b.size + 1 ≥ b.capacity then grow b else b

def getNewLast (b : CircularBufferBase α) : Option (Nat × CircularBufferBase α) :=
  let b := growWhenFull b
  some ((b.last + 1) % b.capacity, b)

def getNewFirst (b : CircularBufferBase α) : Option (Nat × CircularBufferBase α) :=
  let b := growWhenFull b
  some ((b.first + b.capacity - 1) % b.capacity, b)

def apply (b : CircularBufferBase α) : Deque.Op α → CircularBufferBase α
  | .pushBack item => b.emplaceBack getNewLast item
  | .pushFront item => b.emplaceFront getNewFirst item
  | .popBack => b.popBack
  | .popFront => b.popFront

/-- A new buffer, with or without a capacity to reserve. -/
def construct : Option Nat → CircularBufferBase α
  | none => { capacity := 0 }
  | some capacity => reserve { capacity := 0 } capacity

def run (initial : Option Nat) (ops : List (Deque.Op α)) : CircularBufferBase α :=
  ops.foldl apply (construct initial)

def deque (ops : List (Deque.Op α)) : List α := ops.foldl Deque.apply []

/-! ### The list a buffer stands for -/

/-- A buffer not allocated yet holds nothing. -/
inductive Contains (b : CircularBufferBase α) (items : List α) : Prop
  | unallocated (capacity : b.capacity = 0) (first : b.first = 0) (last : b.last = 0)
      (nil : items = []) (pointer : b.heap.pointer = .null)
  | allocated (represents : b.Represents items) (pointer : b.heap.pointer = .allocated)

/-- What was done to the heap is defined for items of this type. -/
structure Defined (T : ItemType α) (b : CircularBufferBase α) : Prop where
  assigns : b.heap.assignedRaw = true → T.assignsRaw = true
  freed : b.heap.freedTwice = false

variable {T : ItemType α} {b : CircularBufferBase α} {items : List α}

theorem Contains.visited (h : Contains b items) : b.visited = some (items.map some) := by
  cases h with
  | unallocated capacity first last nil _ =>
    simp [CircularBufferBase.visited, CircularBufferBase.slots, CircularBufferBase.passed, first,
      last, nil]
  | allocated represents _ => exact represents.visited

theorem Contains.size (h : Contains b items) : b.size = items.length := by
  cases h with
  | unallocated capacity first last nil _ =>
    simp [CircularBufferBase.size, first, last, nil]
  | allocated represents _ => exact represents.size

theorem popBack_heap (b : CircularBufferBase α) : b.popBack.heap = b.heap := by
  rw [CircularBufferBase.popBack]
  split <;> rfl

theorem popFront_heap (b : CircularBufferBase α) : b.popFront.heap = b.heap := by
  rw [CircularBufferBase.popFront]
  split <;> rfl

theorem Contains.popBack (h : Contains b items) : Contains b.popBack items.dropLast := by
  cases h with
  | unallocated capacity first last nil pointer =>
    rw [CircularBufferBase.popBack, if_pos (by rw [first, last]), nil]
    exact .unallocated capacity first last rfl pointer
  | allocated represents pointer =>
    exact .allocated represents.popBack (by rw [popBack_heap]; exact pointer)

theorem Contains.popFront (h : Contains b items) : Contains b.popFront items.tail := by
  cases h with
  | unallocated capacity first last nil pointer =>
    rw [CircularBufferBase.popFront, if_pos (by rw [first, last]), nil]
    exact .unallocated capacity first last rfl pointer
  | allocated represents pointer =>
    exact .allocated represents.popFront (by rw [popFront_heap]; exact pointer)

/-- The items are written to the new buffer from slot 0 on, and the old one is freed once. -/
theorem Contains.reserve_eq (h : Contains b items) (newCapacity : Nat) :
    reserve b newCapacity =
      { storage := fun i => items[i]?
        capacity := if newCapacity < 4 then 4 else newCapacity
        first := 0
        last := items.length
        heap := {
          pointer := .allocated
          assignedRaw := b.heap.assignedRaw || !items.isEmpty
          freedTwice := b.heap.freedTwice } } := by
  have hsize := h.size
  cases h with
  | unallocated capacity first last nil pointer =>
    simp only [reserve, pointer, ne_eq, not_true_eq_false, if_false, hsize, nil]
    congr 1
  | allocated represents pointer =>
    have hnull : b.heap.pointer ≠ .null := by simp [pointer]
    have hfreed : deleteBuffer b.heap = { b.heap with pointer := .freed } := by
      simp [deleteBuffer, pointer]
    have hempty : ((List.range items.length).map (Ring.slot b.capacity b.first)).isEmpty =
        items.isEmpty := by
      cases items <;> simp
    have hmoved : ∀ i : Nat, ((List.range items.length).map (Ring.slot b.capacity b.first))[i]?.bind
        b.storage = items[i]? := by
      intro i
      rw [List.getElem?_map]
      rcases Nat.lt_or_ge i items.length with hlt | hge
      · rw [List.getElem?_range hlt, Option.map_some, Option.bind_some,
          represents.holds.item i hlt, List.getElem?_eq_getElem hlt]
      · rw [List.getElem?_eq_none (by simpa using hge), List.getElem?_eq_none hge]
        rfl
    simp only [reserve, if_pos hnull, represents.slots, Option.getD_some, hfreed, hempty, hmoved,
      hsize]

theorem Contains.reserved (h : Contains b items) {newCapacity : Nat}
    (hfits : items.length < if newCapacity < 4 then 4 else newCapacity) :
    (reserve b newCapacity).Represents items := by
  rw [h.reserve_eq]
  have hpos := Nat.zero_lt_of_lt hfits
  refine ⟨Ring.Holds.linear items (Nat.le_of_lt hfits) hpos, hfits, ?_⟩
  show items.length = Ring.slot _ 0 items.length
  rw [Ring.slot, Nat.zero_add, Nat.mod_eq_of_lt hfits]

/-- A buffer that has to grow is full to its last slot but one, or not allocated. -/
theorem Contains.full (h : Contains b items) (hfull : b.size + 1 ≥ b.capacity) :
    items.length < if b.capacity * 2 < 4 then 4 else b.capacity * 2 := by
  rw [h.size] at hfull
  cases h with
  | unallocated capacity first last nil _ => simp [capacity, nil]
  | allocated represents _ =>
    have hfits := represents.fits
    split <;> omega

/-- Behind the test there is a slot for one more item. -/
theorem Contains.grown (h : Contains b items) :
    (growWhenFull b).Represents items ∧ items.length + 1 < (growWhenFull b).capacity ∧
      (growWhenFull b).heap.pointer = .allocated := by
  by_cases hfull : b.size + 1 ≥ b.capacity
  · have hgrown : growWhenFull b = grow b := if_pos hfull
    have hroom := h.full hfull
    rw [hgrown]
    refine ⟨h.reserved hroom, ?_, rfl⟩
    rw [h.size] at hfull
    cases h with
    | unallocated capacity first last nil _ =>
      show _ < if b.capacity * 2 < 4 then 4 else b.capacity * 2
      simp [capacity, nil]
    | allocated represents _ =>
      have hfits := represents.fits
      have hcapacity : (grow b).capacity = if b.capacity * 2 < 4 then 4 else b.capacity * 2 := rfl
      rw [hcapacity]
      split <;> omega
  · have hsame : growWhenFull b = b := if_neg hfull
    rw [hsame]
    rw [h.size] at hfull
    cases h with
    | unallocated capacity first last nil _ => omega
    | allocated represents pointer => exact ⟨represents, by omega, pointer⟩

/-- Growing assigns the items there are to raw memory. -/
theorem Contains.grown_defined (h : Contains b items) (hd : Defined T b) :
    Defined T (growWhenFull b) ↔
      (b.size + 1 ≥ b.capacity → b.size = 0 ∨ T.assignsRaw = true) := by
  by_cases hfull : b.size + 1 ≥ b.capacity
  · have hgrown : growWhenFull b = grow b := if_pos hfull
    rw [hgrown, grow, h.reserve_eq, h.size, imp_iff_right (h.size ▸ hfull)]
    constructor
    · intro hdefined
      rcases items.eq_nil_or_concat with rfl | ⟨xs, x, rfl⟩
      · exact Or.inl rfl
      · exact Or.inr (hdefined.assigns (by simp))
    · intro hor
      refine ⟨fun hraw => ?_, hd.freed⟩
      rcases hor with hzero | hassigns
      · rw [List.length_eq_zero_iff] at hzero
        subst hzero
        exact hd.assigns (by simpa using hraw)
      · exact hassigns
  · have hsame : growWhenFull b = b := if_neg hfull
    rw [hsame]
    exact iff_of_true hd fun h => absurd h hfull

theorem construct_contains (initial : Option Nat) :
    Contains (construct initial : CircularBufferBase α) [] := by
  have hempty : Contains ({ capacity := 0 } : CircularBufferBase α) [] :=
    .unallocated rfl rfl rfl rfl rfl
  cases initial with
  | none => exact hempty
  | some capacity =>
    refine .allocated (hempty.reserved ?_) rfl
    rw [List.length_nil]
    split <;> omega

theorem construct_defined (T : ItemType α) (initial : Option Nat) : Defined T (construct initial) := by
  cases initial with
  | none => exact ⟨fun h => absurd h Bool.false_ne_true, rfl⟩
  | some capacity => exact ⟨fun h => absurd h Bool.false_ne_true, rfl⟩

/-! ### Pushes -/

/-- The operation is no push that makes a buffer grow whose items must not be assigned to raw
memory, and none to the back that makes one grow whose first item lies behind slot 0. -/
def GrowsInPlace (T : ItemType α) (b : CircularBufferBase α) (o : Deque.Op α) : Prop :=
  (∀ item, o = .pushBack item ∨ o = .pushFront item → b.size + 1 ≥ b.capacity →
    b.size = 0 ∨ T.assignsRaw = true) ∧
  ∀ item, o = .pushBack item → b.size + 1 ≥ b.capacity → b.first = 0

theorem Contains.grown_last (h : Contains b items)
    (hfirst : b.size + 1 ≥ b.capacity → b.first = 0) : (growWhenFull b).last = b.last := by
  by_cases hfull : b.size + 1 ≥ b.capacity
  · have hgrown : growWhenFull b = grow b := if_pos hfull
    rw [hgrown, grow, h.reserve_eq]
    show items.length = b.last
    cases h with
    | unallocated capacity first last nil _ => rw [last, nil, List.length_nil]
    | allocated represents _ =>
      rw [represents.last, hfirst hfull, Ring.slot, Nat.zero_add, Nat.mod_eq_of_lt represents.fits]
  · exact congrArg CircularBufferBase.last (if_neg hfull)

theorem emplaceBack_represents (h : Contains b items) (item : α)
    (hfirst : b.size + 1 ≥ b.capacity → b.first = 0) :
    (b.emplaceBack getNewLast item).Represents (items ++ [item]) := by
  obtain ⟨hgrown, hroom, -⟩ := h.grown
  simp only [CircularBufferBase.emplaceBack, getNewLast]
  rw [← h.grown_last hfirst, hgrown.last]
  refine ⟨hgrown.holds.concat hgrown.fits item, ?_, ?_⟩
  · rw [List.length_append, List.length_singleton]
    exact hroom
  · rw [List.length_append, List.length_singleton]
    exact Ring.slot_slot _ _

theorem emplaceFront_represents (h : Contains b items) (item : α) :
    (b.emplaceFront getNewFirst item).Represents (item :: items) := by
  obtain ⟨hgrown, hroom, -⟩ := h.grown
  have hnew : ((growWhenFull b).first + (growWhenFull b).capacity - 1) % (growWhenFull b).capacity =
      Ring.slot (growWhenFull b).capacity (growWhenFull b).first ((growWhenFull b).capacity - 1) := by
    rw [Nat.add_sub_assoc (by omega)]
    rfl
  simp only [CircularBufferBase.emplaceFront, getNewFirst, hnew]
  refine ⟨hgrown.holds.cons hgrown.fits item, hroom, ?_⟩
  show (growWhenFull b).last = Ring.slot _ (Ring.slot _ _ _) _
  have hplace : (growWhenFull b).capacity - 1 + (items.length + 1) =
      items.length + (growWhenFull b).capacity := by omega
  rw [List.length_cons, Ring.slot_slot, hplace, Ring.slot_add_capacity, hgrown.last]

/-- Written at the stale index, the new item leaves the last slot without one. -/
theorem emplaceBack_stale (h : Contains b items) (item : α) (hfull : b.size + 1 ≥ b.capacity)
    (hfirst : b.first ≠ 0) :
    (b.emplaceBack getNewLast item).visited ≠ some ((items ++ [item]).map some) := by
  obtain ⟨hgrown, hroom, -⟩ := h.grown
  have heq : growWhenFull b = _ := (if_pos hfull).trans (h.reserve_eq _)
  have hstale : b.last ≠ items.length := by
    rw [h.size] at hfull
    cases h with
    | unallocated capacity first last nil _ => exact absurd first hfirst
    | allocated represents _ =>
      have hlt := represents.holds.first_lt
      have hfits := represents.fits
      have hwrap : b.last = b.first - 1 := by
        rw [represents.last, Ring.slot, Nat.mod_eq_sub_mod (by omega), Nat.mod_eq_of_lt (by omega)]
        omega
      omega
  intro hvisited
  have hslots : (b.emplaceBack getNewLast item).slots = some ((List.range (items.length + 1)).map
      (Ring.slot (growWhenFull b).capacity (growWhenFull b).first)) := by
    refine CircularBufferBase.passed_eq rfl _ _ _ hgrown.holds.first_lt hroom (by
      simp only [CircularBufferBase.emplaceBack, getNewLast]
      omega) ?_
    simp only [CircularBufferBase.emplaceBack, getNewLast]
    rw [hgrown.last]
    exact Ring.slot_slot _ _
  have hlast : (b.emplaceBack getNewLast item).storage
      (Ring.slot (growWhenFull b).capacity (growWhenFull b).first items.length) = none := by
    simp only [CircularBufferBase.emplaceBack, getNewLast]
    rw [← hgrown.last, Function.update_of_ne, heq]
    · exact List.getElem?_eq_none (Nat.le_refl _)
    · rw [heq]
      exact hstale.symm
  rw [CircularBufferBase.visited, hslots, Option.map_some, List.range_succ] at hvisited
  simp [hlast] at hvisited

theorem apply_contains (h : Contains b items) {o : Deque.Op α} (ho : GrowsInPlace T b o) :
    Contains (apply b o) (Deque.apply items o) := by
  obtain ⟨-, -, hpointer⟩ := h.grown
  cases o with
  | pushBack item => exact .allocated (emplaceBack_represents h item (ho.2 item rfl)) hpointer
  | pushFront item => exact .allocated (emplaceFront_represents h item) hpointer
  | popBack => exact h.popBack
  | popFront => exact h.popFront

/-- Only growing does something to the heap. -/
theorem apply_defined_iff (h : Contains b items) (hd : Defined T b) (o : Deque.Op α) :
    Defined T (apply b o) ↔ ∀ item, o = .pushBack item ∨ o = .pushFront item →
      b.size + 1 ≥ b.capacity → b.size = 0 ∨ T.assignsRaw = true := by
  have hsame : ∀ {b' : CircularBufferBase α}, b'.heap = (growWhenFull b).heap →
      (Defined T b' ↔ (b.size + 1 ≥ b.capacity → b.size = 0 ∨ T.assignsRaw = true)) := by
    intro b' hheap
    rw [← h.grown_defined hd]
    exact ⟨fun hd' => ⟨hheap ▸ hd'.assigns, hheap ▸ hd'.freed⟩,
      fun hd' => ⟨hheap.symm ▸ hd'.assigns, hheap.symm ▸ hd'.freed⟩⟩
  have hpop : ∀ {b' : CircularBufferBase α}, b'.heap = b.heap → Defined T b' := by
    intro b' hheap
    exact ⟨hheap.symm ▸ hd.assigns, hheap.symm ▸ hd.freed⟩
  cases o with
  | pushBack item =>
    refine Iff.trans (hsame rfl) ?_
    exact ⟨fun himp _ _ => himp, fun hall => hall item (Or.inl rfl)⟩
  | pushFront item =>
    refine Iff.trans (hsame rfl) ?_
    exact ⟨fun himp _ _ => himp, fun hall => hall item (Or.inr rfl)⟩
  | popBack => exact iff_of_true (hpop (popBack_heap b)) fun item heq => by simp at heq
  | popFront => exact iff_of_true (hpop (popFront_heap b)) fun item heq => by simp at heq

/-- After each operation what is visited from `begin()` to `end()` is what the deque holds, and
nothing was done to the heap that is not defined for the item type. -/
def VisitsDeque (T : ItemType α) (initial : Option Nat) (ops : List (Deque.Op α)) : Prop :=
  ∀ before, before <+: ops → Defined T (run initial before) ∧
    (run initial before).visited = some ((deque before).map some)

end CosmicArchitect.Util.GrowingCircularBuffer
