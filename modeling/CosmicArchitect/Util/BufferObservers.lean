import CosmicArchitect.Util.GrowingBuffer
import CosmicArchitect.Util.GrowingSmallVector

/-!
# What is seen of a circular buffer (Util/CircularBuffer.h)

The observers compute a slot each from the ends of the buffer. They are stated of every state with
its ends within the capacity, whatever stands in the slots.
-/

namespace CosmicArchitect.Util

open Library

universe u
variable {α : Type u}

namespace CircularBufferBase

/-- The slot that `at` refers to. -/
def atSlot (b : CircularBufferBase α) (index : Nat) : Nat := (b.first + index) % b.capacity

def frontSlot (b : CircularBufferBase α) : Nat := b.first

def backSlot (b : CircularBufferBase α) : Nat := b.last

/-- The slot whose item the next `pop_back` destroys. -/
def popBackSlot (b : CircularBufferBase α) : Nat := (b.last + b.capacity - 1) % b.capacity

/-- Both ends are slots of the buffer, or it is empty and not allocated any more, or not yet. -/
inductive Indexed (b : CircularBufferBase α) : Prop
  | unallocated (capacity : b.capacity = 0) (first : b.first = 0) (last : b.last = 0)
      (pointer : b.heap.pointer ≠ .allocated)
  | allocated (first : b.first < b.capacity) (last : b.last < b.capacity)
      (pointer : b.heap.pointer = .allocated)

variable {b : CircularBufferBase α}

theorem popBack_storage (h : b.last ≠ b.first) :
    b.popBack.storage = Function.update b.storage b.popBackSlot none := by
  rw [popBack, if_neg h]
  rfl

/-- The last slot is `size` places behind the first. -/
theorem last_eq (first : b.first < b.capacity) (last : b.last < b.capacity) :
    b.size < b.capacity ∧ b.last = Ring.slot b.capacity b.first b.size := by
  rw [size, Ring.slot]
  split
  · next hwrap =>
    have hsum : b.first + (b.capacity - (b.first - b.last)) = b.last + b.capacity := by omega
    rw [hsum, Nat.add_mod_right, Nat.mod_eq_of_lt last]
    omega
  · next hwrap =>
    have hsum : b.first + (b.last - b.first) = b.last := by omega
    rw [hsum, Nat.mod_eq_of_lt last]
    omega

theorem slots_eq (first : b.first < b.capacity) (last : b.last < b.capacity) :
    b.slots = some ((List.range b.size).map (Ring.slot b.capacity b.first)) := by
  obtain ⟨hsize, hlast⟩ := last_eq first last
  exact passed_eq rfl _ _ _ first hsize (Nat.lt_succ_of_lt hsize) hlast

theorem Indexed.slots (h : Indexed b) :
    b.slots = some ((List.range b.size).map (Ring.slot b.capacity b.first)) := by
  cases h with
  | unallocated capacity first last _ =>
    simp [CircularBufferBase.slots, passed, size, capacity, first, last]
  | allocated first last _ => exact slots_eq first last

/-- All but `back` speak of the slots visited from `begin()` to `end()`. -/
structure Observes (b : CircularBufferBase α) : Prop where
  size : ∃ slots, b.slots = some slots ∧ b.size = slots.length
  index : ∃ slots, b.slots = some slots ∧ ∀ i < b.size, slots[i]? = some (b.atSlot i)
  front : b.frontSlot = b.atSlot 0
  popBack : b.atSlot (b.size - 1) = b.popBackSlot ∧
    b.popBack.storage = Function.update b.storage b.popBackSlot none

/-- And `back` as well. -/
structure Agrees (b : CircularBufferBase α) : Prop extends Observes b where
  back : b.backSlot = b.atSlot (b.size - 1)

theorem observes (first : b.first < b.capacity) (last : b.last < b.capacity)
    (hne : b.first ≠ b.last) : Observes b := by
  obtain ⟨hsize, hlast⟩ := last_eq first last
  have hslots := slots_eq first last
  have hpos : 0 < b.size := by
    rw [CircularBufferBase.size]
    split <;> omega
  refine ⟨⟨_, hslots, by simp⟩, ⟨_, hslots, fun i hi => ?_⟩, ?_, ?_, popBack_storage hne.symm⟩
  · simp [hi, atSlot, Ring.slot]
  · exact (Ring.slot_zero first).symm
  · have hback : b.last + b.capacity - 1 = b.last + (b.capacity - 1) := by omega
    have hplace : b.size + (b.capacity - 1) = b.size - 1 + b.capacity := by omega
    rw [popBackSlot, hback]
    conv_rhs => rw [hlast]
    show _ = Ring.slot b.capacity (Ring.slot b.capacity b.first b.size) (b.capacity - 1)
    rw [Ring.slot_slot, hplace, Ring.slot_add_capacity]
    rfl

/-- The slot `back` refers to is the one behind the last item. -/
theorem not_agrees (first : b.first < b.capacity) (hne : b.first ≠ b.last) : ¬Agrees b := by
  intro h
  have hback := h.back
  have hcapacity : 0 < b.capacity := Nat.zero_lt_of_lt first
  have hlt : b.atSlot (b.size - 1) < b.capacity := Nat.mod_lt _ hcapacity
  rw [backSlot] at hback
  have hlast : b.last < b.capacity := by omega
  obtain ⟨hsize, hslot⟩ := last_eq first hlast
  have hpos : 0 < b.size := by
    rw [CircularBufferBase.size]
    split <;> omega
  have hplace : b.atSlot (b.size - 1) = Ring.slot b.capacity b.first (b.size - 1) := rfl
  rw [hplace, hslot, Ring.slot_inj first hsize (by omega)] at hback
  omega

end CircularBufferBase

open CircularBufferBase

/-! ### The states a buffer gets into -/

namespace CircularBuffer
variable {b : CircularBufferBase α}

theorem call_ends (c : Call α) (first : b.first < b.capacity) (last : b.last < b.capacity) :
    (call b c).first < (call b c).capacity ∧ (call b c).last < (call b c).capacity := by
  have hpos : 0 < b.capacity := Nat.zero_lt_of_lt first
  rw [call_capacity]
  cases c with
  | clear => exact ⟨hpos, hpos⟩
  | op o =>
    cases o with
    | pushBack item =>
      simp only [call, emplaceBack, getNewLast]
      by_cases hfull : (b.last + 1) % b.capacity = b.first
      · simp only [if_pos hfull]
        exact ⟨first, last⟩
      · simp only [if_neg hfull]
        exact ⟨first, Nat.mod_lt _ hpos⟩
    | pushFront item =>
      simp only [call, emplaceFront, getNewFirst]
      by_cases hfull : (b.first + b.capacity - 1) % b.capacity = b.first
      · simp only [if_pos hfull]
        exact ⟨first, last⟩
      · simp only [if_neg hfull]
        exact ⟨Nat.mod_lt _ hpos, last⟩
    | popBack =>
      simp only [call, CircularBufferBase.popBack]
      split
      · exact ⟨first, last⟩
      · exact ⟨first, Nat.mod_lt _ hpos⟩
    | popFront =>
      simp only [call, CircularBufferBase.popFront]
      split
      · exact ⟨first, last⟩
      · exact ⟨Nat.mod_lt _ hpos, last⟩

theorem run_ends {capacity : Nat} (hcapacity : 1 ≤ capacity) (calls : List (Call α)) :
    (run capacity calls).first < (run capacity calls).capacity ∧
      (run capacity calls).last < (run capacity calls).capacity := by
  induction calls using List.reverseRecOn with
  | nil => exact ⟨hcapacity, hcapacity⟩
  | append_singleton calls c ih =>
    rw [run, List.foldl_append]
    exact call_ends c ih.1 ih.2

end CircularBuffer

namespace GrowingCircularBuffer
variable {b : CircularBufferBase α}

/-- `clear` frees the buffer and keeps the pointer to it. -/
def clear (b : CircularBufferBase α) : CircularBufferBase α :=
  { b.clear with
    capacity := 0
    heap := if b.heap.pointer ≠ .null then deleteBuffer b.heap else b.heap }

def Grows (b : CircularBufferBase α) (o : Deque.Op α) : Prop :=
  (∃ item, o = .pushBack item ∨ o = .pushFront item) ∧ b.size + 1 ≥ b.capacity

/-- A call that moves or destroys the items returns when their iteration ends. -/
inductive Reached : CircularBufferBase α → Prop
  | construct (initial : Option Nat) : Reached (construct initial)
  | op {b : CircularBufferBase α} (h : Reached b) (o : Deque.Op α)
      (ends : Grows b o → b.slots.isSome) : Reached (apply b o)
  | reserve {b : CircularBufferBase α} (h : Reached b) (newCapacity : Nat)
      (ends : b.slots.isSome) : Reached (reserve b newCapacity)
  | clear {b : CircularBufferBase α} (h : Reached b) (ends : b.slots.isSome) : Reached (clear b)

/-- The first end is a slot of the buffer, or it is empty and not allocated. -/
def FirstIndexed (b : CircularBufferBase α) : Prop :=
  b.first < b.capacity ∨ (b.capacity = 0 ∧ b.first = 0 ∧ b.last = 0)

theorem reserve_first (b : CircularBufferBase α) (newCapacity : Nat) :
    (reserve b newCapacity).first < (reserve b newCapacity).capacity := by
  show 0 < if newCapacity < 4 then 4 else newCapacity
  split <;> omega

theorem growWhenFull_first (h : FirstIndexed b) :
    (growWhenFull b).first < (growWhenFull b).capacity := by
  rw [growWhenFull]
  split
  · exact reserve_first b _
  · next hroom => exact h.resolve_right fun hnone => hroom (by omega)

theorem reached_first (h : Reached b) : FirstIndexed b := by
  induction h with
  | construct initial =>
    cases initial with
    | none => exact Or.inr ⟨rfl, rfl, rfl⟩
    | some capacity => exact Or.inl (reserve_first _ _)
  | reserve h newCapacity ends ih => exact Or.inl (reserve_first _ _)
  | clear h ends ih => exact Or.inr ⟨rfl, rfl, rfl⟩
  | op h o ends ih =>
    have hgrown := growWhenFull_first ih
    cases o with
    | pushBack item => exact Or.inl hgrown
    | pushFront item => exact Or.inl (Nat.mod_lt _ (Nat.zero_lt_of_lt hgrown))
    | popBack =>
      simp only [apply, CircularBufferBase.popBack]
      split
      · exact ih
      · next hne => exact Or.inl (ih.resolve_right fun hnone => hne (hnone.2.2.trans hnone.2.1.symm))
    | popFront =>
      simp only [apply, CircularBufferBase.popFront]
      split
      · exact ih
      · next hne =>
        have hfirst := ih.resolve_right fun hnone => hne (hnone.2.2.trans hnone.2.1.symm)
        exact Or.inl (Nat.mod_lt _ (Nat.zero_lt_of_lt hfirst))

end GrowingCircularBuffer

/-- In no state but an empty one do the observers agree: `back` is one slot off. The others are
right wherever the ends are slots of the buffer. -/
theorem observers_disagree :
    (∀ (capacity : Nat) (calls : List (CircularBuffer.Call α)), 1 ≤ capacity →
      (CircularBuffer.run capacity calls).first ≠ (CircularBuffer.run capacity calls).last →
      Observes (CircularBuffer.run capacity calls) ∧ ¬Agrees (CircularBuffer.run capacity calls)) ∧
    (∀ b : CircularBufferBase α, GrowingCircularBuffer.Reached b → b.first ≠ b.last →
      (b.last < b.capacity → Observes b) ∧ ¬Agrees b) := by
  constructor
  · intro capacity calls hcapacity hne
    obtain ⟨first, last⟩ := CircularBuffer.run_ends hcapacity calls
    exact ⟨observes first last hne, not_agrees first hne⟩
  · intro b h hne
    have first : b.first < b.capacity :=
      (GrowingCircularBuffer.reached_first h).resolve_right fun hnone => hne (by omega)
    exact ⟨fun last => observes first last hne, not_agrees first hne⟩

theorem observers_disagree_turned :
    let b := CircularBuffer.run 4 [.op (.pushFront 2), .op (.pushBack 3), .op (.pushFront 1)]
    let b' := GrowingCircularBuffer.apply (GrowingCircularBuffer.construct (some 6)) (.pushFront 7)
    (Observes b ∧ ¬Agrees b) ∧ (b'.last < b'.capacity → Observes b') ∧ ¬Agrees b' :=
  ⟨observers_disagree.1 4 _ (by decide) (by decide),
    observers_disagree.2 _ (.op (.construct (some 6)) _ fun _ => by decide) (by decide)⟩

/-- Of two items `back` refers to neither. -/
theorem back_two :
    let b := CircularBuffer.run 4 [.op (.pushBack 1), .op (.pushBack 2)]
    b.storage b.backSlot = none ∧ b.storage (b.atSlot (b.size - 1)) = some 2 ∧ ¬Agrees b := by
  refine ⟨by decide, by decide, fun h => ?_⟩
  exact absurd h.back (by decide)

/-! ### Reserving -/

namespace GrowingCircularBuffer
variable {b : CircularBufferBase α}

/-- The number of items that `reserve` writes to the new buffer, from its start on. -/
def movedItems (b : CircularBufferBase α) : Nat :=
  if b.heap.pointer ≠ .null then (b.slots.getD []).length else 0

/-- The items visited are the same, a slot stays free, no item is written outside of the bytes of
the new buffer, and nothing is done to the heap that is not defined. -/
structure Reserves (T : ItemType α) (b : CircularBufferBase α) (newCapacity : Nat) : Prop where
  visited : (reserve b newCapacity).visited = b.visited
  size : (reserve b newCapacity).size < (reserve b newCapacity).capacity
  room : ∀ i < movedItems b, i < GrowingSmallVector.bufferRoom T (reserve b newCapacity).capacity
  defined : Defined T (reserve b newCapacity)

theorem movedItems_eq (h : Indexed b) : movedItems b = b.size := by
  rw [movedItems, h.slots]
  cases h with
  | unallocated capacity first last _ => simp [CircularBufferBase.size, first, last]
  | allocated first last pointer => simp [pointer]

theorem reserve_size (b : CircularBufferBase α) (newCapacity : Nat) :
    (reserve b newCapacity).size = b.size := by
  simp [CircularBufferBase.size, reserve]

theorem reserve_storage (h : Indexed b) (newCapacity : Nat) {i : Nat} (hi : i < b.size) :
    (reserve b newCapacity).storage i = b.storage (Ring.slot b.capacity b.first i) := by
  simp only [reserve, h.slots]
  cases h with
  | unallocated capacity first last _ =>
    rw [CircularBufferBase.size, first, last] at hi
    exact absurd hi (Nat.not_lt_zero i)
  | allocated first last pointer => simp [pointer, hi]

theorem reserve_visited (h : Indexed b) {newCapacity : Nat}
    (hlt : b.size < (reserve b newCapacity).capacity) :
    (reserve b newCapacity).visited = b.visited := by
  have hsize := reserve_size b newCapacity
  have hslots := slots_eq (reserve_first b newCapacity)
    (show (reserve b newCapacity).last < (reserve b newCapacity).capacity from hlt)
  rw [CircularBufferBase.visited, CircularBufferBase.visited, hslots, h.slots, hsize,
    Option.map_some, Option.map_some, List.map_map, List.map_map]
  refine congrArg some (List.map_congr_left fun i hi => ?_)
  have hi' := List.mem_range.mp hi
  have hslot : Ring.slot (reserve b newCapacity).capacity (reserve b newCapacity).first i = i := by
    show (0 + i) % _ = i
    rw [Nat.zero_add, Nat.mod_eq_of_lt (Nat.lt_trans hi' hlt)]
  rw [Function.comp_apply, hslot]
  exact reserve_storage h newCapacity hi'

/-- A buffer that was freed is freed again; the items of one that was not are assigned to raw
memory. -/
theorem reserve_defined_iff {T : ItemType α} (h : Indexed b) (hd : Defined T b)
    (newCapacity : Nat) : Defined T (reserve b newCapacity) ↔
      b.heap.pointer ≠ .freed ∧ (b.size = 0 ∨ T.assignsRaw = true) := by
  have hheap : (reserve b newCapacity).heap = {
      pointer := .allocated
      assignedRaw := b.heap.assignedRaw || decide (b.size ≠ 0)
      freedTwice := b.heap.freedTwice || decide (b.heap.pointer = .freed) } := by
    simp only [reserve, h.slots, Option.getD_some]
    cases h with
    | unallocated capacity first last pointer =>
      have hsize : b.size = 0 := by simp [CircularBufferBase.size, first, last]
      by_cases hnull : b.heap.pointer = .null
      · simp [hnull, hsize]
      · simp [hnull, hsize, deleteBuffer]
    | allocated first last pointer =>
      simp only [pointer, deleteBuffer, ne_eq, reduceCtorEq, not_false_eq_true, if_true,
        decide_false, Bool.or_false, HeapStorage.mk.injEq, true_and, and_true]
      congr 1
      rcases Nat.eq_zero_or_pos b.size with hzero | hpos
      · simp [hzero]
      · simp [Nat.ne_of_gt hpos]
  constructor
  · intro hdefined
    have hassigns := hdefined.assigns
    have hfreed := hdefined.freed
    rw [hheap] at hassigns hfreed
    simp only [Bool.or_eq_false_iff, decide_eq_false_iff_not] at hfreed
    refine ⟨hfreed.2, ?_⟩
    by_cases hzero : b.size = 0
    · exact Or.inl hzero
    · exact Or.inr (hassigns (by simp [hzero]))
  · rintro ⟨hfreed, hor⟩
    refine ⟨fun hraw => ?_, ?_⟩
    · rw [hheap] at hraw
      rcases hor with hzero | hassigns
      · exact hd.assigns (by simpa [hzero] using hraw)
      · exact hassigns
    · rw [hheap]
      simp [hd.freed, hfreed]

/-- The items are kept exactly when the capacity to reserve, at least four, is more than their
number, the bytes that are allocated for it hold them, the pointer is not to a freed buffer, and
items, if there are any, may be assigned to raw memory. -/
theorem reserves_iff (T : ItemType α) (h : Indexed b) (hd : Defined T b) (newCapacity : Nat) :
    Reserves T b newCapacity ↔ b.size < max 4 newCapacity ∧
      b.size * T.size ≤ T.size * max 4 newCapacity % GrowingSmallVector.sizeMax ∧
      b.heap.pointer ≠ .freed ∧ (b.size = 0 ∨ T.assignsRaw = true) := by
  have hcapacity : (reserve b newCapacity).capacity = max 4 newCapacity := by
    show (if newCapacity < 4 then 4 else newCapacity) = _
    split <;> omega
  have hroom : b.size ≤ GrowingSmallVector.bufferRoom T (max 4 newCapacity) ↔
      b.size * T.size ≤ T.size * max 4 newCapacity % GrowingSmallVector.sizeMax :=
    Nat.le_div_iff_mul_le T.sized
  rw [← hroom, ← reserve_defined_iff h hd newCapacity]
  constructor
  · intro hr
    have hsize := hr.size
    have hin := hr.room
    rw [reserve_size, hcapacity] at hsize
    rw [movedItems_eq h, hcapacity] at hin
    refine ⟨hsize, Nat.le_of_not_lt fun hlt => ?_, hr.defined⟩
    exact Nat.lt_irrefl _ (hin _ hlt)
  · rintro ⟨hsize, hin, hdefined⟩
    rw [← hcapacity] at hsize hin
    refine ⟨reserve_visited h hsize, by rw [reserve_size]; exact hsize, fun i hi => ?_, hdefined⟩
    rw [movedItems_eq h] at hi
    exact Nat.lt_of_lt_of_le hi hin

/-- Five items in a buffer of eight that is turned. -/
def turned : CircularBufferBase Nat :=
  run (some 8) [.pushFront 3, .pushFront 2, .pushFront 1, .pushBack 4, .pushBack 5]

theorem reserves_iff_turned : Reserves SmallVector.number turned 6 ↔
    turned.size < max 4 6 ∧ turned.size * 4 ≤ 4 * max 4 6 % 2 ^ 64 ∧
      turned.heap.pointer ≠ .freed ∧ (turned.size = 0 ∨ true = true) :=
  reserves_iff SmallVector.number (.allocated (by decide) (by decide) (by decide))
    ⟨fun _ => rfl, by decide⟩ 6

/-- Asked for as many slots as it has items, the buffer has its end behind the slots, and the
iteration does not come to it; asked for one less, it writes the last item behind the buffer.
Cleared, it frees what it has freed. -/
theorem reserve_five :
    (reserve turned 5).visited = none ∧ (reserve turned 5).size = (reserve turned 5).capacity ∧
      (reserve turned 4).storage 4 = some 5 ∧ (reserve turned 4).capacity = 4 ∧
      ¬Reserves SmallVector.number turned 5 ∧ ¬Reserves SmallVector.number turned 4 ∧
      ¬Reserves SmallVector.number (clear turned) 6 := by
  refine ⟨by decide, by decide, by decide, by decide, fun h => ?_, fun h => ?_, fun h => ?_⟩
  · exact absurd h.size (by decide)
  · exact absurd h.size (by decide)
  · exact absurd h.defined.freed (by decide)

end GrowingCircularBuffer
end CosmicArchitect.Util
