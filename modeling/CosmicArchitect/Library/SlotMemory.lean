import Mathlib.Data.List.Basic
import Mathlib.Logic.Function.Basic
import Mathlib.Tactic.Common

/-!
# Buffers of item slots

Memory as containers of items see it: numbered buffers with room for some items, and records of
the slots that were written, inside of their buffer or not, and of those that were assigned to
without an item in them.
-/

namespace CosmicArchitect.Library

universe u

/-- A slot is counted from the start of its buffer, behind it or before it. -/
structure Slot where
  buffer : Nat
  index : Int
deriving DecidableEq, Repr

def Slot.add (s : Slot) (n : Int) : Slot := { s with index := s.index + n }

@[simp] theorem Slot.add_buffer (s : Slot) (n : Int) : (s.add n).buffer = s.buffer := rfl
@[simp] theorem Slot.add_index (s : Slot) (n : Int) : (s.add n).index = s.index + n := rfl
@[simp] theorem Slot.add_zero (s : Slot) : s.add 0 = s := by simp [Slot.add]

theorem Slot.add_add (s : Slot) (m n : Int) : (s.add m).add n = s.add (m + n) := by
  simp [Slot.add, Int.add_assoc]

/-- A slot holds an item or none; buffers from `next` on are not allocated yet. -/
structure SlotMemory (α : Type u) where
  room : Nat → Nat := fun _ => 0
  items : Slot → Option α := fun _ => none
  written : List Slot := []
  raw : List Slot := []
  next : Nat := 0

namespace SlotMemory
variable {α : Type u} {m : SlotMemory α} {s t : Slot} {item : Option α}

def Within (m : SlotMemory α) (s : Slot) : Prop := 0 ≤ s.index ∧ s.index < m.room s.buffer

instance (m : SlotMemory α) (s : Slot) : Decidable (m.Within s) :=
  inferInstanceAs (Decidable (_ ∧ _))

/-- Outside of its buffer a slot holds no item. -/
def read (m : SlotMemory α) (s : Slot) : Option α := if m.Within s then m.items s else none

def store (m : SlotMemory α) (s : Slot) (item : Option α) : SlotMemory α :=
  { m with items := Function.update m.items s item, written := m.written ++ [s] }

/-- Where no item stands, an assignment has raw memory for its target. -/
def assign (m : SlotMemory α) (t : Slot) (item : Option α) : SlotMemory α :=
  { m.store t item with raw := if (m.read t).isSome then m.raw else m.raw ++ [t] }

/-- Assign what `s` holds to `t`; `moved` is what a move leaves of an item. An item that is
assigned to itself stays. -/
def move (moved : α → α) (m : SlotMemory α) (s t : Slot) : SlotMemory α :=
  (m.store s ((m.read s).map moved)).assign t (m.read s)

def exchange (m : SlotMemory α) (s t : Slot) : SlotMemory α :=
  (m.assign s (m.read t)).assign t (m.read s)

/-- A new buffer, without items. -/
def allocate (m : SlotMemory α) (room : Nat) : SlotMemory α :=
  { m with
    room := Function.update m.room m.next room
    items := fun s => if s.buffer = m.next then none else m.items s
    next := m.next + 1 }

def free (m : SlotMemory α) (buffer : Nat) : SlotMemory α :=
  { m with room := Function.update m.room buffer 0 }

/-! ### One slot -/

@[simp] theorem store_written : (m.store s item).written = m.written ++ [s] := rfl

theorem read_within (h : m.Within s) : m.read s = m.items s := if_pos h

theorem read_outside (h : ¬m.Within s) : m.read s = none := if_neg h

theorem within_of_read {v : α} (h : m.read s = some v) : m.Within s := by
  by_contra hout
  rw [read_outside hout] at h
  exact absurd h (by simp)

theorem read_store_self (h : m.Within s) : (m.store s item).read s = item := by
  rw [read_within (show (m.store s item).Within s from h)]
  exact Function.update_self s item m.items

theorem read_store_of_ne (h : t ≠ s) : (m.store s item).read t = m.read t := by
  rw [read, read]
  refine if_congr Iff.rfl ?_ rfl
  exact Function.update_of_ne h item m.items

@[simp] theorem store_raw : (m.store s item).raw = m.raw := rfl

@[simp] theorem assign_written : (m.assign s item).written = m.written ++ [s] := rfl

theorem read_assign : (m.assign s item).read t = (m.store s item).read t := rfl

theorem read_assign_self (h : m.Within s) : (m.assign s item).read s = item := read_store_self h

theorem assign_raw (h : (m.read s).isSome) : (m.assign s item).raw = m.raw := if_pos h

@[simp] theorem move_room (moved : α → α) : (m.move moved s t).room = m.room := rfl

theorem move_written (moved : α → α) : (m.move moved s t).written = m.written ++ [s, t] := by
  simp [move]

theorem read_move_target (moved : α → α) (h : m.Within t) :
    (m.move moved s t).read t = m.read s := read_assign_self h

theorem read_move_source (moved : α → α) (h : m.Within s) (hne : s ≠ t) :
    (m.move moved s t).read s = (m.read s).map moved := by
  rw [move, read_assign, read_store_of_ne hne, read_store_self h]

theorem read_move_of_ne (moved : α → α) {r : Slot} (hs : r ≠ s) (ht : r ≠ t) :
    (m.move moved s t).read r = m.read r := by
  rw [move, read_assign, read_store_of_ne ht, read_store_of_ne hs]

/-- A move to another slot assigns to raw memory just when no item stands there. -/
theorem move_raw (moved : α → α) (hne : s ≠ t) :
    (m.move moved s t).raw = if (m.read t).isSome then m.raw else m.raw ++ [t] := by
  rw [move, assign, read_store_of_ne hne.symm, store_raw]

theorem exchange_written : (m.exchange s t).written = m.written ++ [s, t] := by
  simp [exchange]

theorem read_exchange_right (h : m.Within t) : (m.exchange s t).read t = m.read s :=
  read_assign_self h

theorem read_exchange_left (h : m.Within s) (hne : s ≠ t) :
    (m.exchange s t).read s = m.read t := by
  rw [exchange, read_assign, read_store_of_ne hne, read_assign, read_store_self h]

theorem read_exchange_of_ne {r : Slot} (hs : r ≠ s) (ht : r ≠ t) :
    (m.exchange s t).read r = m.read r := by
  rw [exchange, read_assign, read_store_of_ne ht, read_assign, read_store_of_ne hs]

theorem exchange_raw (hs : (m.read s).isSome) (ht : (m.read t).isSome) (hne : s ≠ t) :
    (m.exchange s t).raw = m.raw := by
  rw [exchange, assign_raw, assign_raw hs]
  rw [read_assign, read_store_of_ne hne.symm]
  exact ht

/-! ### Buffers -/

theorem read_allocate_of_ne {room : Nat} (h : s.buffer ≠ m.next) :
    (m.allocate room).read s = m.read s := by
  have hwithin : (m.allocate room).Within s ↔ m.Within s := by
    simp only [Within, allocate, Function.update_of_ne h]
  rw [read, read]
  exact if_congr hwithin (if_neg h) rfl

theorem read_allocate_self {room : Nat} (h : s.buffer = m.next) :
    (m.allocate room).read s = none := by
  rw [read]
  split
  · exact if_pos h
  · rfl

theorem read_free_of_ne {buffer : Nat} (h : s.buffer ≠ buffer) : (m.free buffer).read s = m.read s := by
  have hwithin : (m.free buffer).Within s ↔ m.Within s := by
    simp only [Within, free, Function.update_of_ne h]
  rw [read, read]
  exact if_congr hwithin rfl rfl

/-! ### Loops over slots -/

/-- Move `count` items from `s` on to `t` on, the first one first. -/
def moveEach (moved : α → α) (m : SlotMemory α) (s t : Slot) : Nat → SlotMemory α
  | 0 => m
  | count + 1 => (m.moveEach moved s t count).move moved (s.add count) (t.add count)

/-- Move the `count` items before `s` to the slots before `t`, the last one first. -/
def moveEachBackward (moved : α → α) (m : SlotMemory α) (s t : Slot) : Nat → SlotMemory α
  | 0 => m
  | count + 1 =>
    (m.moveEachBackward moved s t count).move moved (s.add (-1 - count)) (t.add (-1 - count))

def exchangeEach (m : SlotMemory α) (s t : Slot) : Nat → SlotMemory α
  | 0 => m
  | count + 1 => (m.exchangeEach s t count).exchange (s.add count) (t.add count)

/-- Construct the same item, or destroy what there is, in `count` slots from `s` on. -/
def fill (m : SlotMemory α) (s : Slot) (item : Option α) : Nat → SlotMemory α
  | 0 => m
  | count + 1 => (m.fill s item count).store (s.add count) item

variable (moved : α → α) (count : Nat)

@[simp] theorem moveEach_room : (m.moveEach moved s t count).room = m.room := by
  induction count with
  | zero => rfl
  | succ count ih => exact ih

@[simp] theorem exchangeEach_room : (m.exchangeEach s t count).room = m.room := by
  induction count with
  | zero => rfl
  | succ count ih => exact ih

@[simp] theorem fill_room : (m.fill s item count).room = m.room := by
  induction count with
  | zero => rfl
  | succ count ih => exact ih

@[simp] theorem fill_next : (m.fill s item count).next = m.next := by
  induction count with
  | zero => rfl
  | succ count ih => exact ih

/-- The slots that a loop over two ranges writes. -/
def pairs (s t : Slot) (count : Nat) : List Slot :=
  (List.range count).flatMap fun i : Nat => [s.add i, t.add i]

theorem pairs_succ : pairs s t (count + 1) = pairs s t count ++ [s.add count, t.add count] := by
  rw [pairs, List.range_succ, List.flatMap_append]
  rfl

variable {count} in
theorem mem_pairs {r : Slot} : r ∈ pairs s t count ↔ ∃ i < count, r = s.add i ∨ r = t.add i := by
  simp [pairs]

theorem moveEach_written :
    (m.moveEach moved s t count).written = m.written ++ pairs s t count := by
  induction count with
  | zero => simp [moveEach, pairs]
  | succ count ih => rw [moveEach, move_written, ih, pairs_succ, List.append_assoc]

theorem exchangeEach_written :
    (m.exchangeEach s t count).written = m.written ++ pairs s t count := by
  induction count with
  | zero => simp [exchangeEach, pairs]
  | succ count ih => rw [exchangeEach, exchange_written, ih, pairs_succ, List.append_assoc]

variable {count}

theorem add_ne_add {i j : Nat} (h : i ≠ j) : s.add i ≠ s.add j := by
  intro heq
  have hindex := congrArg Slot.index heq
  simp only [Slot.add_index] at hindex
  omega

theorem add_ne_of_buffer (h : s.buffer ≠ t.buffer) (i j : Int) : s.add i ≠ t.add j := by
  intro heq
  have hbuffer : (s.add i).buffer = (t.add j).buffer := congrArg Slot.buffer heq
  exact h hbuffer

theorem read_moveEach_of_ne {r : Slot} (h : ∀ i < count, r ≠ s.add i ∧ r ≠ t.add i) :
    (m.moveEach moved s t count).read r = m.read r := by
  induction count with
  | zero => rfl
  | succ count ih =>
    have hlast := h count (Nat.lt_succ_self count)
    rw [moveEach, read_move_of_ne moved hlast.1 hlast.2]
    exact ih fun i hi => h i (Nat.lt_succ_of_lt hi)

/-- Between two buffers each item arrives where it is moved to. -/
theorem read_moveEach_target (hne : s.buffer ≠ t.buffer) {i : Nat} (hi : i < count)
    (hwithin : m.Within (t.add i)) : (m.moveEach moved s t count).read (t.add i) = m.read (s.add i) := by
  induction count with
  | zero => exact absurd hi (Nat.not_lt_zero i)
  | succ count ih =>
    rw [moveEach]
    rcases Nat.lt_succ_iff_lt_or_eq.mp hi with hlt | rfl
    · rw [read_move_of_ne moved (add_ne_of_buffer hne _ _).symm (add_ne_add (Nat.ne_of_lt hlt))]
      exact ih hlt
    · rw [read_move_target moved (by rw [Within, moveEach_room]; exact hwithin)]
      refine read_moveEach_of_ne moved fun j hj => ⟨add_ne_add (Nat.ne_of_gt hj), ?_⟩
      exact add_ne_of_buffer hne _ _

theorem read_moveEach_source (hne : s.buffer ≠ t.buffer) {i : Nat} (hi : i < count)
    (hwithin : m.Within (s.add i)) :
    (m.moveEach moved s t count).read (s.add i) = (m.read (s.add i)).map moved := by
  induction count with
  | zero => exact absurd hi (Nat.not_lt_zero i)
  | succ count ih =>
    rw [moveEach]
    rcases Nat.lt_succ_iff_lt_or_eq.mp hi with hlt | rfl
    · rw [read_move_of_ne moved (add_ne_add (Nat.ne_of_lt hlt)) (add_ne_of_buffer hne _ _)]
      exact ih hlt
    · rw [read_move_source moved (by rw [Within, moveEach_room]; exact hwithin)
        (add_ne_of_buffer hne _ _)]
      congr 1
      refine read_moveEach_of_ne moved fun j hj => ⟨add_ne_add (Nat.ne_of_gt hj), ?_⟩
      exact add_ne_of_buffer hne _ _

/-- Moved to another buffer, the items come to raw memory where there is none. -/
theorem moveEach_raw (hne : s.buffer ≠ t.buffer) : (m.moveEach moved s t count).raw =
    m.raw ++ ((List.range count).map fun i : Nat => t.add i).filter fun r => (m.read r).isNone := by
  induction count with
  | zero => simp [moveEach]
  | succ count ih =>
    have hlast : (m.moveEach moved s t count).read (t.add count) = m.read (t.add count) :=
      read_moveEach_of_ne moved fun j hj =>
        ⟨(add_ne_of_buffer hne _ _).symm, add_ne_add (Nat.ne_of_gt hj)⟩
    rw [moveEach, move_raw moved (add_ne_of_buffer hne _ _), hlast, ih, List.range_succ,
      List.map_append, List.filter_append, ← List.append_assoc]
    cases h : m.read (t.add count) with
    | none => simp [h]
    | some item => simp [h]

theorem moveEach_raw_iff (hne : s.buffer ≠ t.buffer) : (m.moveEach moved s t count).raw = m.raw ↔
    ∀ i : Nat, i < count → (m.read (t.add i)).isSome := by
  rw [moveEach_raw moved hne, List.append_right_eq_self]
  simp [List.filter_eq_nil_iff, Option.isSome_iff_ne_none]

theorem read_exchangeEach_of_ne {r : Slot} (h : ∀ i < count, r ≠ s.add i ∧ r ≠ t.add i) :
    (m.exchangeEach s t count).read r = m.read r := by
  induction count with
  | zero => rfl
  | succ count ih =>
    have hlast := h count (Nat.lt_succ_self count)
    rw [exchangeEach, read_exchange_of_ne hlast.1 hlast.2]
    exact ih fun i hi => h i (Nat.lt_succ_of_lt hi)

theorem read_exchangeEach (hne : s.buffer ≠ t.buffer) {i : Nat} (hi : i < count)
    (hs : m.Within (s.add i)) (ht : m.Within (t.add i)) :
    (m.exchangeEach s t count).read (s.add i) = m.read (t.add i) ∧
      (m.exchangeEach s t count).read (t.add i) = m.read (s.add i) := by
  induction count with
  | zero => exact absurd hi (Nat.not_lt_zero i)
  | succ count ih =>
    rw [exchangeEach]
    rcases Nat.lt_succ_iff_lt_or_eq.mp hi with hlt | rfl
    · have hplace := add_ne_add (s := s) (Nat.ne_of_lt hlt)
      have hplace' := add_ne_add (s := t) (Nat.ne_of_lt hlt)
      rw [read_exchange_of_ne hplace (add_ne_of_buffer hne _ _),
        read_exchange_of_ne (add_ne_of_buffer hne _ _).symm hplace']
      exact ih hlt
    · have hbefore : ∀ j < i, s.add i ≠ s.add j ∧ s.add i ≠ t.add j := fun j hj =>
        ⟨add_ne_add (Nat.ne_of_gt hj), add_ne_of_buffer hne _ _⟩
      have hbefore' : ∀ j < i, t.add i ≠ s.add j ∧ t.add i ≠ t.add j := fun j hj =>
        ⟨(add_ne_of_buffer hne _ _).symm, add_ne_add (Nat.ne_of_gt hj)⟩
      rw [read_exchange_left (by rw [Within, exchangeEach_room]; exact hs)
          (add_ne_of_buffer hne _ _),
        read_exchange_right (by rw [Within, exchangeEach_room]; exact ht)]
      exact ⟨read_exchangeEach_of_ne hbefore', read_exchangeEach_of_ne hbefore⟩

/-- Both ranges keep their items. -/
theorem exchangeEach_raw (hne : s.buffer ≠ t.buffer)
    (hitems : ∀ i : Nat, i < count → (m.read (s.add i)).isSome ∧ (m.read (t.add i)).isSome) :
    (m.exchangeEach s t count).raw = m.raw := by
  induction count with
  | zero => rfl
  | succ count ih =>
    have hlast := hitems count (Nat.lt_succ_self count)
    have hs : (m.exchangeEach s t count).read (s.add count) = m.read (s.add count) :=
      read_exchangeEach_of_ne fun j hj => ⟨add_ne_add (Nat.ne_of_gt hj), add_ne_of_buffer hne _ _⟩
    have ht : (m.exchangeEach s t count).read (t.add count) = m.read (t.add count) :=
      read_exchangeEach_of_ne fun j hj =>
        ⟨(add_ne_of_buffer hne _ _).symm, add_ne_add (Nat.ne_of_gt hj)⟩
    rw [exchangeEach, exchange_raw (hs ▸ hlast.1) (ht ▸ hlast.2) (add_ne_of_buffer hne _ _)]
    exact ih fun i hi => hitems i (Nat.lt_succ_of_lt hi)

theorem read_fill {i : Nat} (hi : i < count) (h : m.Within (s.add i)) :
    (m.fill s item count).read (s.add i) = item := by
  induction count with
  | zero => exact absurd hi (Nat.not_lt_zero i)
  | succ count ih =>
    rw [fill]
    rcases Nat.lt_succ_iff_lt_or_eq.mp hi with hlt | rfl
    · rw [read_store_of_ne (add_ne_add (Nat.ne_of_lt hlt))]
      exact ih hlt
    · rw [read_store_self (by rw [Within, fill_room]; exact h)]

theorem read_fill_of_ne {r : Slot} (h : ∀ i < count, r ≠ s.add (i : Nat)) :
    (m.fill s item count).read r = m.read r := by
  induction count with
  | zero => rfl
  | succ count ih =>
    rw [fill, read_store_of_ne (h count (Nat.lt_succ_self count))]
    exact ih fun i hi => h i (Nat.lt_succ_of_lt hi)

/-! ### What a range of slots holds -/

def contents (m : SlotMemory α) (s : Slot) (count : Nat) : List (Option α) :=
  (List.range count).map fun i : Nat => m.read (s.add i)

theorem contents_succ (count : Nat) :
    m.contents s (count + 1) = m.contents s count ++ [m.read (s.add count)] := by
  rw [contents, contents, List.range_succ, List.map_append]
  rfl

theorem contents_eq_iff {items : List α} : m.contents s count = items.map some ↔
    count = items.length ∧ ∀ i (h : i < items.length), m.read (s.add i) = some items[i] := by
  constructor
  · intro h
    have hlength : count = items.length := by simpa [contents] using congrArg List.length h
    refine ⟨hlength, fun i hi => ?_⟩
    have hget := congrArg (·[i]?) h
    simpa [contents, hlength, hi] using hget
  · rintro ⟨rfl, h⟩
    refine List.ext_getElem (by simp [contents]) fun i _ hi => ?_
    rw [List.length_map] at hi
    simp [contents, h i hi]

theorem contents_congr {m' : SlotMemory α} (h : ∀ i < count, m'.read (t.add i) = m.read (s.add i)) :
    m'.contents t count = m.contents s count :=
  List.map_congr_left fun i hi => h i (List.mem_range.mp hi)

end SlotMemory
end CosmicArchitect.Library
