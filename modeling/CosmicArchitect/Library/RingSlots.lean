import Mathlib.Logic.Function.Basic
import Mathlib.Data.List.Basic

/-!
# Deques kept in a ring of slots

A ring of `capacity` slots holds a list from some slot on, the slot behind the last one being
slot 0. Each operation of a deque changes one slot and one end.
-/

namespace CosmicArchitect.Library

universe u

namespace Deque
variable {α : Type u}

inductive Op (α : Type u)
  | pushBack (item : α)
  | pushFront (item : α)
  | popBack
  | popFront
deriving DecidableEq, Repr

def apply (items : List α) : Op α → List α
  | .pushBack item => items ++ [item]
  | .pushFront item => item :: items
  | .popBack => items.dropLast
  | .popFront => items.tail

/-- A deque for `limit` items refuses a push when it is full. -/
def applyWithin (limit : Nat) (items : List α) : Op α → List α
  | .pushBack item => if items.length < limit then items ++ [item] else items
  | .pushFront item => if items.length < limit then item :: items else items
  | .popBack => items.dropLast
  | .popFront => items.tail

end Deque

namespace Ring
variable {α : Type u} {capacity first : Nat}

/-- The slot `i` places behind slot `first`. -/
def slot (capacity first i : Nat) : Nat := (first + i) % capacity

theorem slot_lt (h : first < capacity) (i : Nat) : slot capacity first i < capacity :=
  Nat.mod_lt _ (Nat.lt_of_le_of_lt (Nat.zero_le _) h)

theorem slot_zero (h : first < capacity) : slot capacity first 0 = first := Nat.mod_eq_of_lt h

theorem slot_slot (i j : Nat) : slot capacity (slot capacity first i) j = slot capacity first (i + j) := by
  rw [slot, slot, slot, Nat.mod_add_mod, Nat.add_assoc]

theorem slot_add_capacity (i : Nat) : slot capacity first (i + capacity) = slot capacity first i := by
  rw [slot, slot, ← Nat.add_assoc, Nat.add_mod_right]

theorem slot_capacity (h : first < capacity) : slot capacity first capacity = first := by
  rw [slot, Nat.add_mod_right, Nat.mod_eq_of_lt h]

/-- Within one turn of the ring different places are different slots. -/
theorem slot_inj (h : first < capacity) {i j : Nat} (hi : i < capacity) (hj : j < capacity) :
    slot capacity first i = slot capacity first j ↔ i = j := by
  refine ⟨fun heq => ?_, fun heq => by rw [heq]⟩
  have hcases : ∀ {k : Nat}, k < capacity → (first + k < capacity ∧ slot capacity first k = first + k) ∨
      (capacity ≤ first + k ∧ slot capacity first k = first + k - capacity) := by
    intro k hk
    rcases Nat.lt_or_ge (first + k) capacity with hlt | hge
    · exact Or.inl ⟨hlt, Nat.mod_eq_of_lt hlt⟩
    · refine Or.inr ⟨hge, ?_⟩
      rw [slot, Nat.mod_eq_sub_mod hge, Nat.mod_eq_of_lt (by omega)]
  rcases hcases hi with ⟨_, h1⟩ | ⟨_, h1⟩ <;> rcases hcases hj with ⟨_, h2⟩ | ⟨_, h2⟩ <;> omega

/-- The slots from `first` on hold the items of the list, in order. -/
structure Holds (slots : Nat → Option α) (capacity first : Nat) (items : List α) : Prop where
  first_lt : first < capacity
  length_le : items.length ≤ capacity
  item : ∀ i (h : i < items.length), slots (slot capacity first i) = some items[i]

variable {slots : Nat → Option α} {items : List α}

theorem Holds.nil (h : first < capacity) : Holds slots capacity first [] :=
  ⟨h, Nat.zero_le _, fun i hi => absurd hi (Nat.not_lt_zero i)⟩

theorem Holds.concat (h : Holds slots capacity first items) (hlt : items.length < capacity)
    (item : α) :
    Holds (Function.update slots (slot capacity first items.length) (some item)) capacity first
      (items ++ [item]) where
  first_lt := h.first_lt
  length_le := by
    rw [List.length_append, List.length_singleton]
    exact hlt
  item i hi := by
    rw [List.length_append, List.length_singleton] at hi
    rcases Nat.lt_or_ge i items.length with hlt' | hge
    · have hne : slot capacity first i ≠ slot capacity first items.length := by
        rw [Ne, slot_inj h.first_lt (by omega) hlt]
        omega
      rw [Function.update_of_ne hne, h.item i hlt', List.getElem_append_left hlt']
    · have heq : i = items.length := by omega
      subst heq
      rw [Function.update_self, List.getElem_concat_length rfl]

theorem Holds.cons (h : Holds slots capacity first items) (hlt : items.length < capacity)
    (item : α) :
    Holds (Function.update slots (slot capacity first (capacity - 1)) (some item)) capacity
      (slot capacity first (capacity - 1)) (item :: items) where
  first_lt := slot_lt h.first_lt _
  length_le := hlt
  item i hi := by
    rw [List.length_cons] at hi
    cases i with
    | zero =>
      rw [slot_zero (slot_lt h.first_lt _), Function.update_self]
      rfl
    | succ i =>
      have hplace : slot capacity (slot capacity first (capacity - 1)) (i + 1) =
          slot capacity first i := by
        have hsum : capacity - 1 + (i + 1) = i + capacity := by omega
        rw [slot_slot, hsum, slot_add_capacity]
      have hne : slot capacity first i ≠ slot capacity first (capacity - 1) := by
        rw [Ne, slot_inj h.first_lt (by omega) (by omega)]
        omega
      rw [hplace, Function.update_of_ne hne, h.item i (by omega)]
      rfl

theorem Holds.dropLast (h : Holds slots capacity first items) (hpos : 0 < items.length) :
    Holds (Function.update slots (slot capacity first (items.length - 1)) none) capacity first
      items.dropLast where
  first_lt := h.first_lt
  length_le := by
    rw [List.length_dropLast]
    exact Nat.le_trans (Nat.sub_le _ _) h.length_le
  item i hi := by
    have hlength := h.length_le
    rw [List.length_dropLast] at hi
    have hne : slot capacity first i ≠ slot capacity first (items.length - 1) := by
      rw [Ne, slot_inj h.first_lt (by omega) (by omega)]
      omega
    rw [Function.update_of_ne hne, h.item i (by omega), List.getElem_dropLast]

theorem Holds.tail (h : Holds slots capacity first items) (hpos : 0 < items.length) :
    Holds (Function.update slots first none) capacity (slot capacity first 1) items.tail where
  first_lt := slot_lt h.first_lt _
  length_le := by
    rw [List.length_tail]
    exact Nat.le_trans (Nat.sub_le _ _) h.length_le
  item i hi := by
    have hlength := h.length_le
    rw [List.length_tail] at hi
    have hne : slot capacity first (1 + i) ≠ first := by
      have hfirst := slot_inj h.first_lt (i := 1 + i) (j := 0) (by omega) (by omega)
      rw [slot_zero h.first_lt] at hfirst
      omega
    rw [slot_slot, Function.update_of_ne hne, h.item (1 + i) (by omega), List.getElem_tail]
    simp only [Nat.add_comm]

/-- A list written from slot 0 on. -/
theorem Holds.linear (items : List α) (hle : items.length ≤ capacity) (hpos : 0 < capacity) :
    Holds (fun i => items[i]?) capacity 0 items where
  first_lt := hpos
  length_le := hle
  item i hi := by
    have hslot : slot capacity 0 i = i := by
      rw [slot, Nat.zero_add, Nat.mod_eq_of_lt (by omega)]
    rw [hslot, List.getElem?_eq_getElem hi]

end Ring
end CosmicArchitect.Library
