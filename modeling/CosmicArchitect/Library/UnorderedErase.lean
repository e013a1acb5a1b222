import Mathlib.Data.List.Perm.Basic
import Mathlib.Data.List.Perm.Subperm

/-!
# Erasing without regard to the order

The last item of a vector takes the place of the erased one. Up to order this is the erasure of
the item, and what stands in front of it stays where it is.
-/

namespace CosmicArchitect.Library

universe u
variable {α : Type u}

def unorderedEraseIt (l : List α) (i : Nat) : List α :=
  match l.getLast? with
  | none => []
  | some last => (l.set i last).dropLast

/-- Erase the first item that equals `a`, if there is one. -/
def unorderedErase [DecidableEq α] (l : List α) (a : α) : List α :=
  if a ∈ l then unorderedEraseIt l (l.idxOf a) else l

theorem unorderedEraseIt_concat (l : List α) (last : α) (i : Nat) :
    unorderedEraseIt (l ++ [last]) i = ((l ++ [last]).set i last).dropLast := by
  rw [unorderedEraseIt, List.getLast?_concat]

theorem unorderedEraseIt_perm (l : List α) {i : Nat} (hi : i < l.length) :
    (unorderedEraseIt l i).Perm (l.eraseIdx i) := by
  rcases List.eq_nil_or_concat l with rfl | ⟨l, last, rfl⟩
  · exact absurd hi (Nat.not_lt_zero i)
  · rw [List.concat_eq_append, List.length_append, List.length_singleton] at hi
    rw [List.concat_eq_append, unorderedEraseIt_concat]
    by_cases hlast : i < l.length
    · rw [List.set_append_left _ _ hlast, List.dropLast_concat, List.eraseIdx_append_of_lt_length hlast]
      exact (List.set_perm_cons_eraseIdx hlast last).trans (List.perm_append_singleton _ _).symm
    · have hi' : i = l.length := by omega
      rw [hi', List.set_append_right _ _ (Nat.le_refl _), List.eraseIdx_append_of_length_le (Nat.le_refl _),
        Nat.sub_self]
      exact List.Perm.of_eq (by rw [List.set_cons_zero, List.dropLast_concat, List.eraseIdx_cons_zero,
        List.append_nil])

/-- The items in front of the erased one stay. -/
theorem getElem?_unorderedEraseIt (l : List α) {i j : Nat} (hi : i < l.length) (hj : j < i) :
    (unorderedEraseIt l i)[j]? = l[j]? := by
  rcases List.eq_nil_or_concat l with rfl | ⟨l, last, rfl⟩
  · exact absurd hi (Nat.not_lt_zero i)
  · rw [List.concat_eq_append, List.length_append, List.length_singleton] at hi
    rw [List.concat_eq_append, unorderedEraseIt_concat, List.getElem?_dropLast, List.length_set,
      List.length_append, List.length_singleton, Nat.add_sub_cancel, if_pos (by omega),
      List.getElem?_set_ne (by omega)]

theorem length_unorderedEraseIt (l : List α) {i : Nat} (hi : i < l.length) :
    (unorderedEraseIt l i).length + 1 = l.length := by
  rw [(unorderedEraseIt_perm l hi).length_eq, List.length_eraseIdx_of_lt hi]
  omega

section
variable [DecidableEq α]

theorem unorderedErase_perm (l : List α) (a : α) : (unorderedErase l a).Perm (l.erase a) := by
  unfold unorderedErase
  split
  next h =>
    have hi : l.idxOf a < l.length := List.idxOf_lt_length_of_mem h
    exact (unorderedEraseIt_perm l hi).trans (List.Perm.of_eq (List.erase_eq_eraseIdx_of_idxOf rfl).symm)
  next h => rw [List.erase_of_not_mem h]

/-- Erasing several items one after the other leaves the others. -/
theorem foldl_unorderedErase_perm {rest : List α} (gone : List α) :
    ∀ l : List α, l.Perm (gone ++ rest) → (gone.foldl unorderedErase l).Perm rest := by
  induction gone with
  | nil => exact fun l h => h
  | cons a gone ih =>
    intro l h
    rw [List.foldl_cons]
    refine ih _ ((unorderedErase_perm l a).trans ((h.erase a).trans ?_))
    rw [List.cons_append, List.erase_cons_head]

end
end CosmicArchitect.Library
