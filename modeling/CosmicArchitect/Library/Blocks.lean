import Mathlib.Tactic.Common

/-!
# Blocks in a byte buffer

A buffer filled with blocks of different sizes, one behind the other. A block is addressed
by the number of bytes in front of it; between two blocks there is nothing to read.
-/

namespace CosmicArchitect.Library

universe u

namespace Blocks
variable {β : Type u} (size : β → Nat)

def bytes : List β → Nat
  | [] => 0
  | b :: l => size b + bytes l

def blockAt : List β → Nat → Option β
  | [], _ => none
  | b :: l, a => if a = 0 then some b else if a < size b then none else blockAt l (a - size b)

/-- Overwrite the block at an address. -/
def write : List β → Nat → β → List β
  | [], _, _ => []
  | b :: l, a, v =>
    if a = 0 then v :: l else if a < size b then b :: l else b :: write l (a - size b) v

/-- The blocks from an address on. -/
def behind : List β → Nat → List β
  | [], _ => []
  | b :: l, a => if a = 0 then b :: l else behind l (a - size b)

/-- A block starts at the address, or the buffer ends there. -/
def IsBoundary (l : List β) (a : Nat) : Prop := ∃ l₁ l₂, l = l₁ ++ l₂ ∧ bytes size l₁ = a

@[simp] theorem bytes_nil : bytes size [] = 0 := rfl

@[simp] theorem bytes_cons (b : β) (l : List β) : bytes size (b :: l) = size b + bytes size l := by
  rw [bytes]

@[simp] theorem bytes_append (l l' : List β) :
    bytes size (l ++ l') = bytes size l + bytes size l' := by
  induction l with
  | nil => simp
  | cons b l ih => simp [ih, Nat.add_assoc]

@[simp] theorem blockAt_zero (b : β) (l : List β) : blockAt size (b :: l) 0 = some b := rfl

variable {size}

theorem blockAt_cons (hpos : ∀ b, 0 < size b) (b : β) (l : List β) (a : Nat) :
    blockAt size (b :: l) (size b + a) = blockAt size l a := by
  have hb := hpos b
  have hne : size b + a ≠ 0 := by omega
  have hge : ¬ size b + a < size b := by omega
  simp only [blockAt, if_neg hne, if_neg hge, Nat.add_sub_cancel_left]

theorem blockAt_cons_cases {b v : β} {l : List β} {a : Nat} (h : blockAt size (b :: l) a = some v) :
    a = 0 ∨ ∃ x, a = size b + x ∧ blockAt size l x = some v := by
  simp only [blockAt] at h
  split at h
  · next h0 => exact Or.inl h0
  · split at h
    · cases h
    · exact Or.inr ⟨a - size b, by omega, h⟩

theorem blockAt_bound {l : List β} {b : β} :
    ∀ {a : Nat}, blockAt size l a = some b → a + size b ≤ bytes size l := by
  induction l with
  | nil =>
    intro a h
    cases h
  | cons c l ih =>
    intro a h
    simp only [blockAt] at h
    rw [bytes_cons]
    split at h
    · cases h
      omega
    · split at h
      · cases h
      · have hle := ih h
        omega

theorem blockAt_append (hpos : ∀ b, 0 < size b) (l : List β) (v : β) :
    ∀ a, blockAt size (l ++ [v]) a = if a = bytes size l then some v else blockAt size l a := by
  induction l with
  | nil =>
    intro a
    by_cases ha : a = 0 <;> simp [blockAt, ha]
  | cons b l ih =>
    intro a
    have hb := hpos b
    simp only [List.cons_append, blockAt, bytes_cons, ih]
    by_cases h0 : a = 0
    · have hne : a ≠ size b + bytes size l := by omega
      rw [if_pos h0, if_neg hne, if_pos h0]
    · rw [if_neg h0, if_neg h0]
      by_cases hlt : a < size b
      · have hne : a ≠ size b + bytes size l := by omega
        rw [if_pos hlt, if_neg hne, if_pos hlt]
      · have hiff : a - size b = bytes size l ↔ a = size b + bytes size l := by omega
        simp only [if_neg hlt, hiff]

/-- A block put behind the last one leaves the others in place. -/
theorem blockAt_of_append (hpos : ∀ b, 0 < size b) {l : List β} {a : Nat} {p : β} (b : β)
    (hp : blockAt size l a = some p) : blockAt size (l ++ [b]) a = some p := by
  have hbound := blockAt_bound hp
  have hp' := hpos p
  rw [blockAt_append hpos, if_neg (by omega), hp]

theorem bytes_write {v : β} (l : List β) :
    ∀ {a : Nat} {b : β}, blockAt size l a = some b → size v = size b →
      bytes size (write size l a v) = bytes size l := by
  induction l with
  | nil =>
    intro a b h
    cases h
  | cons c l ih =>
    intro a b h hv
    simp only [blockAt] at h
    simp only [write]
    split at h
    · next h0 =>
      cases h
      rw [if_pos h0, bytes_cons, bytes_cons, hv]
    · next h0 =>
      split at h
      · cases h
      · next hlt => rw [if_neg h0, if_neg hlt, bytes_cons, bytes_cons, ih h hv]

theorem blockAt_write {v : β} (l : List β) :
    ∀ {a : Nat} {b : β}, blockAt size l a = some b → size v = size b → ∀ x,
      blockAt size (write size l a v) x = if x = a then some v else blockAt size l x := by
  induction l with
  | nil =>
    intro a b h
    cases h
  | cons c l ih =>
    intro a b h hv x
    simp only [blockAt] at h
    simp only [write]
    split at h
    · next h0 =>
      cases h
      subst h0
      by_cases hx : x = 0 <;> simp [blockAt, hx, hv]
    · next h0 =>
      split at h
      · cases h
      · next hlt =>
        rw [if_neg h0, if_neg hlt]
        simp only [blockAt, ih h hv]
        by_cases hx : x = 0
        · have hne : x ≠ a := by omega
          rw [if_pos hx, if_neg hne, if_pos hx]
        · rw [if_neg hx, if_neg hx]
          by_cases hxlt : x < size c
          · have hne : x ≠ a := by omega
            rw [if_pos hxlt, if_neg hne, if_pos hxlt]
          · have hiff : x - size c = a - size c ↔ x = a := by omega
            simp only [if_neg hxlt, hiff]

theorem isBoundary_zero (l : List β) : IsBoundary size l 0 := ⟨[], l, rfl, rfl⟩

@[simp] theorem behind_zero (l : List β) : behind size l 0 = l := by
  cases l <;> simp [behind]

theorem behind_length_le (l : List β) : ∀ a, (behind size l a).length ≤ l.length := by
  induction l with
  | nil =>
    intro a
    exact Nat.le_refl _
  | cons b l ih =>
    intro a
    rw [behind]
    split
    · exact Nat.le_refl _
    · exact Nat.le_trans (ih _) (Nat.le_succ _)

theorem behind_append (hpos : ∀ b, 0 < size b) (l₁ l₂ : List β) :
    behind size (l₁ ++ l₂) (bytes size l₁) = l₂ := by
  induction l₁ with
  | nil => exact behind_zero l₂
  | cons b l₁ ih =>
    have hb := hpos b
    have hne : size b + bytes size l₁ ≠ 0 := by omega
    rw [List.cons_append, behind, bytes_cons, if_neg hne, Nat.add_sub_cancel_left, ih]

/-- Reading after a block was written over and a new one put behind the last. -/
theorem blockAt_write_append (hpos : ∀ b, 0 < size b) {l : List β} {a : Nat} {p p' : β} (b : β)
    (hp : blockAt size l a = some p) (hsize : size p' = size p) (x : Nat) :
    blockAt size (write size (l ++ [b]) a p') x =
      if x = a then some p' else if x = bytes size l then some b else blockAt size l x := by
  rw [blockAt_write _ (blockAt_of_append hpos b hp) hsize, blockAt_append hpos]

theorem bytes_write_append (hpos : ∀ b, 0 < size b) {l : List β} {a : Nat} {p p' : β} (b : β)
    (hp : blockAt size l a = some p) (hsize : size p' = size p) :
    bytes size (write size (l ++ [b]) a p') = bytes size l + size b := by
  rw [bytes_write _ (blockAt_of_append hpos b hp) hsize, bytes_append]
  rfl

theorem blockAt_bytes_append (hpos : ∀ b, 0 < size b) (l₁ : List β) (b : β) (l₂ : List β) :
    blockAt size (l₁ ++ b :: l₂) (bytes size l₁) = some b := by
  induction l₁ with
  | nil => exact blockAt_zero size b l₂
  | cons c l₁ ih => rw [List.cons_append, bytes_cons, blockAt_cons hpos, ih]

/-- At a boundary the buffer ends, or there is a block with a boundary behind it. -/
theorem IsBoundary.cases (hpos : ∀ b, 0 < size b) {l : List β} {a : Nat}
    (h : IsBoundary size l a) : (a = bytes size l ∧ behind size l a = []) ∨
      ∃ b, a ≠ bytes size l ∧ blockAt size l a = some b ∧
        behind size l a = b :: behind size l (a + size b) ∧
        IsBoundary size l (a + size b) := by
  obtain ⟨l₁, l₂, rfl, rfl⟩ := h
  cases l₂ with
  | nil =>
    refine Or.inl ⟨by rw [List.append_nil], ?_⟩
    exact behind_append hpos l₁ []
  | cons b l₂ =>
    have hb := hpos b
    have hnext : bytes size (l₁ ++ [b]) = bytes size l₁ + size b := by
      rw [bytes_append, bytes_cons, bytes_nil, Nat.add_zero]
    have hsplit : l₁ ++ b :: l₂ = (l₁ ++ [b]) ++ l₂ := by
      rw [List.append_assoc, List.singleton_append]
    refine Or.inr ⟨b, ?_, blockAt_bytes_append hpos l₁ b l₂, ?_, l₁ ++ [b], l₂, hsplit, hnext⟩
    · rw [bytes_append, bytes_cons]
      omega
    · rw [behind_append hpos, ← hnext, hsplit, behind_append hpos]

end Blocks
end CosmicArchitect.Library
