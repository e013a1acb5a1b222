import Mathlib.Data.List.Perm.Basic
import Mathlib.Data.List.Nodup

/-!
# Tokens held at places

Each place is of a kind and holds a list of tokens. A token is to be held once, at one place;
moving tokens from one place to another of the same kind keeps this.
-/

namespace CosmicArchitect.Library

universe u v w

namespace Holdings
variable {ι : Type u} {α : Type v} {κ : Type w} {kind : ι → κ} {f g k : ι → List α} {i j : ι}
  {x y : α}

structure Exclusive (f : ι → List α) : Prop where
  nodup : ∀ i, (f i).Nodup
  unique : ∀ i j x, x ∈ f i → x ∈ f j → i = j

/-- A token is held at a place of the kind. -/
def Held (kind : ι → κ) (f : ι → List α) (c : κ) (x : α) : Prop := ∃ i, kind i = c ∧ x ∈ f i

/-- From `f` to `g` no token appears, disappears, is doubled or changes its kind. -/
structure Conserves (kind : ι → κ) (f g : ι → List α) : Prop where
  exclusive : Exclusive f → Exclusive g
  held : ∀ c x, Held kind g c x ↔ Held kind f c x

theorem Conserves.refl (f : ι → List α) : Conserves kind f f := ⟨id, fun _ _ => Iff.rfl⟩

theorem Conserves.trans (h : Conserves kind f g) (h' : Conserves kind g k) :
    Conserves kind f k :=
  ⟨fun hf => h'.exclusive (h.exclusive hf), fun c x => (h'.held c x).trans (h.held c x)⟩

/-- The tokens `given` are moved from place `i` to place `j`. -/
structure Moves (f g : ι → List α) (i j : ι) (given : List α) : Prop where
  ne : i ≠ j
  source : (f i).Perm (g i ++ given)
  target : (g j).Perm (f j ++ given)
  other : ∀ k, k ≠ i → k ≠ j → g k = f k

variable {given : List α}

theorem Moves.mem (h : Moves f g i j given) (k : ι) (hx : x ∈ g k) :
    (k = j ∧ x ∈ given) ∨ x ∈ f k := by
  by_cases hj : k = j
  · subst hj
    rcases List.mem_append.mp (h.target.mem_iff.mp hx) with hx | hx
    · exact Or.inr hx
    · exact Or.inl ⟨rfl, hx⟩
  · by_cases hi : k = i
    · subst hi
      exact Or.inr (h.source.mem_iff.mpr (List.mem_append_left _ hx))
    · rw [h.other k hi hj] at hx
      exact Or.inr hx

theorem Moves.given_mem (h : Moves f g i j given) (hx : x ∈ given) : x ∈ f i :=
  h.source.mem_iff.mpr (List.mem_append_right _ hx)

theorem Moves.kept (h : Moves f g i j given) (hf : Exclusive f) (hx : x ∈ g i) : x ∉ given := by
  have hnodup := h.source.nodup_iff.mp (hf.nodup i)
  exact fun hg => (List.nodup_append.mp hnodup).2.2 x hx x hg rfl

theorem Moves.exclusive (h : Moves f g i j given) (hf : Exclusive f) : Exclusive g := by
  have hsplit := List.nodup_append.mp (h.source.nodup_iff.mp (hf.nodup i))
  constructor
  · intro k
    by_cases hj : k = j
    · subst hj
      refine h.target.nodup_iff.mpr (List.nodup_append.mpr ⟨hf.nodup k, hsplit.2.1, ?_⟩)
      intro x hx y hy hxy
      subst hxy
      exact h.ne (hf.unique i k x (h.given_mem hy) hx)
    · by_cases hi : k = i
      · subst hi
        exact hsplit.1
      · rw [h.other k hi hj]
        exact hf.nodup k
  · intro k l x hk hl
    -- a token at two places of `g` would be at two places of `f`, or kept and given away
    have hnot : ∀ p, p ≠ j → x ∈ g p → x ∈ given → False := by
      intro p hp hx hg
      rcases h.mem p hx with ⟨hpj, -⟩ | hxf
      · exact hp hpj
      · have hpi := hf.unique p i x hxf (h.given_mem hg)
        subst hpi
        exact h.kept hf hx hg
    by_cases hkj : k = j
    · by_cases hlj : l = j
      · rw [hkj, hlj]
      · rcases h.mem k hk with ⟨-, hg⟩ | hkf
        · exact (hnot l hlj hl hg).elim
        · rcases h.mem l hl with ⟨hlj', -⟩ | hlf
          · exact absurd hlj' hlj
          · exact hf.unique k l x hkf hlf
    · rcases h.mem k hk with ⟨hkj', -⟩ | hkf
      · exact absurd hkj' hkj
      · rcases h.mem l hl with ⟨-, hg⟩ | hlf
        · exact (hnot k hkj hk hg).elim
        · exact hf.unique k l x hkf hlf

theorem Moves.conserves (h : Moves f g i j given) (hkind : kind i = kind j) :
    Conserves kind f g where
  exclusive := h.exclusive
  held c x := by
    constructor
    · intro ⟨k, hc, hk⟩
      rcases h.mem k hk with ⟨hkj, hg⟩ | hkf
      · exact ⟨i, by rw [hkind, ← hkj, hc], h.given_mem hg⟩
      · exact ⟨k, hc, hkf⟩
    · intro ⟨k, hc, hk⟩
      by_cases hi : k = i
      · subst hi
        rcases List.mem_append.mp (h.source.mem_iff.mp hk) with hx | hx
        · exact ⟨k, hc, hx⟩
        · exact ⟨j, by rw [← hkind, hc], h.target.mem_iff.mpr (List.mem_append_right _ hx)⟩
      · by_cases hj : k = j
        · subst hj
          exact ⟨k, hc, h.target.mem_iff.mpr (List.mem_append_left _ hk)⟩
        · refine ⟨k, hc, ?_⟩
          rw [h.other k hi hj]
          exact hk

/-- A new token comes in at one place. -/
structure Adds (f g : ι → List α) (i : ι) (x : α) : Prop where
  target : (g i).Perm (f i ++ [x])
  other : ∀ k, k ≠ i → g k = f k

theorem Adds.mem_iff (h : Adds f g i x) (k : ι) : y ∈ g k ↔ y ∈ f k ∨ (k = i ∧ y = x) := by
  by_cases hk : k = i
  · subst hk
    rw [h.target.mem_iff, List.mem_append, List.mem_singleton]
    simp
  · rw [h.other k hk]
    simp [hk]

theorem Adds.exclusive (h : Adds f g i x) (hf : Exclusive f) (hx : ∀ k, x ∉ f k) :
    Exclusive g := by
  constructor
  · intro k
    by_cases hk : k = i
    · subst hk
      refine h.target.nodup_iff.mpr
        (List.nodup_append.mpr ⟨hf.nodup k, List.nodup_singleton x, ?_⟩)
      intro y hy z hz hyz
      rw [List.mem_singleton.mp hz] at hyz
      rw [hyz] at hy
      exact hx k hy
    · rw [h.other k hk]
      exact hf.nodup k
  · intro k l y hk hl
    rcases (h.mem_iff k).mp hk with hkf | ⟨hki, hyx⟩
    · rcases (h.mem_iff l).mp hl with hlf | ⟨-, hyx⟩
      · exact hf.unique k l y hkf hlf
      · rw [hyx] at hkf
        exact absurd hkf (hx k)
    · rcases (h.mem_iff l).mp hl with hlf | ⟨hli, -⟩
      · rw [hyx] at hlf
        exact absurd hlf (hx l)
      · rw [hki, hli]

theorem Adds.held (h : Adds f g i x) (c : κ) (y : α) :
    Held kind g c y ↔ (c = kind i ∧ y = x) ∨ Held kind f c y := by
  constructor
  · intro ⟨k, hc, hk⟩
    rcases (h.mem_iff k).mp hk with hkf | ⟨hki, hyx⟩
    · exact Or.inr ⟨k, hc, hkf⟩
    · exact Or.inl ⟨by rw [← hki, hc], hyx⟩
  · intro hor
    rcases hor with ⟨hc, hyx⟩ | ⟨k, hc, hk⟩
    · exact ⟨i, hc.symm, (h.mem_iff i).mpr (Or.inr ⟨rfl, hyx⟩)⟩
    · exact ⟨k, hc, (h.mem_iff k).mpr (Or.inl hk)⟩

end Holdings
end CosmicArchitect.Library
