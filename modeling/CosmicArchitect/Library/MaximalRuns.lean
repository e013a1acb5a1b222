import Mathlib.Tactic.Common

/-!
# Maximal runs of a set of positions

A run is a pair of a first and a last position. A pass over a set in increasing order finds
its maximal runs when it extends the last run or starts a new one behind a gap.
-/

namespace CosmicArchitect.Library

/-- A run of `P` that goes on neither in front of its first position nor behind its last. -/
structure MaximalRun (P : Nat → Prop) (r : Nat × Nat) : Prop where
  le : r.1 ≤ r.2
  inside : ∀ q, r.1 ≤ q → q ≤ r.2 → P q
  first : ∀ q, q + 1 = r.1 → ¬P q
  last : ¬P (r.2 + 1)

/-- Runs in increasing order, with at least `gap` positions between any two. -/
structure Spaced (gap : Nat) (runs : List (Nat × Nat)) : Prop where
  le : ∀ r ∈ runs, r.1 ≤ r.2
  apart : runs.Pairwise fun r r' => r.2 + gap < r'.1

/-- The list holds the maximal runs of `P`, in increasing order, and their union is `P`. -/
structure MaximalRuns (P : Nat → Prop) (runs : List (Nat × Nat)) : Prop where
  spaced : Spaced 1 runs
  union : ∀ q, P q ↔ ∃ r ∈ runs, r.1 ≤ q ∧ q ≤ r.2
  run : ∀ r, r ∈ runs ↔ MaximalRun P r

variable {P : Nat → Prop} {gap : Nat} {runs : List (Nat × Nat)}

theorem spaced_nil : Spaced gap [] :=
  ⟨fun _ h => absurd h List.not_mem_nil, List.Pairwise.nil⟩

theorem Spaced.append {r : Nat × Nat} (h : Spaced gap runs) (hr : r.1 ≤ r.2)
    (hgap : ∀ x ∈ runs, x.2 + gap < r.1) : Spaced gap (runs ++ [r]) where
  le x hx := by
    rcases List.mem_append.mp hx with hx | hx
    · exact h.le x hx
    · rw [List.mem_singleton.mp hx]
      exact hr
  apart := by
    apply List.pairwise_append.mpr
    refine ⟨h.apart, List.pairwise_singleton _ _, ?_⟩
    intro x hx y hy
    rw [List.mem_singleton.mp hy]
    exact hgap x hx

theorem Spaced.extend {b e e' : Nat} (h : Spaced gap (runs ++ [(b, e)])) (he : e ≤ e') :
    Spaced gap (runs ++ [(b, e')]) := by
  obtain ⟨hruns, _, hgap⟩ := List.pairwise_append.mp h.apart
  have hbe : b ≤ e := h.le (b, e) (List.mem_append_right _ (List.mem_singleton_self _))
  have hold : Spaced gap runs := ⟨fun x hx => h.le x (List.mem_append_left _ hx), hruns⟩
  apply hold.append (Nat.le_trans hbe he)
  intro x hx
  exact hgap x hx (b, e) (List.mem_singleton_self _)

/-- Two runs that meet or touch are one. -/
theorem Spaced.eq_of_touch (h : Spaced 1 runs) {r r' : Nat × Nat} (hr : r ∈ runs)
    (hr' : r' ∈ runs) (htouch : r.1 ≤ r'.2 + 1) (htouch' : r'.1 ≤ r.2 + 1) : r = r' := by
  induction runs with
  | nil => exact absurd hr List.not_mem_nil
  | cons x runs ih =>
    obtain ⟨hgap, hrest⟩ := List.pairwise_cons.mp h.apart
    have hrest : Spaced 1 runs := ⟨fun y hy => h.le y (List.mem_cons_of_mem _ hy), hrest⟩
    rcases List.mem_cons.mp hr with hx | hr
    · rcases List.mem_cons.mp hr' with hx' | hr'
      · rw [hx, hx']
      · have := hgap r' hr'
        rw [hx] at htouch'
        omega
    · rcases List.mem_cons.mp hr' with hx' | hr'
      · have := hgap r hr
        rw [hx'] at htouch
        omega
      · exact ih hrest hr hr'

/-- A run of the list ends where the set has a gap. -/
theorem Spaced.maximalRun (h : Spaced 1 runs)
    (hunion : ∀ q, P q ↔ ∃ r ∈ runs, r.1 ≤ q ∧ q ≤ r.2) {r : Nat × Nat} (hr : r ∈ runs) :
    MaximalRun P r := by
  have hle := h.le r hr
  refine ⟨hle, fun q hfirst hlast => (hunion q).mpr ⟨r, hr, hfirst, hlast⟩, ?_, ?_⟩
  · intro q hq hP
    obtain ⟨r', hr', hfirst, hlast⟩ := (hunion q).mp hP
    have heq := h.eq_of_touch hr hr' (by omega) (by omega)
    rw [← heq] at hfirst
    omega
  · intro hP
    obtain ⟨r', hr', hfirst, hlast⟩ := (hunion (r.2 + 1)).mp hP
    have heq := h.eq_of_touch hr hr' (by omega) hfirst
    rw [← heq] at hlast
    omega

/-- Two maximal runs with a common position are one. -/
theorem MaximalRun.unique {r r' : Nat × Nat} (h : MaximalRun P r) (h' : MaximalRun P r') {q : Nat}
    (hq : r.1 ≤ q ∧ q ≤ r.2) (hq' : r'.1 ≤ q ∧ q ≤ r'.2) : r = r' := by
  have hfirst : ∀ {x y : Nat × Nat}, MaximalRun P x → MaximalRun P y → x.1 ≤ q → q ≤ y.2 →
      x.1 ≤ y.1 := by
    intro x y hx hy hxq hyq
    apply Nat.le_of_not_lt
    intro hlt
    exact hx.first (x.1 - 1) (by omega) (hy.inside _ (by omega) (by omega))
  have hlast : ∀ {x y : Nat × Nat}, MaximalRun P x → MaximalRun P y → y.1 ≤ q → q ≤ x.2 →
      y.2 ≤ x.2 := by
    intro x y hx hy hyq hxq
    apply Nat.le_of_not_lt
    intro hlt
    exact hx.last (hy.inside _ (by omega) (by omega))
  have hbegin : r.1 = r'.1 :=
    Nat.le_antisymm (hfirst h h' hq.1 hq'.2) (hfirst h' h hq'.1 hq.2)
  have hend : r.2 = r'.2 := Nat.le_antisymm (hlast h' h hq.1 hq'.2) (hlast h h' hq'.1 hq.2)
  exact Prod.ext hbegin hend

/-- Runs with gaps between them are the maximal runs of their union. -/
theorem Spaced.maximalRuns (h : Spaced 1 runs)
    (hunion : ∀ q, P q ↔ ∃ r ∈ runs, r.1 ≤ q ∧ q ≤ r.2) : MaximalRuns P runs where
  spaced := h
  union := hunion
  run r := by
    constructor
    · exact fun hr => h.maximalRun hunion hr
    · intro hr
      obtain ⟨r', hr', hfirst, hlast⟩ :=
        (hunion r.1).mp (hr.inside r.1 (Nat.le_refl _) hr.le)
      have heq := hr.unique (h.maximalRun hunion hr') ⟨Nat.le_refl _, hr.le⟩ ⟨hfirst, hlast⟩
      rw [heq]
      exact hr'

end CosmicArchitect.Library
