import Mathlib.Logic.Relation
import Mathlib.Order.WellFoundedSet

/-!
# One pass over things that hold each other

A thing can go when nothing outside holds it and its holders are gone. A pass visits the things
in some order and looks at each of them once.
-/

namespace CosmicArchitect.Library

universe u

section
variable {α : Type u} (Free : α → Prop) (Holds : α → α → Prop) (order : List α)

/-- `x` comes in front of `y`. -/
def Before (x y : α) : Prop := ∃ visited rest, order = visited ++ y :: rest ∧ x ∈ visited

/-- What can go after enough passes. -/
inductive Collectable : α → Prop
  | intro (x : α) (free : Free x) (held : ∀ y, Holds y x → Collectable y) : Collectable x

/-- What goes in one pass. -/
inductive Swept : α → Prop
  | intro (x : α) (free : Free x) (held : ∀ y, Holds y x → Swept y)
    (first : ∀ y, Holds y x → Before order y x) : Swept x

end

variable {α : Type u} {Free : α → Prop} {Holds : α → α → Prop} {order visited rest : List α} {x y : α}

theorem before_iff (hnodup : order.Nodup) (ho : order = visited ++ x :: rest) :
    Before order y x ↔ y ∈ visited := by
  constructor
  · intro hbefore
    obtain ⟨visited', rest', ho', hy⟩ := hbefore
    -- `x` comes once
    have hvisited : x ∉ visited := by
      rw [ho] at hnodup
      exact fun hx => (List.nodup_append.mp hnodup).2.2 x hx x List.mem_cons_self rfl
    have hrest : x ∉ rest := by
      rw [ho] at hnodup
      exact (List.nodup_cons.mp (List.nodup_append.mp hnodup).2.1).1
    obtain ⟨rfl, -⟩ := (List.append_cons_inj_of_notMem hvisited hrest).mp (ho.symm.trans ho')
    exact hy
  · intro hy
    exact ⟨visited, rest, ho, hy⟩

theorem Swept.collectable (h : Swept Free Holds order x) : Collectable Free Holds x := by
  induction h with
  | intro x hfree _ _ ih => exact .intro x hfree ih

/-- A pass takes all that can go if and only if it meets the holders of each of these first. -/
theorem swept_iff_before : (∀ x, Collectable Free Holds x → Swept Free Holds order x) ↔
    ∀ x, Collectable Free Holds x → ∀ y, Holds y x → Before order y x := by
  constructor
  · intro h x hx y hy
    cases h x hx with
    | intro _ _ _ hfirst => exact hfirst y hy
  · intro h x hx
    induction hx with
    | intro x hfree held ih =>
      exact .intro x hfree ih (h x (.intro x hfree held))

/-- Nothing more can go after a pass if and only if it took all that could go. -/
theorem swept_closed_iff :
    (∀ x, Free x → (∀ y, Holds y x → Swept Free Holds order y) → Swept Free Holds order x) ↔
      ∀ x, Collectable Free Holds x → Swept Free Holds order x := by
  constructor
  · intro h x hx
    induction hx with
    | intro x hfree _ ih => exact h x hfree ih
  · intro h x hfree hheld
    exact h x (.intro x hfree fun y hy => (hheld y hy).collectable)

/-- Without cycles all of finitely many free things can go. -/
theorem collectable_of_acyclic {s : Set α} (hs : s.Finite) (hfree : ∀ x ∈ s, Free x)
    (hholds : ∀ y x, Holds y x → y ∈ s) (hacyclic : ∀ x, ¬ Relation.TransGen Holds x x)
    (hx : x ∈ s) : Collectable Free Holds x := by
  have hstrict : IsStrictOrder α (Relation.TransGen Holds) :=
    { irrefl := hacyclic, trans := fun _ _ _ => Relation.TransGen.trans }
  have hwf : s.WellFoundedOn (Relation.TransGen Holds) := hs.wellFoundedOn
  apply hwf.induction hx
  intro x hx ih
  exact .intro x (hfree x hx) fun y hy => ih y (hholds y x hy) (.single hy)

end CosmicArchitect.Library
