import Mathlib.Logic.Relation
import Mathlib.Data.List.Induction

/-!
# Machines with labelled steps

A machine whose nondeterminism (scheduling, the answers of the environment, addresses
handed out by an allocator) is carried by the labels of its steps. A guard restricts the
steps a run may take, so that one machine serves for all runs and for the runs in which a
side condition holds at every step.
-/

namespace CosmicArchitect.Library

universe u v

structure Machine (σ : Type u) (ℓ : Type v) where
  init : σ → Prop
  step : σ → ℓ → Option σ

namespace Machine
variable {σ : Type u} {ℓ : Type v} (M : Machine σ ℓ)

/-- States reached by runs all of whose steps satisfy the guard. -/
inductive Reach (guard : σ → ℓ → Prop) : σ → Prop
  | init {s : σ} : M.init s → Reach guard s
  | step {s s' : σ} {l : ℓ} : Reach guard s → guard s l → M.step s l = some s' → Reach guard s'

def anyStep : σ → ℓ → Prop := fun _ _ => True

abbrev Reachable : σ → Prop := M.Reach anyStep

variable {M}

/-- An assertion that holds at the start and is kept by every guarded step holds in
every state of every guarded run. The step may use that its source is reachable. -/
theorem Reach.invariant {guard : σ → ℓ → Prop} {I : σ → Prop}
    (hinit : ∀ s, M.init s → I s)
    (hstep : ∀ s l s', M.Reach guard s → I s → guard s l → M.step s l = some s' → I s')
    {s : σ} (h : M.Reach guard s) : I s := by
  induction h with
  | init hi => exact hinit _ hi
  | step hr hg hs ih => exact hstep _ _ _ hr ih hg hs

theorem Reach.mono {guard guard' : σ → ℓ → Prop} (hle : ∀ s l, guard s l → guard' s l)
    {s : σ} (h : M.Reach guard s) : M.Reach guard' s := by
  induction h with
  | init hi => exact .init hi
  | step _ hg hs ih => exact .step ih (hle _ _ hg) hs

theorem Reach.reachable {guard : σ → ℓ → Prop} {s : σ} (h : M.Reach guard s) :
    M.Reachable s :=
  h.mono fun _ _ _ => trivial

variable (M) in
/-- The state after a list of labels; `none` when one of them is not enabled. -/
def exec : σ → List ℓ → Option σ
  | s, [] => some s
  | s, l :: ls => (M.step s l).bind fun s' => exec s' ls

variable (M) in
/-- The guard holds at every step of an executed list of labels. -/
def Follows (guard : σ → ℓ → Prop) : σ → List ℓ → Prop
  | _, [] => True
  | s, l :: ls => guard s l ∧ ∀ s', M.step s l = some s' → Follows guard s' ls

instance decidableFollows {guard : σ → ℓ → Prop} [∀ s l, Decidable (guard s l)] :
    (s : σ) → (ls : List ℓ) → Decidable (M.Follows guard s ls)
  | _, [] => isTrue trivial
  | s, l :: ls =>
    match h : M.step s l with
    | none => decidable_of_iff (guard s l) (by simp [Follows, h])
    | some s' =>
      have : Decidable (M.Follows guard s' ls) := decidableFollows s' ls
      decidable_of_iff (guard s l ∧ M.Follows guard s' ls) (by simp [Follows, h])

theorem Reach.exec {guard : σ → ℓ → Prop} {ls : List ℓ} :
    ∀ {s s' : σ}, M.Reach guard s → M.Follows guard s ls → M.exec s ls = some s' →
      M.Reach guard s' := by
  induction ls with
  | nil =>
    intro s s' hr _ he
    cases Option.some.inj he
    exact hr
  | cons l ls ih =>
    intro s s' hr hf he
    obtain ⟨t, ht, hrest⟩ := Option.bind_eq_some_iff.mp he
    exact ih (.step hr hf.1 ht) (hf.2 t ht) hrest

theorem exec_append {ls ls' : List ℓ} : ∀ {s t u : σ}, M.exec s ls = some t →
    M.exec t ls' = some u → M.exec s (ls ++ ls') = some u := by
  induction ls with
  | nil =>
    intro s t u h h'
    cases Option.some.inj h
    exact h'
  | cons l ls ih =>
    intro s t u h h'
    obtain ⟨v, hv, hrest⟩ := Option.bind_eq_some_iff.mp h
    exact Option.bind_eq_some_iff.mpr ⟨v, hv, ih hrest h'⟩

theorem exec_invariant {I : σ → Prop} {P : ℓ → Prop}
    (hI : ∀ s l s', I s → P l → M.step s l = some s' → I s') {ls : List ℓ} :
    ∀ {s s' : σ}, I s → (∀ l ∈ ls, P l) → M.exec s ls = some s' → I s' := by
  induction ls with
  | nil =>
    intro s s' hs _ he
    cases Option.some.inj he
    exact hs
  | cons l ls ih =>
    intro s s' hs hP he
    obtain ⟨t, ht, hrest⟩ := Option.bind_eq_some_iff.mp he
    have ht' := hI s l t hs (hP l (List.mem_cons_self ..)) ht
    exact ih ht' (fun l' hl' => hP l' (List.mem_cons_of_mem _ hl')) hrest

theorem follows_any (ls : List ℓ) : ∀ s : σ, M.Follows anyStep s ls := by
  induction ls with
  | nil => intro s; trivial
  | cons l ls ih => intro s; exact ⟨trivial, fun s' _ => ih s'⟩

section
variable {guard : σ → ℓ → Prop} {ls ls' : List ℓ}

theorem Follows.mono {guard' : σ → ℓ → Prop} (hle : ∀ s l, guard s l → guard' s l) :
    ∀ {s : σ}, M.Follows guard s ls → M.Follows guard' s ls := by
  induction ls with
  | nil => exact fun _ => trivial
  | cons l ls ih => exact fun h => ⟨hle _ l h.1, fun t ht => ih (h.2 t ht)⟩

theorem Follows.before : ∀ {s : σ}, M.Follows guard s (ls ++ ls') → M.Follows guard s ls := by
  induction ls with
  | nil => exact fun _ => trivial
  | cons l ls ih => exact fun h => ⟨h.1, fun t ht => ih (h.2 t ht)⟩

theorem Follows.behind : ∀ {s t : σ}, M.Follows guard s (ls ++ ls') → M.exec s ls = some t →
    M.Follows guard t ls' := by
  induction ls with
  | nil =>
    intro s t h he
    cases Option.some.inj he
    exact h
  | cons l ls ih =>
    intro s t h he
    obtain ⟨u, hu, hrest⟩ := Option.bind_eq_some_iff.mp he
    exact ih (h.2 u hu) hrest

end

/-- Two guards that agree on the steps of an executed list agree on the list. The assertion
under which they agree may rest on the guard of the steps taken. -/
theorem follows_iff {guard guard' : σ → ℓ → Prop} {I : σ → Prop}
    (hI : ∀ s l s', I s → guard s l → M.step s l = some s' → I s')
    (hg : ∀ s l s', I s → M.step s l = some s' → (guard s l ↔ guard' s l)) {ls : List ℓ} :
    ∀ {s s' : σ}, I s → M.exec s ls = some s' →
      (M.Follows guard s ls ↔ M.Follows guard' s ls) := by
  induction ls with
  | nil => intro s s' _ _; exact Iff.rfl
  | cons l ls ih =>
    intro s s' hs he
    obtain ⟨t, ht, hrest⟩ := Option.bind_eq_some_iff.mp he
    have hnext : ∀ {g : σ → ℓ → Prop}, (∀ t', M.step s l = some t' → M.Follows g t' ls) ↔
        M.Follows g t ls := by
      intro g
      refine ⟨fun h => h t ht, fun h t' ht' => ?_⟩
      cases ht.symm.trans ht'
      exact h
    simp only [Follows, hnext]
    rw [hg s l t hs ht]
    refine and_congr_right fun hguard => ?_
    exact ih (hI s l t hs ((hg s l t hs ht).mpr hguard) ht) hrest

theorem reachable_of_exec {s s' : σ} {ls : List ℓ} (hi : M.init s)
    (he : M.exec s ls = some s') : M.Reachable s' :=
  Reach.exec (.init hi) (follows_any ls s) he

end Machine

/-! ### Histories -/

/-- A history grows by one step at a time. A step that meets its guard keeps the invariant, a
history with the invariant is good, and a step that fails its guard leaves a history that is not
good. Then all beginnings are good exactly when all steps meet their guards. -/
theorem beginnings_good_iff {ο : Type u} {I good : List ο → Prop} {guard : List ο → ο → Prop}
    (hnil : I []) (hgood : ∀ before, I before → good before)
    (hstep : ∀ before o, I before → guard before o → I (before ++ [o]))
    (hbad : ∀ before o, I before → ¬guard before o → ¬good (before ++ [o]))
    (history : List ο) :
    (∀ before, before <+: history → good before) ↔
      ∀ before o, before ++ [o] <+: history → guard before o := by
  have hshorter : ∀ {before ops : List ο} {o : ο}, before <+: ops → before <+: ops ++ [o] :=
    fun hle => hle.trans (List.prefix_append _ _)
  -- good beginnings and met guards both carry the invariant from step to step
  have hinvariant : ∀ ops : List ο, (∀ before, before <+: ops → good before) → I ops := by
    intro ops
    induction ops using List.reverseRecOn with
    | nil => exact fun _ => hnil
    | append_singleton ops o ih =>
      intro h
      have hops := ih fun before hle => h before (hshorter hle)
      by_contra hnot
      exact hbad ops o hops (fun hguard => hnot (hstep ops o hops hguard)) (h _ List.prefix_rfl)
  have hguarded : ∀ ops : List ο,
      (∀ before o, before ++ [o] <+: ops → guard before o) → I ops := by
    intro ops
    induction ops using List.reverseRecOn with
    | nil => exact fun _ => hnil
    | append_singleton ops o ih =>
      intro h
      exact hstep ops o (ih fun before o' hle => h before o' (hshorter hle))
        (h ops o List.prefix_rfl)
  constructor
  · intro h before o hle
    have hbefore := hinvariant before fun earlier hle' =>
      h earlier (hle'.trans ((List.prefix_append _ _).trans hle))
    by_contra hnot
    exact hbad before o hbefore hnot (h _ hle)
  · intro h before hle
    exact hgood before (hguarded before fun earlier o hle' => h earlier o (hle'.trans hle))

end CosmicArchitect.Library
