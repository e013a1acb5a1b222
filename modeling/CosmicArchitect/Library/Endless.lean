import CosmicArchitect.Library.Machine
import Mathlib.Tactic.Choose

/-!
# Runs without an end

What has to happen sooner or later in a run that goes on for ever, under assumptions about
what happens again and again in it. A run may be observed from a part of the machine that
stands still while the other parts move.
-/

namespace CosmicArchitect.Library.Machine

universe u v

variable {σ : Type u} {ℓ : Type v}

/-- The state before every step and the label of the step. -/
structure Endless (M : Machine σ ℓ) where
  state : Nat → σ
  label : Nat → ℓ
  steps : ∀ n, M.step (state n) (label n) = some (state (n + 1))

/-- The machine with a label at which it stands still. -/
def stutter (M : Machine σ ℓ) : Machine σ (Option ℓ) where
  init := M.init
  step s
    | none => some s
    | some l => M.step s l

namespace Endless
variable {M : Machine σ ℓ}

/-- At every time, the assertion holds of a step that is still to come. -/
def Recurs (r : M.Endless) (p : σ → ℓ → Prop) : Prop :=
  ∀ n, ∃ k, n ≤ k ∧ p (r.state k) (r.label k)

theorem Recurs.mono {r : M.Endless} {p q : σ → ℓ → Prop} (h : r.Recurs p)
    (hle : ∀ s l, p s l → q s l) : r.Recurs q := by
  intro n
  obtain ⟨k, hk, hp⟩ := h n
  exact ⟨k, hk, hle _ _ hp⟩

/-- The rule of the variant: while the goal is not reached, the variant falls once more. -/
theorem eventually (r : M.Endless) {P : σ → Prop} (μ : σ → Nat)
    (h : ∀ n, ¬ P (r.state n) → ∃ k, n ≤ k ∧ μ (r.state k) < μ (r.state n)) (n : Nat) :
    ∃ k, n ≤ k ∧ P (r.state k) := by
  induction hμ : μ (r.state n) using Nat.strongRecOn generalizing n with
  | ind x ih =>
    subst hμ
    by_cases hP : P (r.state n)
    · exact ⟨n, Nat.le_refl n, hP⟩
    · obtain ⟨k, hk, hlt⟩ := h n hP
      obtain ⟨j, hj, hP⟩ := ih _ hlt k rfl
      exact ⟨j, Nat.le_trans hk hj, hP⟩

/-- The rest of the run. -/
def drop (r : M.Endless) (n : Nat) : M.Endless where
  state k := r.state (n + k)
  label k := r.label (n + k)
  steps k := r.steps (n + k)

theorem Recurs.drop {r : M.Endless} {p : σ → ℓ → Prop} (h : r.Recurs p) (n : Nat) :
    (r.drop n).Recurs p := by
  intro k
  obtain ⟨j, hj, hp⟩ := h (n + k)
  obtain ⟨i, rfl⟩ := Nat.exists_eq_add_of_le (Nat.le_trans (Nat.le_add_right n k) hj)
  exact ⟨i, Nat.le_of_add_le_add_left hj, hp⟩

/-! ### Runs that come back -/

/-- One more step in front of the run. -/
def cons (r : M.Endless) (s : σ) (l : ℓ) (h : M.step s l = some (r.state 0)) : M.Endless where
  state
    | 0 => s
    | n + 1 => r.state n
  label
    | 0 => l
    | n + 1 => r.label n
  steps
    | 0 => h
    | n + 1 => r.steps n

theorem Recurs.cons {r : M.Endless} {p : σ → ℓ → Prop} (hp : r.Recurs p) {s : σ} {l : ℓ}
    (h : M.step s l = some (r.state 0)) : (r.cons s l h).Recurs p := by
  intro n
  obtain ⟨k, hk, hp⟩ := hp n
  exact ⟨k + 1, Nat.le_succ_of_le hk, hp⟩

/-- A finite run in front of the run. -/
theorem exists_append (r : M.Endless) {ls : List ℓ} :
    ∀ {s : σ}, M.exec s ls = some (r.state 0) →
      ∃ r' : M.Endless, r'.state 0 = s ∧ ∀ p, r.Recurs p → r'.Recurs p := by
  induction ls with
  | nil =>
    intro s h
    cases Option.some.inj h
    exact ⟨r, rfl, fun p hp => hp⟩
  | cons l ls ih =>
    intro s h
    obtain ⟨t, ht, hrest⟩ := Option.bind_eq_some_iff.mp h
    obtain ⟨r', rfl, hr'⟩ := ih hrest
    exact ⟨r'.cons s l ht, rfl, fun p hp => (hr' p hp).cons ht⟩

/-- A label that leads from every state of `I` to one of `I` can be repeated for ever. -/
theorem exists_repeat {I : σ → Prop} {l : ℓ}
    (h : ∀ s, I s → ∃ s', M.step s l = some s' ∧ I s') {s : σ} (hs : I s) :
    ∃ r : M.Endless, r.state 0 = s ∧ ∀ n, r.label n = l := by
  choose next hnext using fun x : {x : σ // I x} => h x.1 x.2
  let x : Nat → {x : σ // I x} := fun n =>
    Nat.rec ⟨s, hs⟩ (fun _ x => ⟨next x, (hnext x).2⟩) n
  exact ⟨⟨fun n => (x n).1, fun _ => l, fun n => (hnext (x n)).1⟩, rfl, fun _ => rfl⟩

/-- The labels that are left of this turn lead to `I`. -/
def OnTurn (M : Machine σ ℓ) (I : σ → Prop) (x : σ × List ℓ) : Prop :=
  x.2 ≠ [] ∧ ∃ s', M.exec x.1 x.2 = some s' ∧ I s'

/-- A step inside a turn, or the last one of it. -/
theorem OnTurn.next {I : σ → Prop} {cycle : List ℓ} (hne : cycle ≠ [])
    (hcycle : ∀ s, I s → ∃ s', M.exec s cycle = some s' ∧ I s') {x : σ × List ℓ}
    (h : OnTurn M I x) : ∃ (l : ℓ) (y : σ × List ℓ), OnTurn M I y ∧ M.step x.1 l = some y.1 ∧
      ∃ rest, x.2 = l :: rest ∧ (rest ≠ [] ∧ y.2 = rest ∨ rest = [] ∧ y.2 = cycle ∧ I y.1) := by
  obtain ⟨s, ls⟩ := x
  obtain ⟨hls, s', hexec, hs'⟩ := h
  cases ls with
  | nil => exact absurd rfl hls
  | cons l rest =>
    obtain ⟨t, ht, hrest⟩ := Option.bind_eq_some_iff.mp hexec
    by_cases hnil : rest = []
    · subst hnil
      cases Option.some.inj hrest
      exact ⟨l, (s', cycle), ⟨hne, hcycle s' hs'⟩, ht, [], rfl, Or.inr ⟨rfl, rfl, hs'⟩⟩
    · exact ⟨l, (t, rest), ⟨hnil, s', hrest, hs'⟩, ht, rest, rfl, Or.inl ⟨hnil, rfl⟩⟩

/-- A list of labels that leads from every state of `I` back to `I` can be repeated for ever. -/
theorem exists_cycle {I : σ → Prop} {cycle : List ℓ} (hne : cycle ≠ [])
    (hcycle : ∀ s, I s → ∃ s', M.exec s cycle = some s' ∧ I s') {s : σ} (hs : I s) :
    ∃ r : M.Endless, r.state 0 = s ∧ r.Recurs (fun s _ => I s) ∧
      ∀ l ∈ cycle, r.Recurs fun _ l' => l' = l := by
  choose label next hnext hstep rest hrest using
    fun x : {x : σ × List ℓ // OnTurn M I x} => x.2.next hne hcycle
  let x : Nat → {x : σ × List ℓ // OnTurn M I x} := fun n =>
    Nat.rec ⟨(s, cycle), hne, hcycle s hs⟩ (fun _ x => ⟨next x, hnext x⟩) n
  let r : M.Endless := ⟨fun n => (x n).1.1, fun n => label (x n), fun n => hstep (x n)⟩
  -- the labels of a turn are taken one after the other
  have hwalk : ∀ (pre post : List ℓ) (n : Nat), post ≠ [] → (x n).1.2 = pre ++ post →
      (x (n + pre.length)).1.2 = post := by
    intro pre
    induction pre with
    | nil => exact fun post n _ h => h
    | cons l pre ih =>
      intro post n hpost h
      obtain ⟨heq, hcase⟩ := hrest (x n)
      obtain ⟨-, htail⟩ := List.cons.inj (h.symm.trans heq)
      have hnext : (x (n + 1)).1.2 = pre ++ post := by
        rcases hcase with ⟨-, hy⟩ | ⟨hnil, -⟩
        · exact hy.trans htail.symm
        · exact absurd (htail.trans hnil) (List.append_ne_nil_of_right_ne_nil pre hpost)
      have hlength : n + (l :: pre).length = n + 1 + pre.length := by
        rw [List.length_cons]
        omega
      rw [hlength]
      exact ih post (n + 1) hpost hnext
  have hturn : ∀ n, ∃ k, n ≤ k ∧ (x k).1.2 = cycle ∧ I (x k).1.1 := by
    intro n
    obtain ⟨pre, l, hpre⟩ : ∃ pre l, (x n).1.2 = pre ++ [l] :=
      ⟨_, _, (List.dropLast_concat_getLast (x n).2.1).symm⟩
    have hlast := hwalk pre [l] n (List.cons_ne_nil l []) hpre
    obtain ⟨heq, hcase⟩ := hrest (x (n + pre.length))
    obtain ⟨-, htail⟩ := List.cons.inj (hlast.symm.trans heq)
    rcases hcase with ⟨hne', -⟩ | ⟨-, hy, hI⟩
    · exact absurd htail.symm hne'
    · exact ⟨n + pre.length + 1, by omega, hy, hI⟩
  refine ⟨r, rfl, fun n => ?_, fun l hl n => ?_⟩
  · obtain ⟨k, hk, -, hI⟩ := hturn n
    exact ⟨k, hk, hI⟩
  · obtain ⟨k, hk, hk', -⟩ := hturn n
    obtain ⟨pre, post, hsplit⟩ := List.append_of_mem hl
    have hat := hwalk pre (l :: post) k (List.cons_ne_nil l post) (hk'.trans hsplit)
    obtain ⟨heq, -⟩ := hrest (x (k + pre.length))
    exact ⟨k + pre.length, by omega, (List.cons.inj (hat.symm.trans heq)).1.symm⟩

end Endless
end CosmicArchitect.Library.Machine
