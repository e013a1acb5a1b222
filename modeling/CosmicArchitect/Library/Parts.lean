import CosmicArchitect.Library.Machine

/-!
# Machines of independent parts

Every step belongs to one part of the state. It does to this part what is determined by the part
alone, and leaves the others. How the steps of different parts are interleaved then does not
matter: when all parts are done, each is where its own steps lead.
-/

namespace CosmicArchitect.Library.Machine
open Relation

universe u v w x

variable {σ : Type u} {ℓ : Type v} {ι : Type w} {π : Type x} {M : Machine σ (ι × ℓ)}

/-- Under the invariant, a step of the part `i` is `next i` on it. -/
structure Parted (M : Machine σ (ι × ℓ)) (I : σ → Prop) (part : ι → σ → π)
    (next : ι → π → Option π) : Prop where
  own : ∀ {s s' i l}, I s → M.step s (i, l) = some s' → next i (part i s) = some (part i s')
  other : ∀ {s s' i j l}, I s → M.step s (i, l) = some s' → j ≠ i → part j s' = part j s
  inv : ∀ {s s' l}, I s → M.step s l = some s' → I s'

/-- The steps of one part. -/
abbrev Leads (next : π → Option π) : π → π → Prop := ReflTransGen fun p p' => next p = some p'

theorem Leads.unique {next : π → Option π} {p q r : π} (hq : Leads next p q) (hr : Leads next p r)
    (hqdone : next q = none) (hrdone : next r = none) : q = r := by
  have hdet : Relator.RightUnique fun p p' => next p = some p' := by
    intro p q r hpq hpr
    exact Option.some.inj (hpq.symm.trans hpr)
  have hstop : ∀ {q r : π}, next q = none → Leads next q r → q = r := by
    intro q r hdone h
    rcases ReflTransGen.cases_head h with heq | ⟨p, hp, -⟩
    · exact heq
    · rw [hdone] at hp
      cases hp
  rcases ReflTransGen.total_of_right_unique hdet hq hr with h | h
  · exact hstop hqdone h
  · exact (hstop hrdone h).symm

/-- There is a run from one state to the other. -/
def Runs {ℓ : Type v} (M : Machine σ ℓ) (s s' : σ) : Prop := ∃ ls, M.exec s ls = some s'

theorem Runs.refl {ℓ : Type v} (M : Machine σ ℓ) (s : σ) : M.Runs s s := ⟨[], rfl⟩

theorem Runs.trans {ℓ : Type v} {M : Machine σ ℓ} {s s' s'' : σ} (h : M.Runs s s')
    (h' : M.Runs s' s'') : M.Runs s s'' := by
  obtain ⟨ls, hls⟩ := h
  obtain ⟨ls', hls'⟩ := h'
  exact ⟨ls ++ ls', exec_append hls hls'⟩

theorem Runs.step {ℓ : Type v} {M : Machine σ ℓ} {s s' s'' : σ} {l : ℓ} (h : M.step s l = some s')
    (h' : M.Runs s' s'') : M.Runs s s'' := by
  obtain ⟨ls, hls⟩ := h'
  exact ⟨l :: ls, by rw [exec, h, Option.bind_some, hls]⟩

/-- A run to the end exists when there is always a step towards it. -/
theorem Runs.complete {ℓ : Type v} {M : Machine σ ℓ} {I done : σ → Prop} {f : σ → Nat}
    (hprogress : ∀ s, I s → ¬ done s →
      ∃ l s', M.step s l = some s' ∧ I s' ∧ f s' < f s) :
    ∀ k s, f s = k → I s → ∃ s', M.Runs s s' ∧ done s' := by
  intro k
  induction k using Nat.strongRecOn with
  | ind k ih =>
    intro s hk hs
    by_cases hdone : done s
    · exact ⟨s, .refl M s, hdone⟩
    · obtain ⟨l, s', hstep, hs', hlt⟩ := hprogress s hs hdone
      obtain ⟨s'', hruns, hend⟩ := ih (f s') (hk ▸ hlt) s' rfl hs'
      exact ⟨s'', .step hstep hruns, hend⟩

/-- No run is longer than the measure it uses up. -/
theorem exec_length_le {ℓ : Type v} {M : Machine σ ℓ} {I : σ → Prop} {f : σ → Nat}
    (hstep : ∀ s l s', I s → M.step s l = some s' → I s' ∧ f s' < f s) {ls : List ℓ} :
    ∀ {s s'}, I s → M.exec s ls = some s' → ls.length + f s' ≤ f s := by
  induction ls with
  | nil =>
    intro s s' _ he
    cases Option.some.inj he
    exact Nat.le_of_eq (Nat.zero_add _)
  | cons l ls ih =>
    intro s s' hs he
    obtain ⟨t, ht, hrest⟩ := Option.bind_eq_some_iff.mp he
    obtain ⟨hinv, hlt⟩ := hstep s l t hs ht
    have hle := ih hinv hrest
    rw [List.length_cons]
    omega

variable {I : σ → Prop} {part : ι → σ → π} {next : ι → π → Option π}

/-- The parts of a state after a run are where their own steps lead. -/
theorem Parted.leads (h : Parted M I part next) {ls : List (ι × ℓ)} : ∀ {s s' : σ}, I s →
    M.exec s ls = some s' → I s' ∧ ∀ i, Leads (next i) (part i s) (part i s') := by
  induction ls with
  | nil =>
    intro s s' hs he
    cases Option.some.inj he
    exact ⟨hs, fun i => .refl⟩
  | cons l ls ih =>
    intro s s' hs he
    obtain ⟨t, ht, hrest⟩ := Option.bind_eq_some_iff.mp he
    obtain ⟨i, l⟩ := l
    obtain ⟨hs', hleads⟩ := ih (h.inv hs ht) hrest
    refine ⟨hs', fun j => ?_⟩
    by_cases hj : j = i
    · subst hj
      exact .head (h.own hs ht) (hleads j)
    · have hlead := hleads j
      rw [h.other hs ht hj] at hlead
      exact hlead

/-- All runs to the end of all parts end with the same parts. -/
theorem Parted.agree (h : Parted M I part next) {ls ls' : List (ι × ℓ)} {s s₁ s₂ : σ} (hs : I s)
    (h₁ : M.exec s ls = some s₁) (h₂ : M.exec s ls' = some s₂)
    (hdone₁ : ∀ i, next i (part i s₁) = none) (hdone₂ : ∀ i, next i (part i s₂) = none) (i : ι) :
    part i s₁ = part i s₂ :=
  Leads.unique ((h.leads hs h₁).2 i) ((h.leads hs h₂).2 i) (hdone₁ i) (hdone₂ i)

end CosmicArchitect.Library.Machine
