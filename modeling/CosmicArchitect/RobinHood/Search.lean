import CosmicArchitect.RobinHood.Invariant

/-!
# Looking for a key

`findIdx`, the loop of `erase(key)` and the two loops at the beginning of
`insertKeyPrepareEmptySpot` find the slot of a key if it has one. Otherwise the last two stop where
the key belongs.
-/

namespace CosmicArchitect.RobinHood.Table
open Library

variable {K V : Type} {hash : K → BitVec 64} {t : Table K V} {key : K}

/-- The key is not in the table. -/
def Absent (t : Table K V) (key : K) : Prop := ∀ i e, t.occ i = some e → e.1 ≠ key

/-- A loop that goes from byte to byte ends at the first one at which its condition fails. -/
theorem nextWhile_spec {cond : Nat → Nat → Bool} {p : Nat} : ∀ {fuel idx : Nat},
    t.home hash key ≤ idx → idx ≤ p → p < idx + fuel →
    (∀ j, idx ≤ j → j < p → ∃ b, t.infoAt j = .ok b ∧ cond (t.byte hash key j) b = true) →
    (∃ b, t.infoAt p = .ok b ∧ cond (t.byte hash key p) b = false) →
    t.nextWhile cond fuel (t.byte hash key idx) idx = .ok (t.byte hash key p, p) := by
  intro fuel
  induction fuel with
  | zero =>
    intro idx _ hle hlt
    omega
  | succ fuel ih =>
    intro idx hhome hle hlt hpass hstop
    rw [nextWhile]
    rcases Nat.eq_or_lt_of_le hle with rfl | hlt'
    · obtain ⟨b, hb, hcond⟩ := hstop
      rw [hb]
      simp only [bind, Except.bind, hcond, Bool.false_eq_true, if_false]
    · obtain ⟨b, hb, hcond⟩ := hpass idx le_rfl hlt'
      rw [hb]
      simp only [bind, Except.bind, hcond, if_true, ← byte_succ hhome]
      exact ih (by omega) hlt' (by omega) (fun j hj => hpass j (by omega)) hstop

namespace Inv
variable (h : t.Inv hash)
include h

theorem fuel_gt {i j : Nat} (hi : i ≤ t.keyVals.length) : i < j + t.fuel := by
  have := h.info_length
  unfold fuel
  omega

/-- Entries of equal keys have the same home and the same rank. -/
theorem before_key {s : Nat} {v : V} (hs : t.occ s = some (key, v)) {j : Nat}
    (hj : t.home hash key ≤ j) (hjs : j < s) : ∃ a, t.occ j = some a ∧
      (t.homes hash h.inc).rank a ≤ (t.homes hash h.inc).rank (key, v) :=
  h.layout.before hs hj hjs

theorem le_infoAt {j : Nat} {a : K × V} (ha : t.occ j = some a) (hj : t.home hash key ≤ j)
    {v : V} (hrank : (t.homes hash h.inc).rank a ≤ (t.homes hash h.inc).rank (key, v)) :
    t.byte hash key j ≤ t.byte hash a.1 j := by
  by_contra hlt
  have := (byte_lt_iff (h := h.inc) (v := a.2) (w := v) (h.occ_home ha) hj).mp
    (Nat.not_le.mp hlt)
  exact absurd hrank (Int.not_le.mpr this)

/-- Past a slot without the key the search goes on as long as the key may follow. -/
theorem loop_continues {s j : Nat} {v : V} (hs : t.occ s = some (key, v))
    (hj : t.home hash key ≤ j) (hjs : j ≤ s) :
    ∃ b, t.infoAt j = .ok b ∧ t.byte hash key j ≤ b := by
  rcases Nat.eq_or_lt_of_le hjs with rfl | hlt
  · exact ⟨_, h.infoAt_occ hs, le_rfl⟩
  · obtain ⟨a, ha, hrank⟩ := h.before_key hs hj hlt
    exact ⟨_, h.infoAt_occ ha, h.le_infoAt ha hj hrank⟩

/-- When the search goes on there is an entry. -/
theorem lt_of_continues {j b : Nat} (hj : j < t.keyVals.length + 8) (hb : t.infoAt j = .ok b)
    (hle : t.byte hash key j ≤ b) : j < t.keyVals.length := by
  cases ha : t.occ j with
  | none =>
    obtain ⟨b', hb', hlt⟩ := h.infoAt_lt ha hj key j
    cases hb.symm.trans hb'
    omega
  | some a => exact lt_of_occ ha

/-- A search goes on only near the home of the key. -/
theorem near_of_continues {j b : Nat} (hb : t.infoAt j = .ok b) (hj : j < t.keyVals.length)
    (hle : t.byte hash key j ≤ b) : j ≤ t.home hash key + 126 := by
  have hinc := h.inc.two_le.1
  have hsmall : b ≤ 255 := by
    cases ha : t.occ j with
    | none =>
      obtain ⟨b', hb', hle', -⟩ := h.infoAt_none ha (by omega)
      cases hb.symm.trans hb'
      omega
    | some a =>
      cases hb.symm.trans (h.infoAt_occ ha)
      exact h.small ha
  have hdist : 2 * (j - t.home hash key + 1) ≤ t.infoInc * (j - t.home hash key + 1) :=
    Nat.mul_le_mul_right _ hinc
  unfold byte at hle
  omega

theorem infoAt_ok {j : Nat} (hj : j < t.keyVals.length + 8) : ∃ b, t.infoAt j = .ok b := by
  cases ha : t.occ j with
  | none =>
    obtain ⟨b, hb, -⟩ := h.infoAt_none ha hj
    exact ⟨b, hb⟩
  | some a => exact ⟨_, h.infoAt_occ ha⟩

theorem home_le_of_occ {s : Nat} {v : V} (hs : t.occ s = some (key, v)) :
    t.home hash key ≤ s := by
  have hle := h.occ_home hs
  exact hle

theorem endIdx_eq : t.endIdx = t.keyVals.length := by
  rw [h.capacity]
  rfl

/-- What a search answers: the slot of the key, or that it is absent. -/
def Found (t : Table K V) (key : K) : Option Nat → Prop
  | some s => ∃ v, t.occ s = some (key, v)
  | none => t.Absent key

theorem found_unique {r r' : Option Nat} (hr : Found t key r) (hr' : Found t key r') : r' = r := by
  cases r with
  | none =>
    cases r' with
    | none => rfl
    | some s =>
      obtain ⟨v, hv⟩ := hr'
      exact absurd rfl (hr s _ hv)
  | some s =>
    obtain ⟨v, hv⟩ := hr
    cases r' with
    | none => exact absurd rfl (hr' s _ hv)
    | some s' =>
      obtain ⟨v', hv'⟩ := hr'
      rw [h.distinct s' s _ _ hv' hv rfl]

section
variable [DecidableEq K]

theorem keyAt_spec (key : K) {j : Nat} (hj : j ≤ t.keyVals.length + 7) :
    ∃ r, t.keyAt key (t.byte hash key j) j = .ok r ∧
      (r = true ↔ ∃ v, t.occ j = some (key, v)) := by
  cases ha : t.occ j with
  | none =>
    obtain ⟨b, hb, hlt⟩ := h.infoAt_lt ha (by omega) key j
    refine ⟨false, ?_, by simp⟩
    unfold keyAt
    rw [hb]
    simp only [bind, Except.bind]
    rw [if_neg (by omega)]
  | some a =>
    unfold keyAt
    rw [h.infoAt_occ ha, nodeAt_occ ha]
    simp only [bind, Except.bind]
    by_cases hkey : key = a.1
    · rw [if_pos (by rw [hkey])]
      exact ⟨_, rfl, by simp [hkey, Prod.ext_iff]⟩
    · have hno : ¬ ∃ v, some a = some (key, v) := by
        rintro ⟨v, hv⟩
        cases hv
        exact hkey rfl
      split
      · exact ⟨_, rfl, by simpa [hkey] using hno⟩
      · exact ⟨false, rfl, by simpa using hno⟩

theorem eraseLoop_spec (key : K) : ∀ (fuel : Nat) {idx : Nat}, t.home hash key ≤ idx → idx ≤ t.keyVals.length →
    t.keyVals.length < idx + fuel → (∀ s v, t.occ s = some (key, v) → idx ≤ s) →
    ∃ r, t.eraseLoop key fuel (t.byte hash key idx) idx = .ok r ∧ Found t key r := by
  intro fuel
  induction fuel with
  | zero =>
    intro idx _ hle hlt
    omega
  | succ fuel ih =>
    intro idx hhome hle hlt hmin
    obtain ⟨r, hr, hiff⟩ := h.keyAt_spec key (j := idx) (by omega)
    rw [eraseLoop, hr]
    simp only [bind, Except.bind, pure, Except.pure]
    cases r with
    | true =>
      obtain ⟨v, hv⟩ := hiff.mp rfl
      exact ⟨some idx, rfl, v, hv⟩
    | false =>
      have hnot : ∀ v, t.occ idx ≠ some (key, v) := fun v hv => by
        have := hiff.mpr ⟨v, hv⟩
        cases this
      have hmin' : ∀ s v, t.occ s = some (key, v) → idx + 1 ≤ s := by
        intro s v hs
        rcases Nat.eq_or_lt_of_le (hmin s v hs) with rfl | hlt
        · exact absurd hs (hnot v)
        · exact hlt
      obtain ⟨b, hb⟩ := h.infoAt_ok (j := idx + 1) (by omega)
      simp only [Bool.false_eq_true, if_false, hb, ← byte_succ hhome]
      split
      · next hcont =>
        have hlt' := h.lt_of_continues (by omega) hb hcont
        exact ih (by omega) (by omega) (by omega) hmin'
      · next hstop =>
        refine ⟨none, rfl, ?_⟩
        rintro s ⟨k, v⟩ hs (rfl : k = key)
        obtain ⟨b', hb', hle'⟩ := h.loop_continues hs (by omega) (hmin' s v hs)
        cases hb.symm.trans hb'
        exact hstop hle'

/-- The loop of `findIdx` ends within 64 rounds, as info bytes are small. -/
theorem findLoop_spec (key : K) : ∀ (fuel : Nat) {idx : Nat}, t.home hash key ≤ idx →
    idx ≤ t.keyVals.length → idx ≤ t.home hash key + 126 →
    (t.keyVals.length < idx + fuel ∨ t.home hash key + 126 < idx + 2 * fuel) →
    (∀ s v, t.occ s = some (key, v) → idx ≤ s) →
    ∃ r, t.findLoop key fuel (t.byte hash key idx) idx = .ok r ∧ Found t key r := by
  intro fuel
  induction fuel with
  | zero =>
    intro idx _ hle hnear hlt
    omega
  | succ fuel ih =>
    intro idx hhome hle hnear hlt hmin
    obtain ⟨r, hr, hiff⟩ := h.keyAt_spec key (j := idx) (by omega)
    obtain ⟨r', hr', hiff'⟩ := h.keyAt_spec key (j := idx + 1) (by omega)
    rw [findLoop, hr]
    simp only [bind, Except.bind, pure, Except.pure, ← byte_succ hhome]
    cases r with
    | true =>
      obtain ⟨v, hv⟩ := hiff.mp rfl
      exact ⟨some idx, rfl, v, hv⟩
    | false =>
      simp only [Bool.false_eq_true, if_false, hr']
      cases r' with
      | true =>
        obtain ⟨v, hv⟩ := hiff'.mp rfl
        exact ⟨some (idx + 1), rfl, v, hv⟩
      | false =>
        have hmin' : ∀ s v, t.occ s = some (key, v) → idx + 2 ≤ s := by
          intro s v hs
          have hle' := hmin s v hs
          have hne : s ≠ idx := by
            rintro rfl
            have := hiff.mpr ⟨v, hs⟩
            cases this
          have hne' : s ≠ idx + 1 := by
            rintro rfl
            have := hiff'.mpr ⟨v, hs⟩
            cases this
          omega
        obtain ⟨b, hb⟩ := h.infoAt_ok (j := idx + 2) (by omega)
        have hnext : t.byte hash key (idx + 1) + t.infoInc = t.byte hash key (idx + 2) :=
          (byte_succ (by omega)).symm
        simp only [Bool.false_eq_true, if_false, hb, hnext]
        split
        · next hcont =>
          have hlt' := h.lt_of_continues (by omega) hb hcont
          have hnear' := h.near_of_continues hb hlt' hcont
          exact ih (by omega) (by omega) hnear' (by omega) hmin'
        · next hstop =>
          refine ⟨none, rfl, ?_⟩
          rintro s ⟨k, v⟩ hs (rfl : k = key)
          obtain ⟨b', hb', hle'⟩ := h.loop_continues hs (by omega) (hmin' s v hs)
          cases hb.symm.trans hb'
          exact hstop hle'

/-- `findIdx` is the slot of the key, or the index of `end()`. -/
theorem findIdx_spec (key : K) : ∃ r, Found t key r ∧ t.findIdx hash key = .ok (r.getD t.endIdx) := by
  obtain ⟨r, hr, hfound⟩ := h.findLoop_spec key t.fuel le_rfl (h.home_le key) (by omega)
    (Or.inl (h.fuel_gt le_rfl)) (fun s v hs => h.home_le_of_occ hs)
  refine ⟨r, hfound, ?_⟩
  unfold findIdx
  rw [keyToIdx_eq]
  simp only [bind, Except.bind, hr]
  cases r <;> rfl

/-- However long the table is, `findIdx` is done after 64 rounds. -/
theorem findLoop_short (key : K) :
    t.findLoop key 64 (t.keyToIdx hash key).2 (t.keyToIdx hash key).1 =
      t.findLoop key t.fuel (t.keyToIdx hash key).2 (t.keyToIdx hash key).1 := by
  rw [keyToIdx_eq]
  obtain ⟨r, hr, hfound⟩ := h.findLoop_spec key t.fuel le_rfl (h.home_le key) (by omega)
    (Or.inl (h.fuel_gt le_rfl)) (fun s v hs => h.home_le_of_occ hs)
  obtain ⟨r', hr', hfound'⟩ := h.findLoop_spec key 64 le_rfl (h.home_le key) (by omega)
    (Or.inr (by omega)) (fun s v hs => h.home_le_of_occ hs)
  rw [hr, hr', h.found_unique hfound hfound']

/-- The loops of `insertKeyPrepareEmptySpot`: the slot of the key, or the slot where it belongs. -/
theorem nextWhileEqual_spec {p : Nat} {v : V} : ∀ (fuel : Nat) {idx : Nat}, t.home hash key ≤ idx →
    idx ≤ p → p < idx + fuel →
    (∀ j, idx ≤ j → j < p → ∃ a, t.occ j = some a ∧ a.1 ≠ key ∧
      (t.homes hash h.inc).rank a = (t.homes hash h.inc).rank (key, v)) →
    p ≤ t.keyVals.length →
    ((∃ v, t.occ p = some (key, v)) →
      t.nextWhileEqual key fuel (t.byte hash key idx) idx = .ok (.inl p)) ∧
    ((∀ a, t.occ p = some a →
        (t.homes hash h.inc).rank a ≠ (t.homes hash h.inc).rank (key, v)) →
      t.nextWhileEqual key fuel (t.byte hash key idx) idx = .ok (.inr (t.byte hash key p, p))) := by
  intro fuel
  induction fuel with
  | zero =>
    intro idx _ hle hlt
    omega
  | succ fuel ih =>
    intro idx hhome hle hlt hpass hp
    rcases Nat.eq_or_lt_of_le hle with rfl | hlt'
    · constructor
      · rintro ⟨v, hv⟩
        rw [nextWhileEqual, h.infoAt_occ hv, nodeAt_occ hv]
        simp only [bind, Except.bind, if_true]
      · intro hne
        cases ha : t.occ idx with
        | none =>
          obtain ⟨b, hb, hlt⟩ := h.infoAt_lt ha (by omega) key idx
          rw [nextWhileEqual, hb]
          simp only [bind, Except.bind]
          rw [if_neg (by omega)]
        | some a =>
          rw [nextWhileEqual, h.infoAt_occ ha]
          simp only [bind, Except.bind]
          rw [if_neg]
          intro heq
          exact hne a ha ((byte_eq_iff (h := h.inc) (v := v) (w := a.2) hhome
            (h.occ_home ha)).mp heq).symm
    · obtain ⟨a, ha, hkey, hrank⟩ := hpass idx le_rfl hlt'
      have hbyte : t.byte hash key idx = t.byte hash a.1 idx :=
        (byte_eq_iff (h := h.inc) (v := v) (w := a.2) hhome (h.occ_home ha)).mpr hrank.symm
      rw [nextWhileEqual, h.infoAt_occ ha, nodeAt_occ ha]
      simp only [bind, Except.bind]
      rw [if_pos hbyte, if_neg fun hc => hkey hc.symm, ← byte_succ hhome]
      exact ih (by omega) hlt' (by omega) (fun j hj => hpass j (by omega)) hp

end

/-- The slot where a key belongs that is not in the table: behind everything of smaller or equal
rank. -/
structure Belongs (key : K) (v : V) (p : Nat) : Prop where
  absent : t.Absent key
  home_le : t.home hash key ≤ p
  le : p ≤ t.keyVals.length
  passed : ∀ j, t.home hash key ≤ j → j < p → ∃ a, t.occ j = some a ∧
    (t.homes hash h.inc).rank a ≤ (t.homes hash h.inc).rank (key, v)
  stop : ∀ a, t.occ p = some a → (t.homes hash h.inc).rank (key, v) < (t.homes hash h.inc).rank a

/-- The loop of `insert_move` stops where an absent key belongs. -/
theorem nextWhileLessEq_spec (habsent : t.Absent key) (v : V) : ∃ p, h.Belongs key v p ∧
    t.nextWhileLessEq (t.byte hash key (t.home hash key)) (t.home hash key) =
      .ok (t.byte hash key p, p) := by
  obtain ⟨p, hhome, hp, hpassed, hstop⟩ := exists_first_not
    (P := fun j => ∃ a, t.occ j = some a ∧
      (t.homes hash h.inc).rank a ≤ (t.homes hash h.inc).rank (key, v))
    (h.home_le key) (by simp [occ_length])
  refine ⟨p, ⟨habsent, hhome, hp, hpassed, fun a ha => ?_⟩, ?_⟩
  · by_contra hle
    exact hstop ⟨a, ha, Int.not_lt.mp hle⟩
  · refine nextWhile_spec le_rfl hhome (h.fuel_gt hp) (fun j hj hjp => ?_) ?_
    · obtain ⟨a, ha, hrank⟩ := hpassed j hj hjp
      exact ⟨_, h.infoAt_occ ha, decide_eq_true (h.le_infoAt ha hj hrank)⟩
    · cases ha : t.occ p with
      | none =>
        obtain ⟨b, hb, hlt⟩ := h.infoAt_lt ha (by omega) key p
        exact ⟨b, hb, decide_eq_false (by omega)⟩
      | some a =>
        refine ⟨_, h.infoAt_occ ha, decide_eq_false fun hle => hstop ⟨a, ha, ?_⟩⟩
        have hiff := byte_lt_iff (h := h.inc) (v := a.2) (w := v) (h.occ_home ha) hhome
        exact Int.not_lt.mp fun hlt => absurd (hiff.mpr hlt) (Nat.not_lt.mpr hle)

/-- Behind the entries of smaller rank there are none. -/
theorem rank_le_behind {p i : Nat} {v : V} (hhome : t.home hash key ≤ p)
    (hstop : ¬ ∃ a, t.occ p = some a ∧
      (t.homes hash h.inc).rank a < (t.homes hash h.inc).rank (key, v)) (hi : p ≤ i)
    {a : K × V} (ha : t.occ i = some a) :
    (t.homes hash h.inc).rank (key, v) ≤ (t.homes hash h.inc).rank a := by
  have hp : ∀ b, t.occ p = some b →
      (t.homes hash h.inc).rank (key, v) ≤ (t.homes hash h.inc).rank b := fun b hb =>
    Int.not_lt.mp fun hlt => hstop ⟨b, hb, hlt⟩
  rcases Nat.eq_or_lt_of_le hi with rfl | hlt
  · exact hp a ha
  · cases hb : t.occ p with
    | some b => exact (hp b hb).trans (h.layout.sorted hlt hb ha)
    | none =>
      have hgt : p < t.home hash a.1 := h.layout.home_gt hb ha hlt
      have hlt' : t.home hash key < t.home hash a.1 := by omega
      exact (Homes.rank_lt (H := t.homes hash h.inc) (a := (key, v)) hlt').le

/-- The two loops at the beginning of `insertKeyPrepareEmptySpot`. -/
theorem nextWhileLess_spec [DecidableEq K] (key : K) (v : V) : ∃ idx,
    t.nextWhileLess (t.byte hash key (t.home hash key)) (t.home hash key) =
        .ok (t.byte hash key idx, idx) ∧
      ((∃ s v', t.occ s = some (key, v') ∧
          t.nextWhileEqual key t.fuel (t.byte hash key idx) idx = .ok (.inl s)) ∨
        ∃ p, h.Belongs key v p ∧
          t.nextWhileEqual key t.fuel (t.byte hash key idx) idx = .ok (.inr (t.byte hash key p, p))) := by
  have hend : ∀ P : K × V → Prop, ¬ ∃ a, t.occ t.keyVals.length = some a ∧ P a := by
    simp [occ_length]
  obtain ⟨idx, hhome, hidx, hless, hstop⟩ := exists_first_not
    (P := fun j => ∃ a, t.occ j = some a ∧
      (t.homes hash h.inc).rank a < (t.homes hash h.inc).rank (key, v))
    (h.home_le key) (hend _)
  obtain ⟨p, hip, hp, hequal, hstop'⟩ := exists_first_not
    (P := fun j => ∃ a, t.occ j = some a ∧ a.1 ≠ key ∧
      (t.homes hash h.inc).rank a = (t.homes hash h.inc).rank (key, v)) hidx (hend _)
  refine ⟨idx, ?_, ?_⟩
  · refine nextWhile_spec le_rfl hhome (h.fuel_gt hidx) (fun j hj hjp => ?_) ?_
    · obtain ⟨a, ha, hrank⟩ := hless j hj hjp
      exact ⟨_, h.infoAt_occ ha, decide_eq_true
        ((byte_lt_iff (h := h.inc) (v := v) (w := a.2) hj (h.occ_home ha)).mpr hrank)⟩
    · cases ha : t.occ idx with
      | none =>
        obtain ⟨b, hb, hlt⟩ := h.infoAt_lt ha (by omega) key idx
        exact ⟨b, hb, decide_eq_false (by omega)⟩
      | some a =>
        refine ⟨_, h.infoAt_occ ha, decide_eq_false fun hlt => hstop ⟨a, ha, ?_⟩⟩
        exact (byte_lt_iff (h := h.inc) (v := v) (w := a.2) hhome (h.occ_home ha)).mp hlt
  · obtain ⟨hfound, hnew⟩ := h.nextWhileEqual_spec (p := p) (v := v) t.fuel hhome hip
      (h.fuel_gt hp) hequal hp
    by_cases hkey : ∃ v', t.occ p = some (key, v')
    · obtain ⟨v', hv'⟩ := hkey
      exact Or.inl ⟨p, v', hv', hfound ⟨v', hv'⟩⟩
    · -- an entry where the loop stopped has a larger rank
      have hlarger : ∀ a, t.occ p = some a →
          (t.homes hash h.inc).rank (key, v) < (t.homes hash h.inc).rank a := by
        intro a ha
        have hle := h.rank_le_behind hhome hstop hip ha
        refine lt_of_le_of_ne hle fun heq => hstop' ⟨a, ha, fun hc => hkey ⟨a.2, ?_⟩, heq.symm⟩
        rw [ha, ← hc]
      refine Or.inr ⟨p, ⟨?_, hhome.trans hip, hp, fun j hj hjp => ?_, hlarger⟩,
        hnew fun a ha => (hlarger a ha).ne'⟩
      · rintro s ⟨k, v'⟩ hs (rfl : k = key)
        have hhs : t.home hash k ≤ s := h.home_le_of_occ hs
        by_cases hs₁ : s < idx
        · obtain ⟨a, ha, hlt⟩ := hless s hhs hs₁
          cases hs.symm.trans ha
          exact absurd hlt (lt_irrefl _)
        · by_cases hs₂ : s < p
          · obtain ⟨a, ha, hne, -⟩ := hequal s (by omega) hs₂
            cases hs.symm.trans ha
            exact hne rfl
          · rcases Nat.eq_or_lt_of_le (Nat.not_lt.mp hs₂) with rfl | hlt
            · exact hkey ⟨v', hs⟩
            · obtain ⟨a, ha, hle⟩ := h.before_key hs (hhome.trans hip) hlt
              exact absurd (hlarger a ha) (Int.not_lt.mpr hle)
      · by_cases hj' : j < idx
        · obtain ⟨a, ha, hlt⟩ := hless j hj hj'
          exact ⟨a, ha, hlt.le⟩
        · obtain ⟨a, ha, -, heq⟩ := hequal j (by omega) hjp
          exact ⟨a, ha, heq.le⟩

end Inv
end CosmicArchitect.RobinHood.Table
