import Mathlib.Data.Finset.Card
import Mathlib.Data.Finset.Interval
import Mathlib.Order.Interval.Finset.Nat
import Mathlib.Tactic.Common

/-!
# Open addressing with ordered displacement

Slots hold entries. Every entry has a home slot and lies there or behind it, with no empty
slot in between, and the entries stand in the order of their ranks. A new entry goes behind
everything of smaller or equal rank and shifts the entries in its way up by one slot, up to the first
empty one; an entry that leaves pulls its successors down, up to the first that is at home.
-/

namespace CosmicArchitect.Library

universe u

/-- The home slots of entries, and the order in which entries stand. -/
structure Homes (ε : Type u) where
  home : ε → Nat
  rank : ε → Int
  mono : ∀ {a b : ε}, rank a ≤ rank b → home a ≤ home b

structure Homes.Layout {ε : Type u} (H : Homes ε) (occ : Nat → Option ε) : Prop where
  behind : ∀ {i a}, occ i = some a → H.home a ≤ i
  full : ∀ {i j a}, occ i = some a → H.home a ≤ j → j < i → (occ j).isSome
  sorted : ∀ {i j a b}, i < j → occ i = some a → occ j = some b → H.rank a ≤ H.rank b

/-- The slots after `x` was put at `p` and the entries from `p` to the empty slot `q` moved up. -/
def insertAt {ε : Type u} (occ : Nat → Option ε) (p q : Nat) (x : ε) (i : Nat) : Option ε :=
  if i < p then occ i else if i = p then some x else if i ≤ q then occ (i - 1) else occ i

/-- The slots after the entry at `s` was removed and those up to `q` moved down. -/
def eraseAt {ε : Type u} (occ : Nat → Option ε) (s q i : Nat) : Option ε :=
  if i < s then occ i else if i < q then occ (i + 1) else if i = q then none else occ i

/-- The occupied slots among the first `n`. -/
def occupied {ε : Type u} (occ : Nat → Option ε) (n : Nat) : Finset Nat :=
  (Finset.range n).filter fun i => (occ i).isSome

variable {ε : Type u} {H : Homes ε} {occ : Nat → Option ε} {x : ε} {p q s n : Nat}

theorem Homes.rank_lt {a b : ε} (h : H.home a < H.home b) : H.rank a < H.rank b := by
  by_contra hle
  exact absurd (H.mono (Int.not_lt.mp hle)) (Nat.not_le.mpr h)

/-- `p` is where `x` belongs, `q` the first empty slot from there on. -/
structure Homes.Spot (H : Homes ε) (occ : Nat → Option ε) (x : ε) (p q : Nat) : Prop where
  home_le : H.home x ≤ p
  passed : ∀ j, H.home x ≤ j → j < p → ∃ a, occ j = some a ∧ H.rank a ≤ H.rank x
  stop : ∀ a, occ p = some a → H.rank x ≤ H.rank a
  le : p ≤ q
  full : ∀ j, p ≤ j → j < q → (occ j).isSome
  empty : occ q = none

/-- The entries from behind `s` up to `q` are displaced, the one behind `q` is not. -/
structure Homes.Hole (H : Homes ε) (occ : Nat → Option ε) (s q : Nat) : Prop where
  le : s ≤ q
  displaced : ∀ i, s < i → i ≤ q → ∃ a, occ i = some a ∧ H.home a < i
  stop : ∀ a, occ (q + 1) = some a → H.home a = q + 1

theorem insertAt_cases (occ : Nat → Option ε) (x : ε) (p q i : Nat) :
    i < p ∧ insertAt occ p q x i = occ i ∨ i = p ∧ insertAt occ p q x i = some x ∨
      p < i ∧ i ≤ q ∧ insertAt occ p q x i = occ (i - 1) ∨
      p < i ∧ q < i ∧ insertAt occ p q x i = occ i := by
  unfold insertAt
  split
  · next h => exact Or.inl ⟨h, rfl⟩
  · split
    · next h => exact Or.inr (Or.inl ⟨h, rfl⟩)
    · split
      · next h => exact Or.inr (Or.inr (Or.inl ⟨by omega, h, rfl⟩))
      · next h => exact Or.inr (Or.inr (Or.inr ⟨by omega, by omega, rfl⟩))

theorem eraseAt_cases (occ : Nat → Option ε) (s q i : Nat) :
    i < s ∧ eraseAt occ s q i = occ i ∨ s ≤ i ∧ i < q ∧ eraseAt occ s q i = occ (i + 1) ∨
      s ≤ i ∧ i = q ∧ eraseAt occ s q i = none ∨ s ≤ i ∧ q < i ∧ eraseAt occ s q i = occ i := by
  unfold eraseAt
  split
  · next h => exact Or.inl ⟨h, rfl⟩
  · split
    · next h => exact Or.inr (Or.inl ⟨by omega, h, rfl⟩)
    · split
      · next h => exact Or.inr (Or.inr (Or.inl ⟨by omega, h, rfl⟩))
      · next h => exact Or.inr (Or.inr (Or.inr ⟨by omega, by omega, rfl⟩))

namespace Homes.Layout

theorem empty (H : Homes ε) : H.Layout fun _ => none where
  behind h := by cases h
  full h := by cases h
  sorted _ h := by cases h

/-- What stands in front of the home of `x` is smaller. -/
theorem rank_lt_of_lt (h : H.Layout occ) {i : Nat} {a : ε} (ha : occ i = some a)
    (hi : i < H.home x) : H.rank a < H.rank x :=
  H.rank_lt (Nat.lt_of_le_of_lt (h.behind ha) hi)

/-- Behind an empty slot only entries with a home behind it. -/
theorem home_gt (h : H.Layout occ) (hq : occ q = none) {i : Nat} {a : ε} (ha : occ i = some a)
    (hi : q < i) : q < H.home a := by
  by_contra hle
  have hfull := h.full ha (Nat.not_lt.mp hle) hi
  rw [hq] at hfull
  cases hfull

/-- The slots from the home of a stored entry to the entry are full, and in order. -/
theorem before (h : H.Layout occ) {i j : Nat} {a : ε} (ha : occ i = some a)
    (hj : H.home a ≤ j) (hji : j < i) : ∃ b, occ j = some b ∧ H.rank b ≤ H.rank a := by
  obtain ⟨b, hb⟩ := Option.isSome_iff_exists.mp (h.full ha hj hji)
  exact ⟨b, hb, h.sorted hji hb ha⟩

theorem insert (h : H.Layout occ) (hs : H.Spot occ x p q) : H.Layout (insertAt occ p q x) where
  behind := by
    intro i a ha
    rcases insertAt_cases occ x p q i with
      ⟨-, hi⟩ | ⟨rfl, hi⟩ | ⟨hpi, -, hi⟩ | ⟨-, -, hi⟩ <;> rw [hi] at ha
    · exact h.behind ha
    · cases ha
      exact hs.home_le
    · have := h.behind ha
      omega
    · exact h.behind ha
  full := by
    -- every slot up to `q` is full afterwards as soon as it was, or lies behind `p`
    have hkeep : ∀ j, (occ j).isSome → (insertAt occ p q x j).isSome := by
      intro j hj
      rcases insertAt_cases occ x p q j with
        ⟨-, hi⟩ | ⟨-, hi⟩ | ⟨hpj, hjq, hi⟩ | ⟨-, -, hi⟩ <;> rw [hi]
      · exact hj
      · rfl
      · exact hs.full (j - 1) (by omega) (by omega)
      · exact hj
    intro i j a ha hj hji
    rcases insertAt_cases occ x p q i with
      ⟨-, hi⟩ | ⟨rfl, hi⟩ | ⟨hpi, hiq, hi⟩ | ⟨-, -, hi⟩ <;> rw [hi] at ha
    · exact hkeep j (h.full ha hj hji)
    · cases ha
      obtain ⟨b, hb, -⟩ := hs.passed j hj hji
      exact hkeep j (by rw [hb]; rfl)
    · by_cases hji' : j < i - 1
      · exact hkeep j (h.full ha hj hji')
      · have hj' : j = i - 1 := by omega
        exact hkeep j (by rw [hj', ha]; rfl)
    · exact hkeep j (h.full ha hj hji)
  sorted := by
    -- `x` against the entries behind it
    have hbehind : ∀ {j b}, p ≤ j → occ j = some b → H.rank x ≤ H.rank b := by
      intro j b hj hb
      by_cases hjq : j < q
      · obtain ⟨c, hc⟩ := Option.isSome_iff_exists.mp (hs.full p le_rfl (by omega))
        refine (hs.stop c hc).trans ?_
        rcases Nat.eq_or_lt_of_le hj with rfl | hpj
        · cases hc.symm.trans hb
          exact le_rfl
        · exact h.sorted hpj hc hb
      · have hne : j ≠ q := by
          rintro rfl
          cases hs.empty.symm.trans hb
        have hhome := h.home_gt hs.empty hb (by omega)
        exact (H.rank_lt (Nat.lt_of_le_of_lt (hs.home_le.trans hs.le) hhome)).le
    have hfront : ∀ {i a}, i < p → occ i = some a → H.rank a ≤ H.rank x := by
      intro i a hi ha
      by_cases hhome : H.home x ≤ i
      · obtain ⟨b, hb, hle⟩ := hs.passed i hhome hi
        cases ha.symm.trans hb
        exact hle
      · exact (h.rank_lt_of_lt ha (Nat.not_le.mp hhome)).le
    intro i j a b hij ha hb
    rcases insertAt_cases occ x p q i with
      ⟨hi, he⟩ | ⟨hi, he⟩ | ⟨hi, hi', he⟩ | ⟨hi, hi', he⟩ <;>
    rcases insertAt_cases occ x p q j with
      ⟨hj, he'⟩ | ⟨hj, he'⟩ | ⟨hj, hj', he'⟩ | ⟨hj, hj', he'⟩ <;>
    rw [he] at ha <;> rw [he'] at hb
    all_goals first
      | omega
      | exact h.sorted (by omega) ha hb
      | (cases hb; exact hfront hi ha)
      | (cases ha; exact hbehind (by omega) hb)

theorem erase (h : H.Layout occ) (hs : H.Hole occ s q) : H.Layout (eraseAt occ s q) where
  behind := by
    intro i a ha
    rcases eraseAt_cases occ s q i with
      ⟨-, hi⟩ | ⟨hsi, hiq, hi⟩ | ⟨-, -, hi⟩ | ⟨-, -, hi⟩ <;> rw [hi] at ha
    · exact h.behind ha
    · obtain ⟨b, hb, hhome⟩ := hs.displaced (i + 1) (by omega) (by omega)
      cases ha.symm.trans hb
      omega
    · cases ha
    · exact h.behind ha
  full := by
    intro i j a ha hj hji
    -- behind `q` homes lie behind `q`
    have hhome : ∀ {i a}, q < i → occ i = some a → q < H.home a := by
      intro i a hi ha
      cases hnext : occ (q + 1) with
      | none =>
        rcases Nat.eq_or_lt_of_le (show q + 1 ≤ i from hi) with rfl | hlt
        · cases hnext.symm.trans ha
        · have := h.home_gt hnext ha hlt
          omega
      | some b =>
        have hb := hs.stop b hnext
        rcases Nat.eq_or_lt_of_le (show q + 1 ≤ i from hi) with rfl | hlt
        · cases hnext.symm.trans ha
          omega
        · have := H.mono (h.sorted hlt hnext ha)
          omega
    rcases eraseAt_cases occ s q i with
      ⟨hi, he⟩ | ⟨hsi, hiq, he⟩ | ⟨-, -, he⟩ | ⟨hi, hi', he⟩ <;> rw [he] at ha
    · rw [show eraseAt occ s q j = occ j from if_pos (by omega)]
      exact h.full ha hj hji
    · rcases eraseAt_cases occ s q j with
        ⟨hj', he'⟩ | ⟨hj', hjq, he'⟩ | ⟨-, hjq, -⟩ | ⟨-, hjq, -⟩
      · rw [he']
        exact h.full ha hj (by omega)
      · rw [he']
        exact h.full ha (by omega) (by omega)
      · omega
      · omega
    · cases ha
    · have := hhome hi' ha
      rw [show eraseAt occ s q j = occ j by
        unfold eraseAt
        rw [if_neg (by have := hs.le; omega), if_neg (by omega), if_neg (by omega)]]
      exact h.full ha hj hji
  sorted := by
    intro i j a b hij ha hb
    rcases eraseAt_cases occ s q i with
      ⟨hi, he⟩ | ⟨hi, hi', he⟩ | ⟨hi, hi', he⟩ | ⟨hi, hi', he⟩ <;>
    rcases eraseAt_cases occ s q j with
      ⟨hj, he'⟩ | ⟨hj, hj', he'⟩ | ⟨hj, hj', he'⟩ | ⟨hj, hj', he'⟩ <;>
    rw [he] at ha <;> rw [he'] at hb
    all_goals first
      | cases ha
      | cases hb
      | exact h.sorted (by omega) ha hb

/-- A coarser order of the entries. -/
theorem coarsen {H' : Homes ε} (h : H.Layout occ) (hhome : ∀ a, H'.home a = H.home a)
    (hrank : ∀ a b, H.rank a ≤ H.rank b → H'.rank a ≤ H'.rank b) : H'.Layout occ where
  behind ha := by
    rw [hhome]
    exact h.behind ha
  full ha hj hji := h.full ha (by rw [← hhome]; exact hj) hji
  sorted hij ha hb := hrank _ _ (h.sorted hij ha hb)

/-- Entries in the place of entries with the same home and rank. -/
theorem replace {occ' : Nat → Option ε} (h : H.Layout occ)
    (hsame : ∀ {i a}, occ' i = some a →
      ∃ b, occ i = some b ∧ H.home b = H.home a ∧ H.rank b = H.rank a)
    (hfull : ∀ i, (occ i).isSome → (occ' i).isSome) : H.Layout occ' where
  behind ha := by
    obtain ⟨b, hb, hhome, -⟩ := hsame ha
    rw [← hhome]
    exact h.behind hb
  full {i j a} ha hj hji := by
    obtain ⟨b, hb, hhome, -⟩ := hsame ha
    exact hfull j (h.full hb (by rw [hhome]; exact hj) hji)
  sorted {i j a b} hij ha hb := by
    obtain ⟨a', ha', -, hrank⟩ := hsame ha
    obtain ⟨b', hb', -, hrank'⟩ := hsame hb
    rw [← hrank, ← hrank']
    exact h.sorted hij ha' hb'

end Homes.Layout

/-! ### Which entries are there -/

theorem mem_insertAt (hs : H.Spot occ x p q) {a : ε} :
    (∃ i, insertAt occ p q x i = some a) ↔ a = x ∨ ∃ i, occ i = some a := by
  constructor
  · rintro ⟨i, ha⟩
    rcases insertAt_cases occ x p q i with
      ⟨-, hi⟩ | ⟨-, hi⟩ | ⟨-, -, hi⟩ | ⟨-, -, hi⟩ <;> rw [hi] at ha
    · exact Or.inr ⟨i, ha⟩
    · cases ha
      exact Or.inl rfl
    · exact Or.inr ⟨i - 1, ha⟩
    · exact Or.inr ⟨i, ha⟩
  · rintro (rfl | ⟨i, ha⟩)
    · exact ⟨p, by unfold insertAt; rw [if_neg (by omega), if_pos rfl]⟩
    · have hne : i ≠ q := by
        rintro rfl
        cases hs.empty.symm.trans ha
      by_cases hp : i < p
      · exact ⟨i, by unfold insertAt; rw [if_pos hp, ha]⟩
      · by_cases hq : i < q
        · refine ⟨i + 1, ?_⟩
          unfold insertAt
          rw [if_neg (by omega), if_neg (by omega), if_pos (by omega)]
          exact ha
        · refine ⟨i, ?_⟩
          have := hs.le
          unfold insertAt
          rw [if_neg (by omega), if_neg (by omega), if_neg (by omega), ha]

theorem mem_eraseAt (hs : H.Hole occ s q) {a : ε} :
    (∃ i, eraseAt occ s q i = some a) ↔ ∃ i, i ≠ s ∧ occ i = some a := by
  have hle := hs.le
  constructor
  · rintro ⟨i, ha⟩
    rcases eraseAt_cases occ s q i with
      ⟨hi, he⟩ | ⟨hi, hi', he⟩ | ⟨hi, hi', he⟩ | ⟨hi, hi', he⟩ <;> rw [he] at ha
    · exact ⟨i, by omega, ha⟩
    · exact ⟨i + 1, by omega, ha⟩
    · cases ha
    · exact ⟨i, by omega, ha⟩
  · rintro ⟨i, hne, ha⟩
    by_cases hi : i < s
    · exact ⟨i, by unfold eraseAt; rw [if_pos hi, ha]⟩
    · by_cases hq : i ≤ q
      · refine ⟨i - 1, ?_⟩
        unfold eraseAt
        rw [if_neg (by omega), if_pos (by omega), show i - 1 + 1 = i by omega, ha]
      · refine ⟨i, ?_⟩
        unfold eraseAt
        rw [if_neg hi, if_neg (by omega), if_neg (by omega), ha]

/-- No two slots hold entries with the same key. -/
def DistinctKeys {κ : Type*} (key : ε → κ) (occ : Nat → Option ε) : Prop :=
  ∀ i j a b, occ i = some a → occ j = some b → key a = key b → i = j

theorem DistinctKeys.insert {κ : Type*} {key : ε → κ} (h : DistinctKeys key occ)
    (hnew : ∀ i a, occ i = some a → key a ≠ key x) :
    DistinctKeys key (insertAt occ p q x) := by
  intro i j a b ha hb hab
  rcases insertAt_cases occ x p q i with
    ⟨hi, he⟩ | ⟨hi, he⟩ | ⟨hi, hi', he⟩ | ⟨hi, hi', he⟩ <;>
  rcases insertAt_cases occ x p q j with
    ⟨hj, he'⟩ | ⟨hj, he'⟩ | ⟨hj, hj', he'⟩ | ⟨hj, hj', he'⟩ <;>
  rw [he] at ha <;> rw [he'] at hb
  all_goals first
    | omega
    | (cases ha; exact absurd hab.symm (hnew _ _ hb))
    | (cases hb; exact absurd hab (hnew _ _ ha))
    | (obtain hsame := h _ _ _ _ ha hb hab; omega)

theorem DistinctKeys.erase {κ : Type*} {key : ε → κ} (h : DistinctKeys key occ) :
    DistinctKeys key (eraseAt occ s q) := by
  intro i j a b ha hb hab
  rcases eraseAt_cases occ s q i with
    ⟨hi, he⟩ | ⟨hi, hi', he⟩ | ⟨hi, hi', he⟩ | ⟨hi, hi', he⟩ <;>
  rcases eraseAt_cases occ s q j with
    ⟨hj, he'⟩ | ⟨hj, hj', he'⟩ | ⟨hj, hj', he'⟩ | ⟨hj, hj', he'⟩ <;>
  rw [he] at ha <;> rw [he'] at hb
  all_goals first
    | cases ha
    | cases hb
    | (obtain hsame := h _ _ _ _ ha hb hab; omega)

@[simp] theorem mem_occupied {i : Nat} : i ∈ occupied occ n ↔ i < n ∧ (occ i).isSome := by
  simp [occupied]

theorem occupied_insertAt (hs : H.Spot occ x p q) (hq : q < n) :
    occupied (insertAt occ p q x) n = insert q (occupied occ n) := by
  ext i
  simp only [mem_occupied, Finset.mem_insert]
  have hle := hs.le
  rcases insertAt_cases occ x p q i with
    ⟨hi, he⟩ | ⟨hi, he⟩ | ⟨hi, hi', he⟩ | ⟨hi, hi', he⟩ <;> rw [he]
  · exact ⟨Or.inr, fun h => h.resolve_left (by omega)⟩
  · refine ⟨fun h => ?_, fun _ => ⟨by omega, rfl⟩⟩
    rcases Nat.eq_or_lt_of_le hle with heq | hlt
    · exact Or.inl (by omega)
    · exact Or.inr ⟨h.1, hs.full i (by omega) (by omega)⟩
  · have hprev := hs.full (i - 1) (by omega) (by omega)
    refine ⟨fun h => ?_, fun _ => ⟨by omega, hprev⟩⟩
    rcases Nat.eq_or_lt_of_le hi' with heq | hlt
    · exact Or.inl heq
    · exact Or.inr ⟨h.1, hs.full i (by omega) hlt⟩
  · exact ⟨Or.inr, fun h => h.resolve_left (by omega)⟩

theorem card_insertAt (hs : H.Spot occ x p q) (hq : q < n) :
    (occupied (insertAt occ p q x) n).card = (occupied occ n).card + 1 := by
  rw [occupied_insertAt hs hq, Finset.card_insert_of_notMem]
  rw [mem_occupied, hs.empty]
  simp

theorem occupied_eraseAt (hs : H.Hole occ s q) (ha : (occ s).isSome) :
    occupied (eraseAt occ s q) n = (occupied occ n).erase q := by
  ext i
  simp only [mem_occupied, Finset.mem_erase]
  have hle := hs.le
  rcases eraseAt_cases occ s q i with
    ⟨hi, he⟩ | ⟨hi, hi', he⟩ | ⟨hi, hi', he⟩ | ⟨hi, hi', he⟩ <;> rw [he]
  · exact ⟨fun h => ⟨by omega, h⟩, fun h => h.2⟩
  · obtain ⟨b, hb, -⟩ := hs.displaced (i + 1) (by omega) (by omega)
    have hsome : (occ i).isSome := by
      rcases Nat.eq_or_lt_of_le hi with rfl | hlt
      · exact ha
      · obtain ⟨c, hc, -⟩ := hs.displaced i hlt (by omega)
        rw [hc]
        rfl
    rw [hb]
    exact ⟨fun h => ⟨by omega, h.1, hsome⟩, fun h => ⟨h.2.1, rfl⟩⟩
  · exact ⟨fun h => by simp at h, fun h => absurd hi' h.1⟩
  · exact ⟨fun h => ⟨by omega, h⟩, fun h => h.2⟩

theorem card_eraseAt (hs : H.Hole occ s q) (ha : (occ s).isSome) (hq : q < n) :
    (occupied (eraseAt occ s q) n).card + 1 = (occupied occ n).card := by
  have hmem : q ∈ occupied occ n := by
    rw [mem_occupied]
    refine ⟨hq, ?_⟩
    rcases Nat.eq_or_lt_of_le hs.le with rfl | hlt
    · exact ha
    · obtain ⟨b, hb, -⟩ := hs.displaced q hlt le_rfl
      rw [hb]
      rfl
  rw [occupied_eraseAt hs ha, Finset.card_erase_add_one hmem]

theorem card_occupied (occ : Nat → Option ε) (n : Nat) :
    (occupied occ n).card = (List.range n).countP fun i => (occ i).isSome := by
  induction n with
  | zero => rfl
  | succ n ih =>
    rw [List.range_succ, List.countP_append, ← ih, occupied, Finset.range_add_one,
      Finset.filter_insert]
    cases hn : (occ n).isSome with
    | false => simp [hn, occupied]
    | true => simp [hn, occupied, Finset.card_insert_of_notMem]

/-- The first index from `i` on, up to `n`, at which `P` fails. -/
theorem exists_first_not {P : Nat → Prop} {i n : Nat} (hle : i ≤ n) (hn : ¬ P n) :
    ∃ k, i ≤ k ∧ k ≤ n ∧ (∀ j, i ≤ j → j < k → P j) ∧ ¬ P k := by
  classical
  have hex : ∃ k, i ≤ k ∧ ¬ P k := ⟨n, hle, hn⟩
  refine ⟨Nat.find hex, (Nat.find_spec hex).1, Nat.find_min' hex ⟨hle, hn⟩, ?_, (Nat.find_spec hex).2⟩
  intro j hij hj
  by_contra hP
  exact Nat.find_min hex hj ⟨hij, hP⟩

/-- A run of full slots is no longer than the number of full slots. -/
theorem run_le_card {i j : Nat} (hfull : ∀ k, i ≤ k → k < j → (occ k).isSome) (hj : j ≤ n) :
    j - i ≤ (occupied occ n).card := by
  rw [← Nat.card_Ico]
  refine Finset.card_le_card fun k hk => ?_
  obtain ⟨hik, hkj⟩ := Finset.mem_Ico.mp hk
  exact mem_occupied.mpr ⟨by omega, hfull k hik hkj⟩

end CosmicArchitect.Library
