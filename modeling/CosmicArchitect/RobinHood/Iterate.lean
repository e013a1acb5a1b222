import CosmicArchitect.RobinHood.Emplace

/-!
# Iterating

The entries come in the order of their slots. `fastForward` reads eight info bytes at once and stops at the
sentinel at the latest. `erase(pos)` hands back the index it was given when an entry moved down
into the slot, so that a loop that erases while it iterates misses no entry and sees none twice.
-/

namespace CosmicArchitect.RobinHood.Table
open Library

variable {K V : Type} {hash : K → BitVec 64} {t t' : Table K V} {e : K × V} {idx n : Nat}

/-- A `for` loop over the table, from an index on. -/
def forEachFrom {σ : Type} (f : σ → K × V → σ) (t : Table K V) : Nat → Nat → σ → Except Failure σ
  | 0, _, _ => .error .outOfBounds
  | fuel + 1, idx, s =>
    if idx = t.endIdx then .ok s
    else do
      let node ← t.nodeAt idx
      let next ← t.next idx
      forEachFrom f t fuel next (f s node)

def forEach {σ : Type} (f : σ → K × V → σ) (t : Table K V) (s : σ) : Except Failure σ := do
  let idx ← t.begin
  t.forEachFrom f t.fuel idx s

/-- A loop that erases entries while it iterates: `body` says whether an entry goes. -/
def sweepFrom {σ : Type} (body : σ → K × V → Bool × σ) :
    Nat → Nat → Table K V → σ → Except Failure (Table K V × σ)
  | 0, _, _, _ => .error .outOfBounds
  | fuel + 1, idx, t, s =>
    if idx = t.endIdx then .ok (t, s)
    else do
      let node ← t.nodeAt idx
      if (body s node).1 then
        let (t, next) ← t.eraseIdx idx
        sweepFrom body fuel next t (body s node).2
      else
        let next ← t.next idx
        sweepFrom body fuel next t (body s node).2

def sweep {σ : Type} (body : σ → K × V → Bool × σ) (t : Table K V) (s : σ) :
    Except Failure (Table K V × σ) := do
  let idx ← t.begin
  sweepFrom body t.fuel idx t s

/-- The entries that `body` lets go, and its last state. -/
def swept {σ : Type} (body : σ → K × V → Bool × σ) : σ → List (K × V) → List (K × V) × σ
  | s, [] => ([], s)
  | s, e :: es =>
    let rest := swept body (body s e).2 es
    (if (body s e).1 then e :: rest.1 else rest.1, rest.2)

/-! ### The entries in order -/

/-- The entries from a slot on. -/
def entriesFrom (t : Table K V) (idx : Nat) : List (K × V) :=
  (List.range' idx (t.keyVals.length - idx)).filterMap t.occ

def entries (t : Table K V) : List (K × V) := t.entriesFrom 0

theorem entriesFrom_length (t : Table K V) : t.entriesFrom t.keyVals.length = [] := by
  unfold entriesFrom
  rw [Nat.sub_self]
  rfl

theorem entriesFrom_succ (hidx : idx < t.keyVals.length) :
    t.entriesFrom idx = (t.occ idx).toList ++ t.entriesFrom (idx + 1) := by
  unfold entriesFrom
  rw [show t.keyVals.length - idx = t.keyVals.length - (idx + 1) + 1 by omega, List.range'_succ]
  cases ha : t.occ idx with
  | none => rw [List.filterMap_cons_none ha, Option.toList_none, List.nil_append]
  | some a => rw [List.filterMap_cons_some ha, Option.toList_some, List.singleton_append]

theorem entriesFrom_of_occ (he : t.occ idx = some e) :
    t.entriesFrom idx = e :: t.entriesFrom (idx + 1) := by
  rw [entriesFrom_succ (lt_of_occ he), he]
  rfl

theorem entriesFrom_skip (hle : idx ≤ n) (hn : n ≤ t.keyVals.length)
    (hnone : ∀ i, idx ≤ i → i < n → t.occ i = none) : t.entriesFrom idx = t.entriesFrom n := by
  induction n with
  | zero => rw [Nat.le_zero.mp hle]
  | succ n ih =>
    rcases Nat.eq_or_lt_of_le hle with rfl | hlt
    · rfl
    · rw [ih (by omega) (by omega) fun i hi hin => hnone i hi (by omega),
        entriesFrom_succ (by omega), hnone n (by omega) (by omega)]
      rfl

theorem mem_entriesFrom : e ∈ t.entriesFrom idx ↔ ∃ i, idx ≤ i ∧ t.occ i = some e := by
  unfold entriesFrom
  simp only [List.mem_filterMap, List.mem_range'_1]
  constructor
  · rintro ⟨i, ⟨hi, -⟩, ha⟩
    exact ⟨i, hi, ha⟩
  · rintro ⟨i, hi, ha⟩
    have := lt_of_occ ha
    exact ⟨i, ⟨hi, by omega⟩, ha⟩

@[simp] theorem mem_entries : e ∈ t.entries ↔ t.Mem e := by
  unfold entries
  rw [mem_entriesFrom]
  exact exists_congr fun i => and_iff_right (Nat.zero_le i)

/-! ### fastForward -/

namespace Inv
variable (h : t.Inv hash)
include h

theorem entries_nodup : t.entries.Nodup := by
  unfold entries entriesFrom
  refine List.Nodup.filterMap ?_ List.nodup_range'
  intro i j a hi hj
  exact h.distinct i j a a hi hj rfl

theorem entries_keys_nodup : (t.entries.map Prod.fst).Nodup := by
  refine List.Nodup.map_on ?_ h.entries_nodup
  intro a ha b hb hab
  obtain ⟨i, hi⟩ := mem_entries.mp ha
  obtain ⟨j, hj⟩ := mem_entries.mp hb
  cases h.distinct i j a b hi hj hab
  exact Option.some.inj (hi.symm.trans hj)

theorem length_entries : t.entries.length = t.numElements := by
  rw [h.size, card_occupied]
  unfold entries entriesFrom
  rw [Nat.sub_zero, ← List.range_eq_range']
  generalize List.range t.keyVals.length = is
  induction is with
  | nil => rfl
  | cons i is ih =>
    cases ha : t.occ i with
    | none => simp [ha, ih]
    | some a => simp [ha, ih]

/-- `n` is the next entry from `idx` on, or the end. -/
structure Next (t : Table K V) (idx n : Nat) : Prop where
  le : idx ≤ n
  le_length : n ≤ t.keyVals.length
  skipped : ∀ i, idx ≤ i → i < n → t.occ i = none
  stop : n = t.keyVals.length ∨ ∃ e, t.occ n = some e

theorem fastForward_spec (hmask : t.mask ≠ 0) : ∀ (fuel : Nat) {idx : Nat},
    idx ≤ t.keyVals.length → t.keyVals.length < idx + fuel →
    ∃ n, t.fastForward fuel idx = .ok n ∧ Next t idx n := by
  have hlen := h.info_length
  -- the bytes in front of the end tell whether there is an entry
  have hzero : ∀ {i}, i < t.keyVals.length → (t.info[i]? = some 0 ↔ t.occ i = none) := by
    intro i hi
    cases ha : t.occ i with
    | some a =>
      rw [h.info_occ ha]
      have := inc_le_byte hash t a.1 i
      have := h.inc.two_le
      simp only [Option.some.injEq, reduceCtorEq, iff_false]
      omega
    | none =>
      have hb := h.bytes i
      rw [ha, infoByte_none, if_neg (by omega), if_pos (by omega)] at hb
      simp [hb]
  have hend : t.info[t.keyVals.length]? = some 1 := by
    have hb := h.bytes t.keyVals.length
    rwa [occ_length, infoByte_none, if_pos ⟨rfl, hmask⟩] at hb
  intro fuel
  induction fuel with
  | zero =>
    intro idx hle hlt
    omega
  | succ fuel ih =>
    intro idx hle hlt
    rw [fastForward, if_neg (by omega)]
    dsimp only
    have hget : ∀ j, j < 8 → ((t.info.drop idx).take 8)[j]? = t.info[idx + j]? := by
      intro j hj
      rw [List.getElem?_take_of_lt hj, List.getElem?_drop]
    have hword : ((t.info.drop idx).take 8).length = 8 := by
      rw [List.length_take, List.length_drop]
      omega
    split
    · next hload =>
      rw [load64_eq_zero] at hload
      have hnone : ∀ j, j < 8 → t.info[idx + j]? = some 0 := by
        intro j hj
        rw [← hget j hj, List.getElem?_eq_getElem (by omega), hload _ (List.getElem_mem _)]
      have hshort : idx + 8 ≤ t.keyVals.length := by
        by_contra hlong
        have hlast := hnone (t.keyVals.length - idx) (by omega)
        rw [show idx + (t.keyVals.length - idx) = t.keyVals.length by omega, hend] at hlast
        cases hlast
      obtain ⟨n, hn, hnext⟩ := ih hshort (by omega)
      refine ⟨n, hn, by have := hnext.le; omega, hnext.le_length, fun i hi hin => ?_, hnext.stop⟩
      by_cases hi' : idx + 8 ≤ i
      · exact hnext.skipped i hi' hin
      · refine (hzero (by omega)).mp ?_
        rw [show i = idx + (i - idx) by omega]
        exact hnone _ (by omega)
    · next hload =>
      rw [load64_eq_zero] at hload
      -- the first byte that is not zero
      obtain ⟨k, -, hk, hfront, hstop⟩ := exists_first_not
        (P := fun j => t.info[idx + j]? = some 0) (i := 0) (n := t.keyVals.length - idx)
        (Nat.zero_le _) (by
          rw [show idx + (t.keyVals.length - idx) = t.keyVals.length by omega, hend]
          simp)
      have hk8 : k < 8 := by
        by_contra hge
        refine hload fun b hb => ?_
        obtain ⟨j, hj⟩ := List.getElem?_of_mem hb
        have hj8 : j < 8 := by
          have := (List.getElem?_eq_some_iff.mp hj).1
          omega
        rw [hget j hj8, hfront j (Nat.zero_le j) (by omega)] at hj
        cases hj
        rfl
      obtain ⟨b, hb⟩ : ∃ b, t.info[idx + k]? = some b :=
        ⟨_, List.getElem?_eq_getElem (by omega)⟩
      have hb0 : b ≠ 0 := by
        rintro rfl
        exact hstop hb
      have hb256 := h.info_lt b (List.mem_of_getElem? hb)
      have hsplit : (t.info.drop idx).take 8 =
          List.replicate k 0 ++ b :: ((t.info.drop idx).take 8).drop (k + 1) := by
        refine List.ext_getElem? fun j => ?_
        rcases Nat.lt_trichotomy j k with hj | rfl | hj
        · rw [List.getElem?_append_left (by simpa using hj), List.getElem?_replicate, if_pos hj,
            hget j (by omega), hfront j (Nat.zero_le j) hj]
        · rw [List.getElem?_append_right (by simp), List.length_replicate, Nat.sub_self,
            List.getElem?_cons_zero, hget j hk8, hb]
        · rw [List.getElem?_append_right (by simp; omega), List.length_replicate,
            show j - k = j - k - 1 + 1 by omega, List.getElem?_cons_succ, List.getElem?_drop,
            show k + 1 + (j - k - 1) = j by omega]
      have hcount : countTrailingZeroes 64 (load64 ((t.info.drop idx).take 8)) / 8 = k := by
        rw [hsplit]
        have hct := countTrailingZeroes_ofDigits b (((t.info.drop idx).take 8).drop (k + 1)) hb256 hb0
          k (64 - 8 * k)
        rwa [show 64 - 8 * k + 8 * k = 64 by omega] at hct
      refine ⟨idx + k, by rw [hcount], by omega, by omega, fun i hi hik => ?_, ?_⟩
      · refine (hzero (by omega)).mp ?_
        rw [show i = idx + (i - idx) by omega]
        exact hfront _ (Nat.zero_le _) (by omega)
      · rcases Nat.eq_or_lt_of_le (show idx + k ≤ t.keyVals.length by omega) with heq | hlt'
        · exact Or.inl heq
        · refine Or.inr (Option.ne_none_iff_exists'.mp fun hnone => hstop ?_)
          exact (hzero hlt').mpr hnone

theorem mask_ne_zero {i : Nat} {e : K × V} (he : t.occ i = some e) : t.mask ≠ 0 := by
  intro hzero
  have hcap := h.capacity
  rw [if_pos hzero] at hcap
  have := lt_of_occ he
  omega

theorem next_spec {i : Nat} {e : K × V} (he : t.occ i = some e) :
    ∃ n, t.next i = .ok n ∧ Next t (i + 1) n :=
  h.fastForward_spec (h.mask_ne_zero he) t.fuel (lt_of_occ he) (h.fuel_gt le_rfl)

theorem begin_spec : ∃ n, t.begin = .ok n ∧ Next t 0 n := by
  have hnone : t.numElements = 0 → ∀ i, t.occ i = none := by
    intro hzero i
    by_contra hne
    obtain ⟨e, he⟩ := Option.ne_none_iff_exists'.mp hne
    have := num_pos h he
    omega
  unfold begin
  by_cases hzero : t.numElements = 0
  · rw [if_pos hzero, h.endIdx_eq]
    exact ⟨_, rfl, Nat.zero_le _, le_rfl, fun i _ _ => hnone hzero i, Or.inl rfl⟩
  · rw [if_neg hzero]
    have hsize := h.size
    obtain ⟨i, hi⟩ := Finset.card_pos.mp (show 0 < (occupied t.occ t.keyVals.length).card by omega)
    obtain ⟨e, he⟩ := Option.isSome_iff_exists.mp (mem_occupied.mp hi).2
    exact h.fastForward_spec (h.mask_ne_zero he) t.fuel (Nat.zero_le _) (h.fuel_gt le_rfl)

omit h in
theorem Next.entriesFrom_eq (hnext : Next t idx n) : t.entriesFrom idx = t.entriesFrom n :=
  entriesFrom_skip hnext.le hnext.le_length hnext.skipped

/-! ### Loops -/

theorem forEachFrom_spec {σ : Type} (f : σ → K × V → σ) : ∀ (fuel : Nat) {idx : Nat} (s : σ),
    (idx = t.keyVals.length ∨ ∃ e, t.occ idx = some e) → t.keyVals.length < idx + fuel →
    t.forEachFrom f fuel idx s = .ok ((t.entriesFrom idx).foldl f s) := by
  intro fuel
  induction fuel with
  | zero =>
    intro idx s hidx hlt
    rcases hidx with rfl | ⟨e, he⟩
    · omega
    · have := lt_of_occ he
      omega
  | succ fuel ih =>
    intro idx s hidx hlt
    rw [forEachFrom, h.endIdx_eq]
    rcases hidx with rfl | ⟨e, he⟩
    · rw [if_pos rfl, entriesFrom_length, List.foldl_nil]
    · obtain ⟨n, hn, hnext⟩ := h.next_spec he
      have := hnext.le
      have := lt_of_occ he
      rw [if_neg (by omega), nodeAt_occ he]
      simp only [bind, Except.bind, hn]
      rw [ih (f s e) hnext.stop (by omega), entriesFrom_of_occ he, hnext.entriesFrom_eq,
        List.foldl_cons]

/-- A loop over the table folds over its entries. -/
theorem forEach_spec {σ : Type} (f : σ → K × V → σ) (s : σ) :
    t.forEach f s = .ok (t.entries.foldl f s) := by
  obtain ⟨n, hn, hnext⟩ := h.begin_spec
  unfold forEach
  simp only [bind, Except.bind, hn]
  rw [h.forEachFrom_spec f t.fuel s hnext.stop (h.fuel_gt le_rfl), entries, hnext.entriesFrom_eq]

/-- `erase(pos)` goes on with the entries behind the erased one. -/
theorem eraseIdx_spec {i : Nat} {e : K × V} (he : t.occ i = some e) : ∃ t' n,
    t.eraseIdx i = .ok (t', n) ∧ Removed hash t t' e ∧
      (n = t'.keyVals.length ∨ ∃ e, t'.occ n = some e) ∧
      t'.entriesFrom n = t.entriesFrom (i + 1) := by
  obtain ⟨q, t₁, ht₁, hole, hocc, hq, hlen, hmask, hnum, hinv⟩ := h.shiftDown_spec he
  have hremoved := eraseAt_removed h he hole hocc hmask hinv
  generalize hT : ({ t₁ with numElements := t.numElements - 1 } : Table K V) = T at hinv hremoved
  have hlenT : T.keyVals.length = t.keyVals.length := by rw [← hT]; exact hlen
  have hmaskT : T.mask = t.mask := by rw [← hT]; exact hmask
  have hoccT : T.occ = eraseAt t.occ i q := by rw [← hocc, ← hT]; rfl
  have hi := lt_of_occ he
  have hiq := hole.le
  -- the slots from `i` on hold what was behind `i`
  have hbehind : T.entriesFrom i = t.entriesFrom (i + 1) := by
    have hmoved : ∀ k, i ≤ k → k ≤ q → T.entriesFrom k = t.entriesFrom (k + 1) := by
      intro k hk hkq
      induction hd : q - k generalizing k with
      | zero =>
        have hkq : k = q := by omega
        subst hkq
        have htail : T.entriesFrom (k + 1) = t.entriesFrom (k + 1) := by
          unfold entriesFrom
          rw [hlenT]
          refine List.filterMap_congr fun j hj => ?_
          have hj := (List.mem_range'_1.mp hj).1
          rw [hoccT, eraseAt, if_neg (by omega), if_neg (by omega), if_neg (by omega)]
        rw [entriesFrom_succ (by omega), htail, hoccT, eraseAt, if_neg (by omega),
          if_neg (by omega), if_pos rfl]
        rfl
      | succ d ih =>
        rw [entriesFrom_succ (t := T) (by omega), entriesFrom_succ (t := t) (by omega),
          ih (k + 1) (by omega) (by omega) (by omega), hoccT, eraseAt, if_neg (by omega),
          if_pos (by omega)]
    exact hmoved i le_rfl hiq
  have hstart : t.eraseIdx i = (do
      let b ← T.infoAt i
      if b ≠ 0 then .ok (T, i)
      else do
        let n ← T.next i
        .ok (T, n)) := by
    unfold eraseIdx
    simp only [bind, Except.bind, ht₁]
    rw [hnum, hT]
  rw [hstart]
  simp only [bind, Except.bind]
  cases ha : T.occ i with
  | some a =>
    have := inc_le_byte hash T a.1 i
    have := hinv.inc.two_le
    rw [hinv.infoAt_occ ha]
    dsimp only
    rw [if_pos (by omega)]
    exact ⟨T, i, rfl, hremoved, Or.inr ⟨a, ha⟩, hbehind⟩
  | none =>
    obtain ⟨b, hb, -, hzero⟩ := hinv.infoAt_none ha (by omega)
    obtain ⟨n, hn, hnext⟩ := hinv.fastForward_spec (by rw [hmaskT]; exact h.mask_ne_zero he) T.fuel
      (show i + 1 ≤ T.keyVals.length by omega) (hinv.fuel_gt le_rfl)
    rw [hb]
    dsimp only
    rw [if_neg (by simp [hzero (by omega)])]
    unfold next
    rw [hn]
    refine ⟨T, n, rfl, hremoved, hnext.stop, ?_⟩
    rw [← hnext.entriesFrom_eq, ← hbehind, entriesFrom_succ (show i < T.keyVals.length by omega), ha]
    rfl

end Inv

theorem sweepFrom_spec {σ : Type} (body : σ → K × V → Bool × σ) : ∀ (fuel : Nat) {idx : Nat}
    {t : Table K V} (s : σ), t.Inv hash → (t.entriesFrom idx).Nodup →
    (idx = t.keyVals.length ∨ ∃ e, t.occ idx = some e) → (t.entriesFrom idx).length < fuel →
    ∃ t', sweepFrom body fuel idx t s = .ok (t', (swept body s (t.entriesFrom idx)).2) ∧
      t'.Inv hash ∧ t'.mask = t.mask ∧
      ∀ e, t'.Mem e ↔ t.Mem e ∧ e ∉ (swept body s (t.entriesFrom idx)).1 := by
  intro fuel
  induction fuel with
  | zero =>
    intro idx t s _ _ _ hlt
    omega
  | succ fuel ih =>
    intro idx t s h hnodup hidx hlt
    rw [sweepFrom, h.endIdx_eq]
    rcases hidx with rfl | ⟨e, he⟩
    · rw [if_pos rfl, entriesFrom_length]
      exact ⟨t, rfl, h, rfl, fun e => by simp [swept]⟩
    · have hne := lt_of_occ he
      rw [if_neg (by omega), nodeAt_occ he]
      have hcons := entriesFrom_of_occ he
      rw [hcons, List.length_cons] at hlt
      rw [hcons] at hnodup ⊢
      have hnodup' := List.nodup_cons.mp hnodup
      simp only [bind, Except.bind, swept]
      by_cases hgone : (body s e).1 = true
      · obtain ⟨t₁, n, ht₁, hremoved, hstop, htail⟩ := h.eraseIdx_spec he
        rw [if_pos hgone, if_pos hgone, ht₁]
        dsimp only
        obtain ⟨t', ht', hinv, hmask, hmem⟩ := ih (body s e).2 hremoved.inv
          (by rw [htail]; exact hnodup'.2) hstop (by rw [htail]; omega)
        rw [htail] at ht' hmem
        refine ⟨t', ht', hinv, hmask.trans hremoved.mask, fun a => ?_⟩
        rw [hmem a, hremoved.mem, List.mem_cons, not_or]
        exact ⟨fun ⟨⟨hne, ha⟩, hrest⟩ => ⟨ha, hne, hrest⟩, fun ⟨ha, hne, hrest⟩ => ⟨⟨hne, ha⟩, hrest⟩⟩
      · obtain ⟨n, hn, hnext⟩ := h.next_spec he
        have htail := hnext.entriesFrom_eq
        rw [htail] at hnodup' ⊢
        rw [if_neg hgone, if_neg hgone, hn]
        exact ih (body s e).2 h hnodup'.2 hnext.stop (by rw [← htail]; omega)

namespace Inv
variable (h : t.Inv hash)
include h

/-- A loop that erases while it iterates sees the entries there were at the beginning, each of them once,
and removes those it is to remove. -/
theorem sweep_spec {σ : Type} (body : σ → K × V → Bool × σ) (s : σ) : ∃ t',
    t.sweep body s = .ok (t', (swept body s t.entries).2) ∧ t'.Inv hash ∧ t'.mask = t.mask ∧
      ∀ e, t'.Mem e ↔ t.Mem e ∧ e ∉ (swept body s t.entries).1 := by
  obtain ⟨n, hn, hnext⟩ := h.begin_spec
  have hentries : t.entriesFrom n = t.entries := hnext.entriesFrom_eq.symm
  have hlen : t.entries.length < t.fuel := by
    unfold entries entriesFrom fuel
    have := List.length_filterMap_le t.occ (List.range' 0 (t.keyVals.length - 0))
    rw [List.length_range'] at this
    have := h.info_length
    omega
  obtain ⟨t', ht', hrest⟩ := sweepFrom_spec body t.fuel s h
    (by rw [hentries]; exact h.entries_nodup) hnext.stop (by rw [hentries]; exact hlen)
  rw [hentries] at ht' hrest
  refine ⟨t', ?_, hrest⟩
  unfold sweep
  simp only [bind, Except.bind, hn]
  exact ht'

end Inv

/-! ### clear -/

/-- The `Destroyer` destroys the nodes in the slots it has been to. -/
theorem destroyNodes_spec (t : Table K V) : ∀ (idx : Nat), idx ≤ t.keyVals.length →
    (∀ i, i < idx → t.Readable i) →
    ∃ kv, destroyNodes idx t = .ok { t with keyVals := kv } ∧ kv.length = t.keyVals.length ∧
      ∀ i, kv[i]? = if i < idx then some none else t.keyVals[i]? := by
  intro idx
  induction idx with
  | zero => exact fun _ _ => ⟨t.keyVals, rfl, rfl, fun i => by rw [if_neg (by omega)]⟩
  | succ idx ih =>
    intro hle hread
    obtain ⟨kv, hkv, hlen, hget⟩ := ih (by omega) fun i hi => hread i (by omega)
    have hri := hread idx (by omega)
    have hslot : kv[idx]? = t.keyVals[idx]? := by rw [hget, if_neg (by omega)]
    have hsame : ∀ i, infoAt { t with keyVals := kv } i = t.infoAt i := fun i => rfl
    rw [destroyNodes]
    simp only [bind, Except.bind, hkv, hsame]
    unfold Readable at hri
    cases ho : t.occ idx with
    | none =>
      rw [ho] at hri
      rw [hri]
      refine ⟨kv, rfl, hlen, fun i => ?_⟩
      rw [hget i]
      by_cases hi : i = idx
      · have hnone : t.keyVals[idx]? = some none := by
          rw [List.getElem?_eq_getElem (by omega)]
          unfold occ at ho
          rw [List.getElem?_eq_getElem (by omega)] at ho
          exact congrArg some ho
        rw [hi, if_neg (by omega), if_pos (by omega), hnone]
      · by_cases hlt : i < idx
        · rw [if_pos hlt, if_pos (by omega)]
        · rw [if_neg hlt, if_neg (by omega)]
    | some e =>
      rw [ho] at hri
      obtain ⟨b, hb, hb0⟩ := hri
      have hnode : destruct { t with keyVals := kv } idx = .ok { t with keyVals := kv.set idx none } := by
        simp only [destruct, hslot, occ_eq_some.mp ho]
      rw [hb]
      dsimp only
      rw [if_pos hb0, hnode]
      refine ⟨kv.set idx none, rfl, by rw [List.length_set, hlen], fun i => ?_⟩
      by_cases hi : i = idx
      · rw [hi, List.getElem?_set_self (by omega), if_pos (by omega)]
      · rw [List.getElem?_set_ne (by omega), hget i]
        by_cases hlt : i < idx
        · rw [if_pos hlt, if_pos (by omega)]
        · rw [if_neg hlt, if_neg (by omega)]

theorem Inv.readable (h : t.Inv hash) {i : Nat} (hi : i < t.keyVals.length) : t.Readable i := by
  unfold Readable
  cases he : t.occ i with
  | some e =>
    refine ⟨_, h.infoAt_occ he, ?_⟩
    have := inc_le_byte hash t e.1 i
    have := h.inc.two_le
    omega
  | none =>
    obtain ⟨b, hb, -, hzero⟩ := h.infoAt_none he (by omega)
    rw [hb, hzero (by omega)]

/-- `clear` destroys every entry. -/
theorem clear_spec (h : t.Inv hash) :
    ∃ t', t.clear = .ok t' ∧ t'.Inv hash ∧ t'.mask = t.mask ∧ ∀ e, ¬ t'.Mem e := by
  unfold clear
  by_cases hzero : t.numElements = 0
  · rw [if_pos hzero]
    refine ⟨t, rfl, h, rfl, ?_⟩
    rintro e ⟨i, he⟩
    have := num_pos h he
    omega
  · rw [if_neg hzero]
    have hmask : t.mask ≠ 0 := by
      intro hm
      have hload := h.load
      rw [hm, show calcMaxNumElementsAllowed (0 + 1) = 0 by decide] at hload
      omega
    have hcap := h.capacity
    rw [if_neg hmask] at hcap
    dsimp only
    rw [← hcap]
    obtain ⟨kv, hkv, hlen, hget⟩ := destroyNodes_spec { t with numElements := 0 } t.keyVals.length
      le_rfl fun i hi => h.readable hi
    simp only [bind, Except.bind, hkv]
    have hlen : kv.length = t.keyVals.length := hlen
    have hnone : ∀ i : Nat, kv[i]?.join = none := by
      intro i
      rw [hget i]
      split
      · rfl
      · next hi =>
        show (t.keyVals[i]?).join = none
        rw [List.getElem?_eq_none (by omega)]
        rfl
    refine ⟨_, rfl, inv_of_none hash hnone (h.mask.resolve_left hmask) (hlen.trans hcap) ?_ rfl rfl
      rfl h.allowed, rfl, fun e ⟨i, hi⟩ => ?_⟩
    · rw [← hlen]
    · have hi : kv[i]?.join = some e := hi
      rw [hnone] at hi
      cases hi

end CosmicArchitect.RobinHood.Table
