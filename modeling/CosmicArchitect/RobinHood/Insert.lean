import CosmicArchitect.RobinHood.Search

/-!
# Putting an entry where it belongs

`shiftUp` moves the nodes and raises the info bytes from the insertion index to the empty spot. The
spot lies in front of the sentinel: a run of full slots is either no longer than the number of entries, or
kept short by the eight bits of an info byte.
-/

namespace CosmicArchitect.RobinHood.Table
open Library

variable {K V : Type} {hash : K → BitVec 64} {t : Table K V} {key : K} {v : V} {p q : Nat}

/-! ### shiftUp -/

theorem moveUp_spec : ∀ {idx : Nat} {t : Table K V}, p < idx → idx ≤ t.keyVals.length →
    (∀ i, p ≤ i → i < idx → ∃ e, t.keyVals[i]? = some (some e)) →
    ∃ kv, moveUp p idx t = .ok { t with keyVals := kv } ∧ kv.length = t.keyVals.length ∧
      ∀ i, kv[i]? = if p < i ∧ i < idx then t.keyVals[i - 1]? else t.keyVals[i]? := by
  intro idx
  induction idx with
  | zero =>
    intro t hp
    omega
  | succ idx ih =>
    intro t hp hlen hfull
    rw [moveUp]
    by_cases heq : idx = p
    · rw [if_pos heq]
      exact ⟨t.keyVals, rfl, rfl, fun i => by rw [if_neg (by omega)]⟩
    · obtain ⟨e, he⟩ := hfull (idx - 1) (by omega) (by omega)
      obtain ⟨e', he'⟩ := hfull idx (by omega) (by omega)
      have hnode : t.nodeBefore idx = .ok e := by
        rw [show idx = idx - 1 + 1 by omega]
        simp only [nodeBefore, nodeAt, he]
      have hassign : t.assign idx e = .ok { t with keyVals := t.keyVals.set idx (some e) } := by
        simp only [assign, he']
      rw [if_neg heq, hnode]
      simp only [bind, Except.bind, hassign]
      obtain ⟨kv, hkv, hkvlen, hget⟩ := ih (t := { t with keyVals := t.keyVals.set idx (some e) })
        (by omega) (by rw [List.length_set]; omega) fun i hi hi' => by
          rw [List.getElem?_set_ne (by omega)]
          exact hfull i hi (by omega)
      refine ⟨kv, hkv, by rw [hkvlen, List.length_set], fun i => ?_⟩
      rw [hget i]
      by_cases hin : p < i ∧ i < idx
      · rw [if_pos hin, if_pos (by omega), List.getElem?_set_ne (by omega)]
      · by_cases hi : i = idx
        · rw [if_neg (by omega), if_pos (by omega), hi, List.getElem?_set_self (by omega), he]
        · rw [if_neg hin, if_neg (by omega), List.getElem?_set_ne (by omega)]

/-- `mMaxNumElementsAllowed` after the bytes from `p` up to `idx` were raised. -/
def Raised (t : Table K V) (p idx m : Nat) : Prop :=
  m = t.maxNumElementsAllowed ∧
      (∀ i b, p ≤ i → i < idx → t.info[i]? = some b → b + 2 * t.infoInc ≤ 255) ∨
    m = 0 ∧ ∃ i b, p ≤ i ∧ i < idx ∧ t.info[i]? = some b ∧ 255 < b + 2 * t.infoInc

/-- No raised byte leaves eight bits, and one that can not be raised once more clears
`mMaxNumElementsAllowed`. -/
theorem raiseInfo_spec : ∀ {idx : Nat} {t : Table K V}, p ≤ idx →
    (∀ i, p ≤ i → i ≤ idx → ∃ b, t.info[i]? = some b) →
    (∀ i b, p ≤ i → i < idx → t.info[i]? = some b → b + t.infoInc ≤ 255) →
    ∃ bytes m, raiseInfo p idx t = .ok { t with info := bytes, maxNumElementsAllowed := m } ∧
      (∀ i, bytes[i]? = if p < i ∧ i ≤ idx then t.info[i - 1]?.map (· + t.infoInc)
        else t.info[i]?) ∧ Raised t p idx m := by
  intro idx
  induction idx with
  | zero =>
    intro t hp _ _
    rw [raiseInfo, if_pos (by omega)]
    refine ⟨t.info, t.maxNumElementsAllowed, rfl, fun i => by rw [if_neg (by omega)], ?_⟩
    exact Or.inl ⟨rfl, fun i b _ hi => by omega⟩
  | succ idx ih =>
    intro t hp hfull hroom
    rw [raiseInfo]
    by_cases heq : idx + 1 = p
    · rw [if_pos heq]
      refine ⟨t.info, t.maxNumElementsAllowed, rfl, fun i => by rw [if_neg (by omega)], ?_⟩
      exact Or.inl ⟨rfl, fun i b _ hi => by omega⟩
    · obtain ⟨b, hb⟩ := hfull idx (by omega) (by omega)
      obtain ⟨b', hb'⟩ := hfull (idx + 1) (by omega) le_rfl
      have hle := hroom idx b (by omega) (by omega) hb
      have hlt : idx + 1 < t.info.length := (List.getElem?_eq_some_iff.mp hb').1
      have hat : t.infoAt idx = .ok b := by simp only [infoAt, hb]
      have hset : t.setInfo (idx + 1) ((b + t.infoInc) % 256) =
          .ok { t with info := t.info.set (idx + 1) (b + t.infoInc) } := by
        rw [setInfo, if_pos hlt, Nat.mod_eq_of_lt (by omega)]
      rw [if_neg heq, hat]
      simp only [bind, Except.bind, hset]
      rw [Nat.mod_eq_of_lt (show b + t.infoInc < 256 by omega)]
      -- the byte is set, and perhaps the flag
      have hnext : ∀ m, ∃ bytes m',
          raiseInfo p idx { t with
            info := t.info.set (idx + 1) (b + t.infoInc), maxNumElementsAllowed := m } =
            .ok { t with info := bytes, maxNumElementsAllowed := m' } ∧
          (∀ i, bytes[i]? = if p < i ∧ i ≤ idx + 1 then t.info[i - 1]?.map (· + t.infoInc)
            else t.info[i]?) ∧
          (m' = m ∧ (∀ i b, p ≤ i → i < idx → t.info[i]? = some b → b + 2 * t.infoInc ≤ 255) ∨
            m' = 0 ∧ ∃ i b, p ≤ i ∧ i < idx ∧ t.info[i]? = some b ∧ 255 < b + 2 * t.infoInc) := by
        intro m
        obtain ⟨bytes, m', hok, hget, hm'⟩ := ih (t := { t with
            info := t.info.set (idx + 1) (b + t.infoInc), maxNumElementsAllowed := m })
          (by omega)
          (fun i hi hi' => by
            rw [List.getElem?_set_ne (by omega)]
            exact hfull i hi (by omega))
          (fun i c hi hi' hc => by
            rw [List.getElem?_set_ne (by omega)] at hc
            exact hroom i c hi (by omega) hc)
        refine ⟨bytes, m', hok, fun i => ?_, ?_⟩
        · rw [hget i]
          by_cases hin : p < i ∧ i ≤ idx
          · rw [if_pos hin, if_pos (by omega), List.getElem?_set_ne (by omega)]
          · by_cases hi : i = idx + 1
            · rw [if_neg (by omega), if_pos (by omega), hi, List.getElem?_set_self hlt,
                Nat.add_sub_cancel, hb]
              rfl
            · rw [if_neg hin, if_neg (by omega), List.getElem?_set_ne (by omega)]
        · rcases hm' with ⟨hm', hsmall⟩ | ⟨hm', i, c, hi, hi', hc, hlarge⟩
          · refine Or.inl ⟨hm', fun i c hi hi' hc => hsmall i c hi hi' ?_⟩
            rw [List.getElem?_set_ne (by omega)]
            exact hc
          · rw [List.getElem?_set_ne (by omega)] at hc
            exact Or.inr ⟨hm', i, c, hi, hi', hc, hlarge⟩
      split
      · next hlarge =>
        obtain ⟨bytes, m', hok, hget, hm'⟩ := hnext 0
        refine ⟨bytes, m', hok, hget, Or.inr ⟨?_, idx, b, by omega, by omega, hb, by omega⟩⟩
        rcases hm' with ⟨hm', -⟩ | ⟨hm', -⟩ <;> exact hm'
      · next hsmall =>
        obtain ⟨bytes, m', hok, hget, hm'⟩ := hnext t.maxNumElementsAllowed
        refine ⟨bytes, m', hok, hget, ?_⟩
        rcases hm' with ⟨hm', hall⟩ | ⟨hm', i, c, hi, hi', hc, hlarge⟩
        · refine Or.inl ⟨hm', fun i c hi hi' hc => ?_⟩
          rcases Nat.eq_or_lt_of_le (Nat.lt_succ_iff.mp hi') with rfl | hlt'
          · cases hb.symm.trans hc
            omega
          · exact hall i c hi hlt' hc
        · exact Or.inr ⟨hm', i, c, hi, by omega, hc, hlarge⟩

theorem shiftUp_spec (hpq : p < q) (hempty : t.keyVals[q]? = some none)
    (hfull : ∀ i, p ≤ i → i < q → ∃ e, t.keyVals[i]? = some (some e))
    (hinfo : ∀ i, p ≤ i → i ≤ q → ∃ b, t.info[i]? = some b)
    (hroom : ∀ i b, p ≤ i → i < q → t.info[i]? = some b → b + t.infoInc ≤ 255) :
    ∃ kv bytes m, t.shiftUp q p =
        .ok { t with keyVals := kv, info := bytes, maxNumElementsAllowed := m } ∧
      kv.length = t.keyVals.length ∧
      (∀ i, kv[i]? = if p < i ∧ i ≤ q then t.keyVals[i - 1]? else t.keyVals[i]?) ∧
      (∀ i, bytes[i]? = if p < i ∧ i ≤ q then t.info[i - 1]?.map (· + t.infoInc)
        else t.info[i]?) ∧ Raised t p q m := by
  obtain ⟨e, he⟩ := hfull (q - 1) (by omega) (by omega)
  have hq : q < t.keyVals.length := (List.getElem?_eq_some_iff.mp hempty).1
  have hnode : t.nodeBefore q = .ok e := by
    rw [show q = q - 1 + 1 by omega]
    simp only [nodeBefore, nodeAt, he]
  have hconstruct : t.construct q e = .ok { t with keyVals := t.keyVals.set q (some e) } := by
    simp only [construct, hempty]
  obtain ⟨kv, hmove, hlen, hkv⟩ := moveUp_spec (t := { t with keyVals := t.keyVals.set q (some e) })
    hpq (by rw [List.length_set]; omega) fun i hi hi' => by
      rw [List.getElem?_set_ne (by omega)]
      exact hfull i hi hi'
  obtain ⟨bytes, m, hraise, hbytes, hm⟩ := raiseInfo_spec (t := { t with keyVals := kv })
    (show p ≤ q by omega) hinfo hroom
  refine ⟨kv, bytes, m, ?_, by rw [hlen, List.length_set], fun i => ?_, hbytes, hm⟩
  · rw [shiftUp, hnode]
    simp only [bind, Except.bind, hconstruct, hmove]
    exact hraise
  · rw [hkv i]
    by_cases hin : p < i ∧ i < q
    · rw [if_pos hin, if_pos (by omega), List.getElem?_set_ne (by omega)]
    · by_cases hi : i = q
      · rw [if_neg (by omega), if_pos (by omega), hi, List.getElem?_set_self hq, he]
      · rw [if_neg hin, if_neg (by omega), List.getElem?_set_ne (by omega)]

/-! ### The empty spot -/

namespace Inv
variable (h : t.Inv hash)
include h

/-- A full slot in front of the insertion index bounds the info to insert. -/
theorem byte_belongs (hb : h.Belongs key v p) (hmax : t.maxNumElementsAllowed ≠ 0) :
    t.byte hash key p ≤ 255 := by
  rcases Nat.eq_or_lt_of_le hb.home_le with heq | hlt
  · have := byte_home hash h.inc key
    have := h.inc.two_le
    rw [← heq]
    omega
  · obtain ⟨a, ha, hrank⟩ := hb.passed (p - 1) (by omega) (by omega)
    have hle := h.le_infoAt ha (by omega) hrank
    have hroom := h.room hmax ha
    have hsucc := byte_succ (show t.home hash key ≤ p - 1 by omega)
    rw [show p - 1 + 1 = p by omega] at hsucc
    omega

/-- The run of full slots from the home of a key ends in front of the sentinel. -/
theorem run_lt (hmax : t.maxNumElementsAllowed ≠ 0)
    (hnum : t.numElements < calcMaxNumElementsAllowed (t.mask + 1)) (key : K) {q : Nat}
    (hq : q ≤ t.keyVals.length) (hfull : ∀ j, t.home hash key ≤ j → j < q → (t.occ j).isSome) :
    q < t.keyVals.length := by
  have hmask : t.mask ≠ 0 := by
    intro hzero
    have := h.allowed
    rw [hzero] at this
    have hnone : calcMaxNumElementsAllowed (0 + 1) = 0 := by decide
    omega
  have hcap := h.capacity
  rw [if_neg hmask] at hcap
  have hhome := home_le_mask hash t key
  by_cases hq' : t.home hash key < q
  · -- the last full slot
    obtain ⟨a, ha⟩ := Option.isSome_iff_exists.mp (hfull (q - 1) (by omega) (by omega))
    have hroom := h.room hmax ha
    have hhome' := home_le_mask hash t a.1
    have hrun := run_le_card hfull hq
    rw [← h.size] at hrun
    have hdist : 2 * (q - 1 - t.home hash a.1 + 1) ≤
        t.infoInc * (q - 1 - t.home hash a.1 + 1) := Nat.mul_le_mul_right _ h.inc.two_le.1
    unfold byte at hroom
    unfold calcNumElementsWithBuffer at hcap
    omega
  · unfold calcNumElementsWithBuffer at hcap
    omega

theorem findEmpty_spec (hb : h.Belongs key v p) (hmax : t.maxNumElementsAllowed ≠ 0)
    (hnum : t.numElements < calcMaxNumElementsAllowed (t.mask + 1)) :
    ∃ q, t.findEmpty (t.byte hash key p) p = .ok (t.byte hash key q, q) ∧
      (t.homes hash h.inc).Spot t.occ (key, v) p q ∧ q < t.keyVals.length := by
  obtain ⟨q, hpq, hq, hfull, hempty⟩ := exists_first_not (P := fun j => (t.occ j).isSome)
    hb.le (by simp [occ_length])
  have hempty : t.occ q = none := by simpa using hempty
  have hrun : ∀ j, t.home hash key ≤ j → j < q → (t.occ j).isSome := by
    intro j hj hjq
    by_cases hjp : j < p
    · obtain ⟨a, ha, -⟩ := hb.passed j hj hjp
      rw [ha]
      rfl
    · exact hfull j (Nat.not_lt.mp hjp) hjq
  have hlt := h.run_lt hmax hnum key hq hrun
  refine ⟨q, ?_, ⟨hb.home_le, hb.passed, fun a ha => (hb.stop a ha).le, hpq, hfull, hempty⟩, hlt⟩
  refine nextWhile_spec hb.home_le hpq (h.fuel_gt hq) (fun j hj hjq => ?_) ?_
  · obtain ⟨a, ha⟩ := Option.isSome_iff_exists.mp (hfull j hj hjq)
    refine ⟨_, h.infoAt_occ ha, ?_⟩
    have := inc_le_byte hash t a.1 j
    have := h.inc.two_le
    simp
    omega
  · obtain ⟨b, hb', -, hzero⟩ := h.infoAt_none hempty (by omega)
    exact ⟨b, hb', by simp [hzero (by omega)]⟩

/-- In the smallest steps an info byte overflows only behind a long run of entries. -/
theorem num_of_large (hinc : t.infoInc = 2) {i : Nat} {e : K × V} (he : t.occ i = some e)
    (hbyte : 255 < t.byte hash e.1 i + t.infoInc) : 127 ≤ t.numElements := by
  have hi := lt_of_occ he
  have hhome := h.occ_home he
  have hbits := bits_lt hash h.inc e.1
  have hfull : ∀ j, t.home hash e.1 ≤ j → j < i + 1 → (t.occ j).isSome := by
    intro j hj hji
    rcases Nat.eq_or_lt_of_le (Nat.lt_succ_iff.mp hji) with rfl | hlt
    · rw [he]
      rfl
    · exact h.layout.full he hj hlt
  have hrun := run_le_card hfull (show i + 1 ≤ t.keyVals.length from hi)
  rw [← h.size] at hrun
  unfold byte at hbyte
  rw [hinc] at hbyte hbits
  omega

/-! ### The new entry -/

theorem info_occ {i : Nat} {e : K × V} (he : t.occ i = some e) :
    t.info[i]? = some (t.byte hash e.1 i) := by
  have hb := h.bytes i
  rwa [he] at hb

theorem inserted (hb : h.Belongs key v p) (hs : (t.homes hash h.inc).Spot t.occ (key, v) p q)
    (hq : q < t.keyVals.length) (hmax : t.maxNumElementsAllowed ≠ 0)
    (hnum : t.numElements < calcMaxNumElementsAllowed (t.mask + 1)) (kv : List (Option (K × V)))
    (bytes : List Nat) {m : Nat} (hlen : kv.length = t.keyVals.length)
    (hkv : ∀ i, kv[i]? = if p < i ∧ i ≤ q then t.keyVals[i - 1]? else t.keyVals[i]?)
    (hbytes : ∀ i, bytes[i]? = if p < i ∧ i ≤ q then t.info[i - 1]?.map (· + t.infoInc)
      else t.info[i]?)
    (hm : m ≠ 0 → m = t.maxNumElementsAllowed ∧ t.byte hash key p + t.infoInc ≤ 255 ∧
      ∀ i b, p ≤ i → i < q → t.info[i]? = some b → b + 2 * t.infoInc ≤ 255) :
    Inv hash { t with
      keyVals := kv.set p (some (key, v))
      info := bytes.set p (t.byte hash key p)
      numElements := t.numElements + 1
      maxNumElementsAllowed := m } ∧
    (kv.set p (some (key, v)))[p]? = some (some (key, v)) ∧
    ∀ e, (∃ i : Nat, (kv.set p (some (key, v)))[i]?.join = some e) ↔
      e = (key, v) ∨ ∃ i, t.occ i = some e := by
  have hpq := hs.le
  have hself : (kv.set p (some (key, v)))[p]? = some (some (key, v)) :=
    List.getElem?_set_self (by omega)
  have hocc : ∀ i, (kv.set p (some (key, v)))[i]?.join = insertAt t.occ p q (key, v) i := by
    intro i
    rcases insertAt_cases t.occ (key, v) p q i with
      ⟨hi, he⟩ | ⟨rfl, he⟩ | ⟨hi, hi', he⟩ | ⟨hi, hi', he⟩ <;> rw [he]
    · rw [List.getElem?_set_ne (by omega), hkv i, if_neg (by omega)]
      rfl
    · rw [hself]
      rfl
    · rw [List.getElem?_set_ne (by omega), hkv i, if_pos ⟨hi, hi'⟩]
      rfl
    · rw [List.getElem?_set_ne (by omega), hkv i, if_neg (by omega)]
      rfl
  -- what stands in a slot afterwards: the new entry, one that moved up, or one that stayed
  have hcases : ∀ {i e}, insertAt t.occ p q (key, v) i = some e →
      (i = p ∧ e = (key, v)) ∨ (p < i ∧ i ≤ q ∧ t.occ (i - 1) = some e) ∨
        (i ≠ p ∧ ¬ (p < i ∧ i ≤ q) ∧ t.occ i = some e) := by
    intro i e hi
    rcases insertAt_cases t.occ (key, v) p q i with
      ⟨hlt, he⟩ | ⟨rfl, he⟩ | ⟨hlt, hle, he⟩ | ⟨hlt, hlt', he⟩ <;> rw [he] at hi
    · exact Or.inr (Or.inr ⟨by omega, by omega, hi⟩)
    · cases hi
      exact Or.inl ⟨rfl, rfl⟩
    · exact Or.inr (Or.inl ⟨hlt, hle, hi⟩)
    · exact Or.inr (Or.inr ⟨by omega, by omega, hi⟩)
  have hmoved : ∀ {i e}, p < i → t.occ (i - 1) = some e →
      t.byte hash e.1 i = t.byte hash e.1 (i - 1) + t.infoInc := by
    intro i e hi he
    have hsucc := byte_succ (h.occ_home he)
    rwa [show i - 1 + 1 = i by omega] at hsucc
  have hpbytes : p < bytes.length := by
    have hget := hbytes p
    rw [if_neg (by omega), List.getElem?_eq_getElem (l := t.info) (by have := h.info_length; omega)] at hget
    exact (List.getElem?_eq_some_iff.mp hget).1
  refine ⟨⟨⟨h.inc.shift, h.inc.inc⟩, ?_, ?_, ?_, ?_, h.mask, ?_, hnum, ?_, ?_, ?_⟩,
    hself, fun e => ?_⟩
  · have hlayout := h.layout.insert hs
    rw [← funext hocc] at hlayout
    exact hlayout
  · have hdistinct := h.distinct.insert (p := p) (q := q) (x := (key, v)) hb.absent
    rw [← funext hocc] at hdistinct
    exact hdistinct
  · intro i
    show (bytes.set p (t.byte hash key p))[i]? =
      t.infoByte hash (kv.set p (some (key, v))).length i (kv.set p (some (key, v)))[i]?.join
    rw [hocc i, List.length_set, hlen]
    rcases insertAt_cases t.occ (key, v) p q i with
      ⟨hi, he⟩ | ⟨rfl, he⟩ | ⟨hi, hi', he⟩ | ⟨hi, hi', he⟩ <;> rw [he]
    · rw [List.getElem?_set_ne (by omega), hbytes i, if_neg (by omega)]
      exact h.bytes i
    · rw [List.getElem?_set_self hpbytes, infoByte_some]
    · obtain ⟨e, he'⟩ := Option.isSome_iff_exists.mp (hs.full (i - 1) (by omega) (by omega))
      rw [List.getElem?_set_ne (by omega), hbytes i, if_pos ⟨hi, hi'⟩, h.info_occ he', he']
      rw [Option.map_some, infoByte_some, hmoved hi he']
    · rw [List.getElem?_set_ne (by omega), hbytes i, if_neg (by omega)]
      exact h.bytes i
  · show (kv.set p (some (key, v))).length = _
    rw [List.length_set, hlen]
    exact h.capacity
  · show t.numElements + 1 = (occupied (fun i => (kv.set p (some (key, v)))[i]?.join)
      (kv.set p (some (key, v))).length).card
    rw [funext hocc, List.length_set, hlen, card_insertAt hs hq, ← h.size]
  · show m = 0 ∨ m = _
    by_cases hm0 : m = 0
    · exact Or.inl hm0
    · rw [(hm hm0).1]
      exact h.allowed
  · intro i e he
    rcases hcases ((hocc i).symm.trans he) with ⟨rfl, rfl⟩ | ⟨hi, -, he'⟩ | ⟨-, -, he'⟩
    · exact h.byte_belongs hb hmax
    · have := h.room hmax he'
      have := hmoved hi he'
      show t.byte hash e.1 i ≤ 255
      omega
    · exact h.small he'
  · intro hm0 i e he
    obtain ⟨rfl, hnew, hraise⟩ := hm hm0
    rcases hcases ((hocc i).symm.trans he) with ⟨rfl, rfl⟩ | ⟨hi, hi', he'⟩ | ⟨-, -, he'⟩
    · exact hnew
    · have := hraise (i - 1) _ (by omega) (by omega) (h.info_occ he')
      have := hmoved hi he'
      show t.byte hash e.1 i + t.infoInc ≤ 255
      omega
    · exact h.room hmax he'
  · rw [← mem_insertAt hs]
    exact exists_congr fun i => by rw [hocc i]

end Inv
end CosmicArchitect.RobinHood.Table
