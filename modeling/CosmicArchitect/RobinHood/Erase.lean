import CosmicArchitect.RobinHood.Grow

/-!
# Erasing

`shiftDown` pulls the entries behind a slot down, up to the first that is at home or the first empty
slot. No search has to skip over graves afterwards.
-/

namespace CosmicArchitect.RobinHood.Table
open Library

variable {K V : Type} {hash : K → BitVec 64} {t : Table K V} {key : K} {v : V} {s q : Nat}

theorem shiftDownLoop_spec : ∀ (fuel : Nat) {idx : Nat} {t : Table K V}, idx ≤ q →
    q < idx + fuel → q + 1 < t.info.length →
    (∀ i, idx ≤ i → i ≤ q → ∃ e, t.keyVals[i]? = some (some e)) →
    (∀ i, idx < i → i ≤ q → ∃ b, t.info[i]? = some b ∧ 2 * t.infoInc ≤ b ∧ b ≤ 255) →
    (∃ b, t.info[q + 1]? = some b ∧ b < 2 * t.infoInc) →
    ∃ kv bytes, shiftDownLoop fuel idx t = .ok { t with keyVals := kv, info := bytes } ∧
      kv.length = t.keyVals.length ∧
      (∀ i, kv[i]? = if idx ≤ i ∧ i < q then t.keyVals[i + 1]? else
        if i = q then some none else t.keyVals[i]?) ∧
      ∀ i, bytes[i]? = if idx ≤ i ∧ i < q then t.info[i + 1]?.map (· - t.infoInc) else
        if i = q then some 0 else t.info[i]? := by
  intro fuel
  induction fuel with
  | zero =>
    intro idx t hle hlt
    omega
  | succ fuel ih =>
    intro idx t hle hlt hlen hfull hdisplaced hstop
    rw [shiftDownLoop]
    obtain ⟨e, he⟩ := hfull idx le_rfl hle
    have hidx : idx < t.keyVals.length := (List.getElem?_eq_some_iff.mp he).1
    rcases Nat.eq_or_lt_of_le hle with rfl | hlt'
    · obtain ⟨b, hb, hb2⟩ := hstop
      have hat : t.infoAt (idx + 1) = .ok b := by simp only [infoAt, hb]
      have hdestruct : ({ t with info := t.info.set idx 0 } : Table K V).destruct idx =
          .ok { t with info := t.info.set idx 0, keyVals := t.keyVals.set idx none } := by
        simp only [destruct, he]
      rw [hat]
      simp only [bind, Except.bind]
      rw [if_neg (by omega), setInfo_of_lt (by omega)]
      dsimp only
      rw [hdestruct]
      refine ⟨_, _, rfl, List.length_set .., fun i => ?_, fun i => ?_⟩
      · by_cases hi : i = idx
        · rw [if_neg (by omega), if_pos hi, hi, List.getElem?_set_self hidx]
        · rw [if_neg (by omega), if_neg hi, List.getElem?_set_ne (by omega)]
      · by_cases hi : i = idx
        · rw [if_neg (by omega), if_pos hi, hi, List.getElem?_set_self (by omega)]
        · rw [if_neg (by omega), if_neg hi, List.getElem?_set_ne (by omega)]
    · obtain ⟨b, hb, hb2, hb3⟩ := hdisplaced (idx + 1) (by omega) (by omega)
      obtain ⟨e', he'⟩ := hfull (idx + 1) (by omega) (by omega)
      have hat : t.infoAt (idx + 1) = .ok b := by simp only [infoAt, hb]
      have hnode : ({ t with info := t.info.set idx (b - t.infoInc) } : Table K V).nodeAt (idx + 1) =
          .ok e' := by simp only [nodeAt, he']
      have hassign : ({ t with info := t.info.set idx (b - t.infoInc) } : Table K V).assign idx e' =
          .ok { t with info := t.info.set idx (b - t.infoInc)
                       keyVals := t.keyVals.set idx (some e') } := by
        simp only [assign, he]
      rw [hat]
      simp only [bind, Except.bind]
      rw [if_pos hb2, Nat.mod_eq_of_lt (by omega), setInfo_of_lt (by omega)]
      dsimp only
      rw [hnode]
      dsimp only
      rw [hassign]
      dsimp only
      obtain ⟨kv, bytes, hok, hkvlen, hkv, hbytes⟩ := ih
        (t := { t with info := t.info.set idx (b - t.infoInc)
                       keyVals := t.keyVals.set idx (some e') })
        (show idx + 1 ≤ q from hlt') (by omega) (by rw [List.length_set]; exact hlen)
        (fun i hi hiq => by
          rw [List.getElem?_set_ne (by omega)]
          exact hfull i (by omega) hiq)
        (fun i hi hiq => by
          rw [List.getElem?_set_ne (by omega)]
          exact hdisplaced i (by omega) hiq)
        (by
          rw [List.getElem?_set_ne (by omega)]
          exact hstop)
      refine ⟨kv, bytes, hok, by rw [hkvlen, List.length_set], fun i => ?_, fun i => ?_⟩
      · rw [hkv i]
        by_cases hin : idx + 1 ≤ i ∧ i < q
        · rw [if_pos hin, if_pos (by omega), List.getElem?_set_ne (by omega)]
        · rw [if_neg hin]
          by_cases hq : i = q
          · rw [if_pos hq, if_neg (by omega), if_pos hq]
          · rw [if_neg hq]
            by_cases hi : i = idx
            · rw [if_pos (by omega), hi, List.getElem?_set_self hidx, he']
            · rw [if_neg (by omega), if_neg hq, List.getElem?_set_ne (by omega)]
      · rw [hbytes i]
        by_cases hin : idx + 1 ≤ i ∧ i < q
        · rw [if_pos hin, if_pos (by omega), List.getElem?_set_ne (by omega)]
        · rw [if_neg hin]
          by_cases hq : i = q
          · rw [if_pos hq, if_neg (by omega), if_pos hq]
          · rw [if_neg hq]
            by_cases hi : i = idx
            · rw [if_pos (by omega), hi, List.getElem?_set_self (by omega), hb]
              rfl
            · rw [if_neg (by omega), if_neg hq, List.getElem?_set_ne (by omega)]

namespace Inv
variable (h : t.Inv hash)
include h

/-- `shiftDown` of a slot with an entry. -/
theorem shiftDown_spec {e : K × V} (he : t.occ s = some e) : ∃ q t', t.shiftDown s = .ok t' ∧
    (t.homes hash h.inc).Hole t.occ s q ∧ t'.occ = eraseAt t.occ s q ∧
    q < t.keyVals.length ∧ t'.keyVals.length = t.keyVals.length ∧ t'.mask = t.mask ∧
    t'.numElements = t.numElements ∧
    ({ t' with numElements := t.numElements - 1 } : Table K V).Inv hash := by
  have hs := lt_of_occ he
  have hlen := h.info_length
  obtain ⟨q, hsq, hq, hpass, hstop⟩ := exists_first_not
    (P := fun j => ∃ a, t.occ (j + 1) = some a ∧ t.home hash a.1 < j + 1)
    (show s ≤ t.keyVals.length - 1 by omega)
    (by rw [show t.keyVals.length - 1 + 1 = t.keyVals.length by omega, occ_length]; simp)
  have hhole : (t.homes hash h.inc).Hole t.occ s q := by
    refine ⟨hsq, fun i hi hiq => ?_, fun a ha => ?_⟩
    · obtain ⟨a, ha, hhome⟩ := hpass (i - 1) (by omega) (by omega)
      rw [show i - 1 + 1 = i by omega] at ha hhome
      exact ⟨a, ha, hhome⟩
    · have hle : t.home hash a.1 ≤ q + 1 := h.occ_home ha
      have hge : ¬ t.home hash a.1 < q + 1 := fun hlt => hstop ⟨a, ha, hlt⟩
      show t.home hash a.1 = q + 1
      omega
  have hfull : ∀ i, s ≤ i → i ≤ q → ∃ e, t.occ i = some e := by
    intro i hi hiq
    rcases Nat.eq_or_lt_of_le hi with rfl | hlt
    · exact ⟨e, he⟩
    · obtain ⟨a, ha, -⟩ := hhole.displaced i hlt hiq
      exact ⟨a, ha⟩
  have hinc := h.inc.two_le
  obtain ⟨kv, bytes, hok, hkvlen, hkv, hbytes⟩ := shiftDownLoop_spec t.fuel (t := t) hsq
    (h.fuel_gt (by omega)) (by omega)
    (fun i hi hiq => by
      obtain ⟨a, ha⟩ := hfull i hi hiq
      exact ⟨a, occ_eq_some.mp ha⟩)
    (fun i hi hiq => by
      obtain ⟨a, ha, hhome⟩ := hhole.displaced i hi hiq
      have hhome : t.home hash a.1 < i := hhome
      refine ⟨_, h.info_occ ha, ?_, h.small ha⟩
      unfold byte
      have : t.infoInc * 2 ≤ t.infoInc * (i - t.home hash a.1 + 1) :=
        Nat.mul_le_mul_left _ (by omega)
      omega)
    (by
      cases ha : t.occ (q + 1) with
      | some a =>
        have hhome : t.home hash a.1 = q + 1 := hhole.stop a ha
        refine ⟨_, h.info_occ ha, ?_⟩
        rw [← hhome]
        exact byte_home hash h.inc a.1
      | none =>
        have hb := h.bytes (q + 1)
        rw [ha, infoByte_none] at hb
        split at hb
        · exact ⟨1, hb, by omega⟩
        · rw [if_pos (by omega)] at hb
          exact ⟨0, hb, by omega⟩)
  have hocc : ∀ i, kv[i]?.join = eraseAt t.occ s q i := by
    intro i
    rcases eraseAt_cases t.occ s q i with
      ⟨hi, hi'⟩ | ⟨hi, hi', hi''⟩ | ⟨hi, hi', hi''⟩ | ⟨hi, hi', hi''⟩
    · rw [hi', hkv i, if_neg (by omega), if_neg (by omega)]
      rfl
    · rw [hi'', hkv i, if_pos ⟨hi, hi'⟩]
      rfl
    · rw [hi'', hkv i, if_neg (by omega), if_pos hi']
      rfl
    · rw [hi'', hkv i, if_neg (by omega), if_neg (by omega)]
      rfl
  -- what stands in a slot afterwards moved down, or stayed
  have hcases : ∀ {i a}, eraseAt t.occ s q i = some a →
      (s ≤ i ∧ i < q ∧ t.occ (i + 1) = some a ∧ t.home hash a.1 ≤ i) ∨
        (¬ (s ≤ i ∧ i < q) ∧ i ≠ q ∧ t.occ i = some a) := by
    intro i a ha
    rcases eraseAt_cases t.occ s q i with
      ⟨hi, hi'⟩ | ⟨hi, hi', hi''⟩ | ⟨hi, hi', hi''⟩ | ⟨hi, hi', hi''⟩
    · rw [hi'] at ha
      exact Or.inr ⟨by omega, by omega, ha⟩
    · rw [hi''] at ha
      obtain ⟨b, hb, hhome⟩ := hhole.displaced (i + 1) (by omega) (by omega)
      cases ha.symm.trans hb
      have hhome : t.home hash a.1 < i + 1 := hhome
      exact Or.inl ⟨hi, hi', ha, by omega⟩
    · rw [hi''] at ha
      cases ha
    · rw [hi''] at ha
      exact Or.inr ⟨by omega, by omega, ha⟩
  have hmoved : ∀ {i a}, t.home hash a.1 ≤ i → t.occ (i + 1) = some a →
      t.byte hash a.1 i + t.infoInc = t.byte hash a.1 (i + 1) := fun hi _ => (byte_succ hi).symm
  refine ⟨q, { t with keyVals := kv, info := bytes }, ?_, hhole, funext hocc, by omega, hkvlen, rfl,
    rfl, ?_⟩
  · unfold shiftDown
    rw [nodeAt_occ he]
    exact hok
  refine ⟨⟨h.inc.shift, h.inc.inc⟩, ?_, ?_, ?_, ?_, h.mask, ?_, ?_, h.allowed, ?_, ?_⟩
  · have hlayout := h.layout.erase hhole
    rw [← funext hocc] at hlayout
    exact hlayout
  · have hdistinct := DistinctKeys.erase (s := s) (q := q) h.distinct
    rw [← funext hocc] at hdistinct
    exact hdistinct
  · intro i
    show bytes[i]? = t.infoByte hash kv.length i kv[i]?.join
    rw [hocc i, hkvlen, hbytes i]
    cases ha : eraseAt t.occ s q i with
    | some a =>
      rcases hcases ha with ⟨hi, hi', ha', hhome⟩ | ⟨hi, hi', ha'⟩
      · have := hmoved hhome ha'
        rw [if_pos ⟨hi, hi'⟩, h.info_occ ha', Option.map_some, infoByte_some, ← this,
          Nat.add_sub_cancel]
      · rw [if_neg hi, if_neg hi', h.info_occ ha', infoByte_some]
    | none =>
      rw [infoByte_none]
      rcases eraseAt_cases t.occ s q i with
        ⟨hi, hi'⟩ | ⟨hi, hi', hi''⟩ | ⟨hi, hi', hi''⟩ | ⟨hi, hi', hi''⟩
      · rw [hi'] at ha
        have hb := h.bytes i
        rw [ha, infoByte_none] at hb
        rw [if_neg (by omega), if_neg (by omega)]
        exact hb
      · rw [hi''] at ha
        obtain ⟨b, hb, -⟩ := hhole.displaced (i + 1) (by omega) (by omega)
        cases ha.symm.trans hb
      · rw [if_neg (by omega), if_pos hi', if_neg (by omega), if_pos (by omega)]
      · rw [hi''] at ha
        have hb := h.bytes i
        rw [ha, infoByte_none] at hb
        rw [if_neg (by omega), if_neg (by omega)]
        exact hb
  · show kv.length = _
    rw [hkvlen]
    exact h.capacity
  · show t.numElements - 1 = (occupied (fun i => kv[i]?.join) kv.length).card
    rw [funext hocc, hkvlen, h.size, ← card_eraseAt (n := t.keyVals.length) hhole (by rw [he]; rfl)
      (by omega), Nat.add_sub_cancel]
  · exact (Nat.sub_le _ _).trans h.load
  · intro i a ha
    rcases hcases ((hocc i).symm.trans ha) with ⟨-, -, ha', hhome⟩ | ⟨-, -, ha'⟩
    · have := h.small ha'
      have := hmoved hhome ha'
      show t.byte hash a.1 i ≤ 255
      omega
    · exact h.small ha'
  · intro hm i a ha
    rcases hcases ((hocc i).symm.trans ha) with ⟨-, -, ha', hhome⟩ | ⟨-, -, ha'⟩
    · have := h.room hm ha'
      have := hmoved hhome ha'
      show t.byte hash a.1 i + t.infoInc ≤ 255
      omega
    · exact h.room hm ha'

end Inv

/-- A table without one entry of another. -/
structure Removed (hash : K → BitVec 64) (t t' : Table K V) (e : K × V) : Prop where
  inv : t'.Inv hash
  num : t'.numElements + 1 = t.numElements
  mask : t'.mask = t.mask
  mem : ∀ a, t'.Mem a ↔ a ≠ e ∧ t.Mem a

theorem num_pos (h : t.Inv hash) {e : K × V} (he : t.occ s = some e) : 0 < t.numElements := by
  rw [h.size, Finset.card_pos]
  exact ⟨s, mem_occupied.mpr ⟨lt_of_occ he, by rw [he]; rfl⟩⟩

theorem eraseAt_removed (h : t.Inv hash) {e : K × V} (he : t.occ s = some e) {t' : Table K V}
    (hole : (t.homes hash h.inc).Hole t.occ s q) (hocc : t'.occ = eraseAt t.occ s q)
    (hmask : t'.mask = t.mask)
    (hinv : ({ t' with numElements := t.numElements - 1 } : Table K V).Inv hash) :
    Removed hash t { t' with numElements := t.numElements - 1 } e where
  inv := hinv
  num := Nat.sub_add_cancel (num_pos h he)
  mask := hmask
  mem a := by
    show (∃ i, t'.occ i = some a) ↔ _
    rw [hocc, mem_eraseAt hole]
    constructor
    · rintro ⟨i, hi, ha⟩
      refine ⟨?_, i, ha⟩
      rintro rfl
      exact hi (h.distinct i s _ _ ha he rfl)
    · rintro ⟨hne, i, ha⟩
      refine ⟨i, ?_, ha⟩
      rintro rfl
      cases ha.symm.trans he
      exact hne rfl

/-- `erase(key)` removes the entry of the key if there is one. -/
theorem eraseKey_spec [DecidableEq K] (h : t.Inv hash) (key : K) :
    (t.Absent key ∧ t.eraseKey hash key = .ok (t, 0)) ∨
      ∃ v t', t.Mem (key, v) ∧ t.eraseKey hash key = .ok (t', 1) ∧ Removed hash t t' (key, v) := by
  obtain ⟨r, hr, hfound⟩ := h.eraseLoop_spec key t.fuel le_rfl (h.home_le key)
    (h.fuel_gt le_rfl) (fun s v hs => h.home_le_of_occ hs)
  unfold eraseKey
  rw [keyToIdx_eq]
  simp only [bind, Except.bind, hr]
  cases r with
  | none => exact Or.inl ⟨hfound, rfl⟩
  | some s =>
    obtain ⟨v, hv⟩ := hfound
    obtain ⟨q, t', ht', hole, hocc, -, -, hmask, hnum, hinv⟩ := h.shiftDown_spec hv
    refine Or.inr ⟨v, { t' with numElements := t.numElements - 1 }, ⟨s, hv⟩, ?_,
      eraseAt_removed h hv hole hocc hmask hinv⟩
    dsimp only
    rw [ht']
    dsimp only
    rw [hnum]

end CosmicArchitect.RobinHood.Table
