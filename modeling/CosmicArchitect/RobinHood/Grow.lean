import CosmicArchitect.RobinHood.Insert

/-!
# Growing

`try_increase_info` keeps the entries in their slots and halves their info bytes. `rehashPowerOfTwo` puts
them into a new array, perhaps under another hash; it is the one place that may throw.
-/

namespace CosmicArchitect.RobinHood.Table
open Library

variable {K V : Type} {hash : K → BitVec 64} {t : Table K V} {key : K} {v : V} {p : Nat}

/-- The entries of a table. -/
def Mem (t : Table K V) (e : K × V) : Prop := ∃ i, t.occ i = some e

theorem nextWhile_congr {t t' : Table K V} (hinfo : t'.info = t.info) (hinc : t'.infoInc = t.infoInc)
    (cond : Nat → Nat → Bool) :
    ∀ fuel info idx, t'.nextWhile cond fuel info idx = t.nextWhile cond fuel info idx := by
  intro fuel
  induction fuel with
  | zero => exact fun _ _ => rfl
  | succ fuel ih =>
    intro info idx
    simp only [nextWhile, infoAt, hinfo, hinc, ih]

/-- The smallest steps overflow only when there are many entries. -/
def Spare (t : Table K V) : Prop :=
  t.maxNumElementsAllowed = 0 → t.infoInc = 2 → 127 ≤ t.numElements

namespace Inv
variable (h : t.Inv hash)
include h

/-! ### One entry more -/

/-- From the insertion index to the table with the new entry, once a node stands there. -/
theorem place_spec (hb : h.Belongs key v p) (hmax : t.maxNumElementsAllowed ≠ 0)
    (hnum : t.numElements < calcMaxNumElementsAllowed (t.mask + 1)) {m₀ : Nat}
    (hm₀ : m₀ = if t.byte hash key p + t.infoInc > 255 then 0 else t.maxNumElementsAllowed) :
    ∃ q kv bytes m,
      ({ t with maxNumElementsAllowed := m₀ } : Table K V).findEmpty (t.byte hash key p) p =
        .ok (t.byte hash key q, q) ∧
      (q = p ∧ kv = t.keyVals ∧ bytes = t.info ∧ m = m₀ ∧ kv[p]? = some none ∨
        q ≠ p ∧ ({ t with maxNumElementsAllowed := m₀ } : Table K V).shiftUp q p =
          .ok { t with keyVals := kv, info := bytes, maxNumElementsAllowed := m } ∧
          ∃ e, kv[p]? = some (some e)) ∧
      p < bytes.length ∧
      Inv hash { t with
        keyVals := kv.set p (some (key, v))
        info := bytes.set p (t.byte hash key p)
        numElements := t.numElements + 1
        maxNumElementsAllowed := m } ∧
      (kv.set p (some (key, v)))[p]? = some (some (key, v)) ∧
      (∀ e, (∃ i : Nat, (kv.set p (some (key, v)))[i]?.join = some e) ↔
        e = (key, v) ∨ t.Mem e) ∧
      (m = 0 → t.infoInc = 2 → 127 ≤ t.numElements + 1) := by
  obtain ⟨q, hfind, hs, hq⟩ := h.findEmpty_spec hb hmax hnum
  have hpq := hs.le
  have hlen := h.info_length
  have hfull : ∀ i, p ≤ i → i < q → ∃ e, t.keyVals[i]? = some (some e) := fun i hi hiq => by
    obtain ⟨e, he⟩ := Option.isSome_iff_exists.mp (hs.full i hi hiq)
    exact ⟨e, occ_eq_some.mp he⟩
  have hempty : t.keyVals[q]? = some none := by
    have hnone := hs.empty
    unfold occ at hnone
    rw [List.getElem?_eq_getElem hq] at hnone ⊢
    rw [show t.keyVals[q] = none from hnone]
  have hfind' : ({ t with maxNumElementsAllowed := m₀ } : Table K V).findEmpty
      (t.byte hash key p) p = .ok (t.byte hash key q, q) := by
    rw [← hfind]
    unfold findEmpty
    refine nextWhile_congr ?_ ?_ _ _ _ _ <;> rfl
  have hm : m₀ ≠ 0 → m₀ = t.maxNumElementsAllowed ∧ t.byte hash key p + t.infoInc ≤ 255 := by
    rw [hm₀]
    split
    · exact fun hne => absurd rfl hne
    · next hle => exact fun _ => ⟨rfl, Nat.not_lt.mp hle⟩
  have hm' : m₀ = 0 → 255 < t.byte hash key p + t.infoInc := by
    rw [hm₀]
    split
    · next hlt => exact fun _ => hlt
    · exact fun hzero => absurd hzero hmax
  by_cases heq : q = p
  · subst heq
    obtain ⟨hinv, hself, hmem⟩ := h.inserted hb hs hq hmax hnum t.keyVals t.info
      (m := m₀) rfl (fun i => by rw [if_neg (by omega)]) (fun i => by rw [if_neg (by omega)])
      fun hne => ⟨(hm hne).1, (hm hne).2, fun i b hi hi' => by omega⟩
    refine ⟨q, t.keyVals, t.info, m₀, hfind', Or.inl ⟨rfl, rfl, rfl, rfl, hempty⟩, by omega, hinv,
      hself, hmem, fun hzero hinc => ?_⟩
    exact num_of_large hinv hinc (occ_eq_some.mpr hself) (hm' hzero)
  · have hlt : p < q := by omega
    obtain ⟨kv, bytes, m, hshift, hkvlen, hkv, hbytes, hraised⟩ :=
      shiftUp_spec (t := { t with maxNumElementsAllowed := m₀ }) hlt hempty hfull
        (fun i hi hiq => ⟨_, List.getElem?_eq_getElem (by show i < t.info.length; omega)⟩)
        fun i b hi hiq hb' => by
          obtain ⟨e, he⟩ := hfull i hi hiq
          have he := occ_eq_some.mpr he
          cases (h.info_occ he).symm.trans hb'
          exact h.room hmax he
    obtain ⟨hinv, hself, hmem⟩ := h.inserted hb hs hq hmax hnum kv bytes hkvlen hkv hbytes fun hne => by
      obtain ⟨rfl, hroom⟩ := hraised.resolve_right fun hc => hne hc.1
      exact ⟨(hm hne).1, (hm hne).2, hroom⟩
    refine ⟨q, kv, bytes, m, hfind', Or.inr ⟨heq, hshift, ?_⟩, ?_, hinv, hself, hmem,
      fun hzero hinc => ?_⟩
    · obtain ⟨e, he⟩ := hfull p le_rfl hlt
      refine ⟨e, ?_⟩
      rw [hkv p, if_neg (by omega)]
      exact he
    · have hget := hbytes p
      rw [if_neg (by omega)] at hget
      exact (List.getElem?_eq_some_iff.mp (hget.trans
        (List.getElem?_eq_getElem (l := t.info) (by omega)))).1
    · rcases hraised with ⟨hm₁, -⟩ | ⟨-, i, b, hi, hiq, hb', hlarge⟩
      · exact num_of_large hinv hinc (occ_eq_some.mpr hself) (hm' (by rw [← hzero]; exact hm₁.symm))
      · -- the entry whose byte was raised
        obtain ⟨e, he⟩ := hfull i hi hiq
        have hocc := occ_eq_some.mpr he
        cases (h.info_occ hocc).symm.trans hb'
        have hhome := h.occ_home hocc
        have hmoved : (kv.set p (some (key, v)))[i + 1]? = some (some e) := by
          rw [List.getElem?_set_ne (by omega), hkv, if_pos (by omega), Nat.add_sub_cancel, he]
        refine num_of_large hinv hinc (occ_eq_some.mpr hmoved) ?_
        show 255 < t.byte hash e.1 (i + 1) + t.infoInc
        rw [byte_succ hhome]
        have hlarge : 255 < t.byte hash e.1 i + 2 * t.infoInc := hlarge
        omega

/-! ### try_increase_info -/

theorem info_lt : ∀ b ∈ t.info, b < 256 := by
  intro b hb
  obtain ⟨i, hi⟩ := List.getElem?_of_mem hb
  have hbyte := h.bytes i
  rw [hi] at hbyte
  cases he : t.occ i with
  | some e =>
    rw [he, infoByte_some] at hbyte
    have := h.small he
    cases hbyte
    omega
  | none =>
    rw [he, infoByte_none] at hbyte
    split at hbyte
    · cases hbyte; omega
    · split at hbyte <;> cases hbyte
      omega

theorem tryIncreaseInfo_spec (hmask : t.mask ≠ 0) :
    t.infoInc = 2 ∧ t.tryIncreaseInfo = .ok (false, t) ∨
      2 < t.infoInc ∧ ∃ t', t.tryIncreaseInfo = .ok (true, t') ∧
      t'.Inv hash ∧ t'.keyVals = t.keyVals ∧ t'.mask = t.mask ∧ t'.numElements = t.numElements ∧
      t'.maxNumElementsAllowed = calcMaxNumElementsAllowed (t.mask + 1) := by
  unfold tryIncreaseInfo
  by_cases hinc : t.infoInc ≤ 2
  · rw [if_pos hinc]
    have := h.inc.two_le
    exact Or.inl ⟨by omega, rfl⟩
  · rw [if_neg hinc]
    have hcap := h.capacity
    rw [if_neg hmask] at hcap
    have hlen := h.info_length
    obtain ⟨r, hr, hrlen, hfront, hpad⟩ := halveInfo_spec (n := t.keyVals.length)
      t.info.length (i := 0) (by omega) hlen h.info_lt
    have hhalve : halveInfo (calcNumElementsWithBuffer (t.mask + 1)) t.fuel 0 t.info = .ok r := by
      rw [← hcap]
      exact hr
    simp only [bind, Except.bind, hhalve]
    refine Or.inr ⟨Nat.not_le.mp hinc, _, rfl, ?_, rfl, rfl, rfl, rfl⟩
    rw [← hcap]
    -- the increment is halved, so are the hash bits
    have hhalf : ∃ c, t.infoInc = 2 * c ∧ t.infoInc >>> 1 = c := by
      rw [Nat.shiftRight_eq_div_pow]
      rcases h.inc.cases with ⟨-, hi⟩ | ⟨-, hi⟩ | ⟨-, hi⟩ | ⟨-, hi⟩ | ⟨-, hi⟩ <;>
        exact ⟨t.infoInc / 2, by omega, by omega⟩
    obtain ⟨c, hc, hc'⟩ := hhalf
    generalize hT : ({ t with
      infoInc := t.infoInc >>> 1
      infoHashShift := t.infoHashShift + 1
      info := r.set t.keyVals.length 1
      maxNumElementsAllowed := calcMaxNumElementsAllowed (t.mask + 1) } : Table K V) = t'
    have hhome : ∀ k, t'.home hash k = t.home hash k := by
      subst hT
      exact fun k => rfl
    have hbits : ∀ k, t'.bits hash k = t.bits hash k / 2 := by
      subst hT
      exact fun k => rfl
    have hbyte : ∀ k i, t'.byte hash k i = t.byte hash k i / 2 := by
      intro k i
      unfold byte
      rw [hhome, hbits, show t'.infoInc = c by subst hT; exact hc', hc, Nat.mul_assoc]
      omega
    have hok : t'.IncOk := by
      have hshift : t'.infoHashShift = t.infoHashShift + 1 := by subst hT; rfl
      have hinc' : t'.infoInc = c := by subst hT; exact hc'
      rcases h.inc.cases with ⟨hs, hi⟩ | ⟨hs, hi⟩ | ⟨hs, hi⟩ | ⟨hs, hi⟩ | ⟨hs, hi⟩
      all_goals first
        | omega
        | exact ⟨by omega, by rw [hshift, hinc', hs]; show c = _; norm_num; omega⟩
    have hocc : t'.occ = t.occ := by subst hT; rfl
    have hcapacity : t'.keyVals = t.keyVals := by subst hT; rfl
    have hmask' : t'.mask = t.mask := by subst hT; rfl
    have hnum' : t'.numElements = t.numElements := by subst hT; rfl
    have hmax' : t'.maxNumElementsAllowed = calcMaxNumElementsAllowed (t.mask + 1) := by
      subst hT; rfl
    have hinfo' : t'.info = r.set t.keyVals.length 1 := by subst hT; rfl
    have hinc' : t'.infoInc = c := by subst hT; exact hc'
    clear hT
    refine ⟨hok, ?_, ?_, ?_, ?_, ?_, ?_, ?_, ?_, ?_, ?_⟩
    · rw [hocc]
      refine h.layout.coarsen (fun a => hhome a.1) fun a b hab => ?_
      have hrank : ∀ e : K × V, (t.homes hash h.inc).rank e =
          2 * (c * t.home hash e.1 : Int) - t.bits hash e.1 := fun e => by
        show (t.infoInc : Int) * t.home hash e.1 - t.bits hash e.1 = _
        rw [hc]
        push_cast
        ring
      have hrank' : ∀ e : K × V, (t'.homes hash hok).rank e =
          (c * t.home hash e.1 : Int) - (t.bits hash e.1 / 2 : Nat) := fun e => by
        show (t'.infoInc : Int) * t'.home hash e.1 - t'.bits hash e.1 = _
        rw [hinc', hhome, hbits]
      rw [hrank, hrank] at hab
      rw [hrank', hrank']
      generalize (c * t.home hash a.1 : Int) = A at hab ⊢
      generalize (c * t.home hash b.1 : Int) = B at hab ⊢
      omega
    · rw [hocc]; exact h.distinct
    · intro i
      rw [hocc, hinfo', hcapacity]
      have hbytes := h.bytes i
      cases he : t.occ i with
      | some e =>
        have hi := lt_of_occ he
        rw [List.getElem?_set_ne (by omega), hfront i hi, if_neg (by omega), h.info_occ he]
        rw [Option.map_some, infoByte_some, hbyte]
      | none =>
        rw [he, infoByte_none] at hbytes
        rw [infoByte_none, hmask']
        by_cases hend : i = t.keyVals.length
        · rw [if_pos ⟨hend, hmask⟩, hend, List.getElem?_set_self (by omega)]
        · rw [if_neg fun hc => hend hc.1] at hbytes ⊢
          rw [List.getElem?_set_ne (by omega)]
          split at hbytes
          · next hi =>
            rw [if_pos hi]
            by_cases hi' : i < t.keyVals.length
            · rw [hfront i hi', if_neg (by omega), hbytes]
              rfl
            · exact hpad i (by omega) hbytes
          · next hi => rw [if_neg hi, List.getElem?_eq_none (by omega)]
    · rw [hcapacity, hmask']; exact h.capacity
    · rw [hmask']; exact h.mask
    · rw [hnum', hocc, hcapacity]; exact h.size
    · rw [hnum', hmask']; exact h.load
    · rw [hmax', hmask']; exact Or.inr rfl
    · intro i e he
      rw [hocc] at he
      have := h.small he
      rw [hbyte]
      omega
    · intro _ i e he
      rw [hocc] at he
      have := h.small he
      have := hok.two_le
      rw [hbyte]
      omega

end Inv

/-! ### insert_move -/

/-- What is known of a table that took an entry. -/
structure Added (hash : K → BitVec 64) (t t' : Table K V) (e : K × V) : Prop where
  inv : t'.Inv hash
  mask : t'.mask = t.mask
  num : t'.numElements = t.numElements + 1
  mem : ∀ a, t'.Mem a ↔ a = e ∨ t.Mem a
  spare : t'.Spare

theorem setInfo_of_lt {i b : Nat} (hi : i < t.info.length) :
    t.setInfo i b = .ok { t with info := t.info.set i b } := by
  rw [setInfo, if_pos hi]

theorem construct_of_none {i : Nat} (hi : t.keyVals[i]? = some none) (node : K × V) :
    t.construct i node = .ok { t with keyVals := t.keyVals.set i (some node) } := by
  simp only [construct, hi]

theorem assign_of_some {i : Nat} {e : K × V} (hi : t.keyVals[i]? = some (some e)) (node : K × V) :
    t.assign i node = .ok { t with keyVals := t.keyVals.set i (some node) } := by
  simp only [assign, hi]

/-- The flag that the next info bytes may not fit. -/
theorem flag_eq {b m : Nat}
    (hm : (if b + t.infoInc > 255 then 0 else t.maxNumElementsAllowed) = m) :
    (if b + t.infoInc > 255 then { t with maxNumElementsAllowed := 0 } else t) =
      { t with maxNumElementsAllowed := m } := by
  subst hm
  split <;> rfl

theorem insertNew_spec (h : t.Inv hash) (habsent : t.Absent key)
    (hmax : t.maxNumElementsAllowed ≠ 0)
    (hnum : t.numElements < calcMaxNumElementsAllowed (t.mask + 1)) :
    ∃ t', t.insertNew hash (key, v) = .ok t' ∧ Added hash t t' (key, v) := by
  obtain ⟨p, hb, hskip⟩ := h.nextWhileLessEq_spec habsent v
  generalize hm₀ : (if t.byte hash key p + t.infoInc > 255 then 0 else
    t.maxNumElementsAllowed) = m₀
  obtain ⟨q, kv, bytes, m, hfind, hshift, hbytes, hinv, -, hmem, hspare⟩ :=
    h.place_spec hb hmax hnum hm₀.symm
  have hsmall := h.byte_belongs hb hmax
  refine ⟨_, ?_, hinv, rfl, rfl, hmem, hspare⟩
  unfold insertNew
  rw [keyToIdx_eq]
  simp only [bind, Except.bind, hskip,
    Nat.mod_eq_of_lt (show t.byte hash key p < 256 by omega)]
  rw [flag_eq hm₀, hfind]
  dsimp only
  unfold placeNode
  rcases hshift with ⟨rfl, rfl, rfl, rfl, hraw⟩ | ⟨hne, hshift, e, he⟩
  · rw [if_pos rfl, construct_of_none (t := { t with maxNumElementsAllowed := m }) hraw]
    dsimp only
    rw [setInfo_of_lt (by exact hbytes)]
  · rw [if_neg hne, hshift]
    simp only [bind, Except.bind]
    rw [assign_of_some (by exact he)]
    dsimp only
    rw [setInfo_of_lt (by exact hbytes)]

theorem calc_pos {n : Nat} (hn : 7 ≤ n) : 0 < calcMaxNumElementsAllowed (n + 1) := by
  unfold calcMaxNumElementsAllowed maxLoadFactor100
  split <;> omega

theorem calc_double {n : Nat} (hn : 8 ≤ n) :
    calcMaxNumElementsAllowed n < calcMaxNumElementsAllowed (n * 2) := by
  unfold calcMaxNumElementsAllowed maxLoadFactor100
  split <;> split <;> omega

/-- An array that is at least half as full as it may be. -/
theorem calc_half {n m : Nat} (h : calcMaxNumElementsAllowed n ≤ m * 2) : n * 2 ≤ 6 * m + 8 := by
  unfold calcMaxNumElementsAllowed maxLoadFactor100 at h
  split at h <;> omega

/-- `insert_move` of a key that is not there throws, or puts the entry. -/
theorem insertMove_spec (h : t.Inv hash) (habsent : t.Absent key)
    (hnum : t.numElements < calcMaxNumElementsAllowed (t.mask + 1)) (hspare : t.Spare) :
    127 ≤ t.numElements ∧ t.insertMove hash (key, v) = .error .overflow ∨
      ∃ t', t.insertMove hash (key, v) = .ok t' ∧ Added hash t t' (key, v) := by
  unfold insertMove
  by_cases hmax : t.maxNumElementsAllowed = 0
  · rw [if_pos hmax]
    have hmask : 7 ≤ t.mask := by
      refine h.mask.resolve_left fun hzero => ?_
      have hnone : calcMaxNumElementsAllowed (0 + 1) = 0 := by decide
      rw [hzero, hnone] at hnum
      omega
    rcases h.tryIncreaseInfo_spec (by omega) with
      ⟨hinc, hfail⟩ | ⟨-, t₁, hok, hinv, hkv, hmask₁, hnum₁, hmax₁⟩
    · rw [hfail]
      exact Or.inl ⟨hspare hmax hinc, rfl⟩
    · have hocc : t₁.occ = t.occ := by
        unfold occ
        rw [hkv]
      obtain ⟨t', ht', hadd⟩ := insertNew_spec (v := v) hinv
        (show t₁.Absent key from fun i e he => habsent i e (by rw [← hocc]; exact he))
        (by rw [hmax₁]; exact (calc_pos hmask).ne') (by rw [hnum₁, hmask₁]; exact hnum)
      refine Or.inr ⟨t', ?_, hadd.inv, hadd.mask.trans hmask₁, by rw [hadd.num, hnum₁],
        fun a => ?_, hadd.spare⟩
      · rw [hok]
        exact ht'
      · rw [hadd.mem a, Mem, Mem, hocc]
  · rw [if_neg hmax]
    exact Or.inr (insertNew_spec h habsent hmax hnum)

/-! ### rehashPowerOfTwo -/

theorem initData_occ (t : Table K V) (n i : Nat) : (t.initData n).occ i = none := by
  show (List.replicate _ none)[i]?.join = none
  rw [List.getElem?_replicate]
  split <;> rfl

/-- An array without entries. -/
theorem inv_of_none (hash : K → BitVec 64) (hnone : ∀ i, t.occ i = none) (hmask : 7 ≤ t.mask)
    (hcap : t.keyVals.length = calcNumElementsWithBuffer (t.mask + 1))
    (hinfo : t.info = (List.replicate (calcNumBytesInfo t.keyVals.length) 0).set t.keyVals.length 1)
    (hnum : t.numElements = 0) (hshift : t.infoHashShift = 0) (hinc : t.infoInc = initialInfoInc)
    (hmax : t.maxNumElementsAllowed = 0 ∨
      t.maxNumElementsAllowed = calcMaxNumElementsAllowed (t.mask + 1)) : t.Inv hash := by
  have hempty : ∀ {i e}, t.occ i ≠ some e := fun {i e} he => by
    rw [hnone] at he
    cases he
  have hne : t.mask ≠ 0 := by omega
  refine ⟨⟨by omega, by rw [hinc, hshift]; rfl⟩, ?_, ?_, fun i => ?_, ?_, Or.inr hmask, ?_, ?_, hmax,
    fun he => absurd he hempty, fun _ _ _ he => absurd he hempty⟩
  · exact ⟨fun he => absurd he hempty, fun he => absurd he hempty, fun _ he => absurd he hempty⟩
  · exact fun _ _ _ _ he => absurd he hempty
  · rw [hnone i, hinfo, infoByte_none]
    unfold calcNumBytesInfo
    by_cases hi : i = t.keyVals.length
    · rw [if_pos ⟨hi, hne⟩, hi, List.getElem?_set_self (by
        rw [List.length_replicate]; exact Nat.lt_add_of_pos_right (by omega))]
    · rw [if_neg fun hc => hi hc.1, List.getElem?_set_ne (Ne.symm hi), List.getElem?_replicate]
  · rw [if_neg hne, hcap]
  · rw [hnum, Eq.comm, Finset.card_eq_zero, Finset.eq_empty_iff_forall_notMem]
    intro i hi
    rw [mem_occupied, hnone] at hi
    cases hi.2
  · rw [hnum]
    exact Nat.zero_le _

theorem initData_inv (hash : K → BitVec 64) (t : Table K V) {n : Nat} (hn : 8 ≤ n) :
    (t.initData n).Inv hash := by
  have hmask : (t.initData n).mask + 1 = n := by
    show n - 1 + 1 = n
    omega
  have hlen : (t.initData n).keyVals.length = calcNumElementsWithBuffer n :=
    List.length_replicate ..
  refine inv_of_none hash (initData_occ t n) (by omega) (by rw [hlen, hmask]) ?_ rfl rfl rfl
    (Or.inr (by rw [hmask]; rfl))
  rw [hlen]
  rfl

/-- Slot `i` of the old array can be read: its info byte tells whether there is a node. -/
def Readable (old : Table K V) (i : Nat) : Prop :=
  match old.occ i with
  | some _ => ∃ b, old.infoAt i = .ok b ∧ b ≠ 0
  | none => old.infoAt i = .ok 0

theorem moveNodes_spec {old : Table K V} (hdistinct : DistinctKeys Prod.fst old.occ) :
    ∀ {is : List Nat} {t : Table K V}, t.Inv hash → t.Spare → is.Nodup →
      (∀ i ∈ is, old.Readable i) →
      (∀ i ∈ is, ∀ e, old.occ i = some e → t.Absent e.1) →
      t.numElements + is.countP (fun i => (old.occ i).isSome) ≤
        calcMaxNumElementsAllowed (t.mask + 1) →
      127 ≤ t.numElements + is.countP (fun i => (old.occ i).isSome) ∧
          moveNodes hash old is t = .error .overflow ∨
        ∃ t', moveNodes hash old is t = .ok t' ∧ t'.Inv hash ∧ t'.Spare ∧ t'.mask = t.mask ∧
          t'.numElements = t.numElements + is.countP (fun i => (old.occ i).isSome) ∧
          ∀ e, t'.Mem e ↔ t.Mem e ∨ ∃ i ∈ is, old.occ i = some e := by
  intro is
  induction is with
  | nil =>
    intro t h hspare _ _ _ _
    exact Or.inr ⟨t, rfl, h, hspare, rfl, rfl, by simp⟩
  | cons i is ih =>
    intro t h hspare hnodup hread habsent hcount
    have hnodup' := List.nodup_cons.mp hnodup
    have hri := hread i (List.mem_cons_self ..)
    unfold Readable at hri
    rw [moveNodes]
    cases ho : old.occ i with
    | none =>
      rw [ho] at hri
      have hzero : (is.countP fun i => (old.occ i).isSome) =
          (i :: is).countP fun i => (old.occ i).isSome := by simp [ho]
      simp only [bind, Except.bind, hri, ne_eq, not_true_eq_false, if_false]
      rcases ih h hspare hnodup'.2 (fun j hj => hread j (List.mem_cons_of_mem _ hj))
        (fun j hj => habsent j (List.mem_cons_of_mem _ hj)) (by rw [hzero]; exact hcount) with
        ⟨hmany, hfail⟩ | ⟨t', ht', hinv, hspare', hmask, hnum, hmem⟩
      · exact Or.inl ⟨by rw [← hzero]; exact hmany, hfail⟩
      · refine Or.inr ⟨t', ht', hinv, hspare', hmask, by rw [hnum, hzero], fun e => ?_⟩
        rw [hmem e]
        simp [ho]
    | some e =>
      rw [ho] at hri
      obtain ⟨b, hb, hb0⟩ := hri
      have hone : ((i :: is).countP fun i => (old.occ i).isSome) =
          (is.countP fun i => (old.occ i).isSome) + 1 := by simp [ho]
      simp only [bind, Except.bind, hb, ne_eq, hb0, not_false_eq_true, if_true, nodeAt_occ ho]
      rcases insertMove_spec (v := e.2) h (habsent i (List.mem_cons_self ..) e ho) (by omega)
        hspare with ⟨hmany, hfail⟩ | ⟨t₁, ht₁, hadd⟩
      · rw [hfail]
        exact Or.inl ⟨by omega, rfl⟩
      · rw [ht₁]
        have habsent₁ : ∀ j ∈ is, ∀ a, old.occ j = some a → t₁.Absent a.1 := by
          intro j hj a ha k c hc hkey
          rcases (hadd.mem c).mp ⟨k, hc⟩ with rfl | ⟨k', hk'⟩
          · have hij := hdistinct i j _ _ ho ha hkey
            exact hnodup'.1 (by rw [hij]; exact hj)
          · exact habsent j (List.mem_cons_of_mem _ hj) a ha k' c hk' hkey
        rcases ih hadd.inv hadd.spare hnodup'.2 (fun j hj => hread j (List.mem_cons_of_mem _ hj))
          habsent₁ (by rw [hadd.num, hadd.mask]; omega) with
          ⟨hmany, hfail⟩ | ⟨t', ht', hinv, hspare', hmask, hnum, hmem⟩
        · rw [hadd.num] at hmany
          exact Or.inl ⟨by omega, hfail⟩
        · refine Or.inr ⟨t', ht', hinv, hspare', hmask.trans hadd.mask, ?_, fun a => ?_⟩
          · rw [hnum, hadd.num, hone]
            omega
          · rw [hmem a, hadd.mem a]
            simp only [List.exists_mem_cons_iff, ho, Option.some.injEq]
            constructor
            · rintro ((rfl | hold) | hrest)
              · exact Or.inr (Or.inl rfl)
              · exact Or.inl hold
              · exact Or.inr (Or.inr hrest)
            · rintro (hold | rfl | hrest)
              · exact Or.inl (Or.inr hold)
              · exact Or.inl (Or.inl rfl)
              · exact Or.inr hrest

/-- The array grew no further than the entries require. -/
def Grown (t t' : Table K V) : Prop := t'.mask + 1 ≤ max (t.mask + 1) (6 * t.numElements + 8)

/-- A table with the same content. -/
structure Same (hash : K → BitVec 64) (t t' : Table K V) : Prop where
  inv : t'.Inv hash
  num : t'.numElements = t.numElements
  mem : ∀ e, t'.Mem e ↔ t.Mem e
  grown : Grown t t'

theorem Grown.of_same {t₁ t₂ : Table K V} (h : Same hash t t₁) (h' : Grown t₁ t₂) :
    Grown t t₂ := by
  have h₁ := h.grown
  unfold Grown at h₁ h' ⊢
  rw [h.num] at h'
  omega

theorem Same.trans {t₁ t₂ : Table K V} (h : Same hash t t₁) (h' : Same hash t₁ t₂) :
    Same hash t t₂ :=
  ⟨h'.inv, h'.num.trans h.num, fun e => (h'.mem e).trans (h.mem e), h'.grown.of_same h⟩

theorem rehashPowerOfTwo_spec (h : t.Inv hash) (hmask : t.mask ≠ 0) (old : Table K V)
    (hkv : old.keyVals = t.keyVals) (hinfo : old.info = t.info) (hold : old.mask = t.mask) {n : Nat}
    (hn : 8 ≤ n) (hnum : t.numElements ≤ calcMaxNumElementsAllowed n)
    (hgrow : n ≤ max (t.mask + 1) (6 * t.numElements + 8)) :
    127 ≤ t.numElements ∧ old.rehashPowerOfTwo hash n = .error .overflow ∨
      ∃ t', old.rehashPowerOfTwo hash n = .ok t' ∧ Same hash t t' ∧ t'.Spare ∧
        t'.mask + 1 = n := by
  have hocc : old.occ = t.occ := by
    unfold occ
    rw [hkv]
  have hat : ∀ i, old.infoAt i = t.infoAt i := fun i => by
    unfold infoAt
    rw [hinfo]
  have hcap := h.capacity
  rw [if_neg hmask] at hcap
  have hinit := initData_inv hash old hn
  have hnone := initData_occ old n
  have hmask' : (old.initData n).mask + 1 = n := by
    show n - 1 + 1 = n
    omega
  unfold rehashPowerOfTwo
  dsimp only
  rw [hold, ← hcap]
  have hbuffer : t.keyVals.length > 1 := by
    rw [hcap]
    unfold calcNumElementsWithBuffer
    omega
  rw [if_pos hbuffer]
  have hcount : ((List.range t.keyVals.length).countP fun i => (old.occ i).isSome) =
      t.numElements := by
    rw [hocc, ← card_occupied, ← h.size]
  have hdistinct : DistinctKeys Prod.fst old.occ := by
    rw [hocc]
    exact h.distinct
  have hread : ∀ i ∈ List.range t.keyVals.length, old.Readable i := by
    intro i hi
    unfold Readable
    rw [hocc, hat]
    have hi' := List.mem_range.mp hi
    cases he : t.occ i with
    | some e =>
      refine ⟨_, h.infoAt_occ he, ?_⟩
      have := inc_le_byte hash t e.1 i
      have := h.inc.two_le
      omega
    | none =>
      obtain ⟨b, hb, -, hzero⟩ := h.infoAt_none he (by omega)
      rw [hb, hzero (by omega)]
  have hzero : (old.initData n).numElements = 0 := rfl
  have hspare : (old.initData n).Spare := by
    intro _ hinc
    cases hinc
  rcases moveNodes_spec hdistinct hinit hspare List.nodup_range hread
    (fun i _ e _ j a ha => by rw [hnone] at ha; cases ha)
    (by rw [hcount, hmask', hzero]; omega) with
    ⟨hmany, hfail⟩ | ⟨t', ht', hinv, hspare', hmask'', hnum', hmem⟩
  · rw [hcount, hzero] at hmany
    exact Or.inl ⟨by omega, hfail⟩
  · have hsize : t'.mask + 1 = n := by rw [hmask'', hmask']
    refine Or.inr ⟨t', ht', ⟨hinv, ?_, fun e => ?_, by unfold Grown; omega⟩, hspare', hsize⟩
    · rw [hnum', hcount, hzero, Nat.zero_add]
    · rw [hmem e, hocc]
      constructor
      · rintro (⟨i, hi⟩ | ⟨i, -, hi⟩)
        · rw [hnone] at hi
          cases hi
        · exact ⟨i, hi⟩
      · rintro ⟨i, hi⟩
        exact Or.inr ⟨i, List.mem_range.mpr (lt_of_occ hi), hi⟩

/-- Only the hash changes. -/
theorem nextHashMultiplier_keeps (t : Table K V) : t.nextHashMultiplier.keyVals = t.keyVals ∧
    t.nextHashMultiplier.info = t.info ∧ t.nextHashMultiplier.mask = t.mask := by
  unfold nextHashMultiplier
  exact ⟨rfl, rfl, rfl⟩

/-- How many attempts find room for an entry. -/
def attemptsNeeded (t : Table K V) : Nat :=
  if t.numElements < t.maxNumElementsAllowed then 1
  else if 2 < t.infoInc ∧ t.numElements < calcMaxNumElementsAllowed (t.mask + 1) then 2
  else 3

theorem attemptsNeeded_of_lt (hlt : t.numElements < t.maxNumElementsAllowed) :
    t.attemptsNeeded = 1 := if_pos hlt

/-- A table that was just filled has room, or its steps are not the smallest yet. -/
theorem attemptsNeeded_of_spare (h : t.Inv hash) (hspare : t.Spare) (hfew : t.numElements < 127)
    (hnum : t.numElements < calcMaxNumElementsAllowed (t.mask + 1)) : t.attemptsNeeded ≤ 2 := by
  rcases h.allowed with hzero | hmax
  · have hinc := h.inc.two_le
    have hne : t.infoInc ≠ 2 := fun hinc => absurd (hspare hzero hinc) (Nat.not_le.mpr hfew)
    unfold attemptsNeeded
    split
    · omega
    · rw [if_pos ⟨by omega, hnum⟩]
  · rw [attemptsNeeded_of_lt (by omega)]
    omega

theorem resize_spec (h : t.Inv hash) (hmask : t.mask ≠ 0) :
    127 ≤ t.numElements ∧ t.resize hash = .error .overflow ∨
      ∃ t', t.resize hash = .ok (true, t') ∧ Same hash t t' ∧
        (t.numElements < 127 → t'.attemptsNeeded ≤ 2) := by
  have hseven := h.mask.resolve_left hmask
  unfold resize
  simp only [pure, Except.pure, bind, Except.bind]
  split
  · next hhalf =>
    obtain ⟨hkv, hinfo, hmask'⟩ := nextHashMultiplier_keeps t
    rcases rehashPowerOfTwo_spec h hmask t.nextHashMultiplier hkv hinfo hmask'
      (n := t.mask + 1) (by omega) h.load (le_max_left _ _) with ⟨hmany, hfail⟩ | ⟨t', ht', hsame, hspare, hn⟩
    · rw [hfail]
      exact Or.inl ⟨hmany, rfl⟩
    · rw [ht']
      refine Or.inr ⟨t', rfl, hsame, fun hfew => ?_⟩
      exact attemptsNeeded_of_spare hsame.inv hspare (by rw [hsame.num]; exact hfew)
        (by rw [hsame.num, hn]; omega)
  · next hhalf =>
    have hdouble := calc_double (show 8 ≤ t.mask + 1 by omega)
    have hload := h.load
    have hgrow := calc_half (Nat.not_lt.mp hhalf)
    rcases rehashPowerOfTwo_spec h hmask t rfl rfl rfl (n := (t.mask + 1) * 2)
      (by omega) (by omega) (by omega) with ⟨hmany, hfail⟩ | ⟨t', ht', hsame, hspare, hn⟩
    · rw [hfail]
      exact Or.inl ⟨hmany, rfl⟩
    · rw [ht']
      refine Or.inr ⟨t', rfl, hsame, fun hfew => ?_⟩
      exact attemptsNeeded_of_spare hsame.inv hspare (by rw [hsame.num]; exact hfew)
        (by rw [hsame.num, hn]; omega)

/-- `increase_size` keeps the content, or throws. -/
theorem increaseSize_spec (h : t.Inv hash) (hfull : t.maxNumElementsAllowed ≤ t.numElements) :
    127 ≤ t.numElements ∧ t.increaseSize hash = .error .overflow ∨
      ∃ t', t.increaseSize hash = .ok (true, t') ∧ Same hash t t' ∧
        (t.numElements < 127 → t'.attemptsNeeded < t.attemptsNeeded) := by
  have hneed : ¬ (2 < t.infoInc ∧ t.numElements < calcMaxNumElementsAllowed (t.mask + 1)) →
      t.attemptsNeeded = 3 := by
    intro hno
    unfold attemptsNeeded
    rw [if_neg (by omega), if_neg hno]
  unfold increaseSize
  by_cases hmask : t.mask = 0
  · rw [if_pos hmask]
    have hcap := h.capacity
    rw [if_pos hmask] at hcap
    have hnone : ∀ e, ¬ t.Mem e := by
      rintro e ⟨i, hi⟩
      have := lt_of_occ hi
      omega
    have hzero : calcMaxNumElementsAllowed (0 + 1) = 0 := by decide
    refine Or.inr ⟨_, rfl, ⟨initData_inv hash t (by decide), ?_, fun e => ?_, ?_⟩, fun _ => ?_⟩
    · rw [h.size, hcap]
      rfl
    · refine iff_of_false ?_ (hnone e)
      rintro ⟨i, hi⟩
      rw [initData_occ] at hi
      cases hi
    · show 8 - 1 + 1 ≤ max (t.mask + 1) (6 * t.numElements + 8)
      omega
    · rw [hneed (by rw [hmask, hzero]; omega), attemptsNeeded_of_lt]
      · omega
      · show 0 < calcMaxNumElementsAllowed initialNumElements
        decide
  · rw [if_neg hmask]
    split
    · next hlt =>
      rcases h.tryIncreaseInfo_spec hmask with
        ⟨hinc, hfail⟩ | ⟨hinc, t', ht', hinv, hkv, hmask', hnum, hmax⟩
      · rw [hfail]
        simp only [bind, Except.bind, Bool.false_eq_true, if_false]
        rcases resize_spec h hmask with hfail | ⟨t', ht', hsame, hfew⟩
        · exact Or.inl hfail
        · refine Or.inr ⟨t', ht', hsame, fun hlt => ?_⟩
          rw [hneed (by omega)]
          have := hfew hlt
          omega
      · rw [ht']
        refine Or.inr ⟨t', rfl, ⟨hinv, hnum, fun e => ?_, ?_⟩, fun _ => ?_⟩
        · unfold Mem occ
          rw [hkv]
        · unfold Grown
          omega
        · rw [attemptsNeeded_of_lt (t := t') (by omega)]
          unfold attemptsNeeded
          rw [if_neg (by omega), if_pos ⟨hinc, hlt⟩]
          omega
    · rcases resize_spec h hmask with hfail | ⟨t', ht', hsame, hfew⟩
      · exact Or.inl hfail
      · refine Or.inr ⟨t', ht', hsame, fun hlt => ?_⟩
        rw [hneed (by omega)]
        have := hfew hlt
        omega

end CosmicArchitect.RobinHood.Table
