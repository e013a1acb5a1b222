import CosmicArchitect.RobinHood.Erase

/-!
# Emplacing

`insertKeyPrepareEmptySpot` finds the entry of a key or a slot for it. It grows the table until
there is room, at most 256 times; three times are enough as long as the entries are few.
-/

namespace CosmicArchitect.RobinHood.Table
open Library

variable {K V : Type} {hash : K → BitVec 64} {t t' : Table K V} {e : K × V} {idx : Nat}

/-- A table that took an entry at an index. -/
structure Put (hash : K → BitVec 64) (t t' : Table K V) (e : K × V) (idx : Nat) : Prop where
  absent : t.Absent e.1
  inv : t'.Inv hash
  num : t'.numElements = t.numElements + 1
  mem : ∀ a, t'.Mem a ↔ a = e ∨ t.Mem a
  grown : Grown t t'
  occ : t'.occ idx = some e

/-- What `insertKeyPrepareEmptySpot` says about the slot it returns, for the entry that the caller
puts there. -/
def Prepared (hash : K → BitVec 64) (t : Table K V) (e : K × V) (t' : Table K V) (idx : Nat) :
    InsertionState → Prop
  | .keyFound => Same hash t t' ∧ ∃ v, t'.occ idx = some (e.1, v)
  | .newNode => t'.keyVals[idx]? = some none ∧
      Put hash t { t' with keyVals := t'.keyVals.set idx (some e) } e idx
  | .overwriteNode => (∃ a, t'.keyVals[idx]? = some (some a)) ∧
      Put hash t { t' with keyVals := t'.keyVals.set idx (some e) } e idx
  | .overflowError => 127 ≤ t.numElements

theorem Put.of_same {t₁ : Table K V} (h : Same hash t t₁) (hput : Put hash t₁ t' e idx) :
    Put hash t t' e idx where
  absent := fun i a ha => by
    obtain ⟨j, hj⟩ := (h.mem a).mpr ⟨i, ha⟩
    exact hput.absent j a hj
  inv := hput.inv
  num := by rw [hput.num, h.num]
  mem := fun a => by rw [hput.mem, h.mem]
  grown := hput.grown.of_same h
  occ := hput.occ

theorem Prepared.of_same {t₁ : Table K V} (h : Same hash t t₁) :
    ∀ {state : InsertionState}, Prepared hash t₁ e t' idx state → Prepared hash t e t' idx state
  | .keyFound, ⟨hsame, hfound⟩ => ⟨h.trans hsame, hfound⟩
  | .newNode, ⟨hraw, hput⟩ => ⟨hraw, hput.of_same h⟩
  | .overwriteNode, ⟨hnode, hput⟩ => ⟨hnode, hput.of_same h⟩
  | .overflowError, hmany => by
    have hmany : 127 ≤ t₁.numElements := hmany
    rw [h.num] at hmany
    exact hmany

theorem Same.refl (h : t.Inv hash) : Same hash t t := ⟨h, rfl, fun _ => Iff.rfl, le_max_left _ _⟩

/-- `prepareAt` leaves a slot for the entry, raw or of an entry that moved away. -/
theorem prepareAt_spec (h : t.Inv hash) {key : K} {v : V} {p : Nat} (hb : h.Belongs key v p)
    (hnum : t.numElements < t.maxNumElementsAllowed) :
    ∃ t' state, t.prepareAt (t.byte hash key p) p = .ok (t', p, state) ∧
      Prepared hash t (key, v) t' p state := by
  have hmax : t.maxNumElementsAllowed ≠ 0 := by omega
  have hload : t.numElements < calcMaxNumElementsAllowed (t.mask + 1) := by
    rcases h.allowed with hzero | hmax' <;> omega
  generalize hm₀ : (if t.byte hash key p + t.infoInc > 255 then 0 else
    t.maxNumElementsAllowed) = m₀
  obtain ⟨q, kv, bytes, m, hfind, hshift, hbytes, hinv, hself, hmem, -⟩ :=
    h.place_spec hb hmax hload hm₀.symm
  have hsmall := h.byte_belongs hb hmax
  have hput : Put hash t { t with
      keyVals := kv.set p (some (key, v))
      info := bytes.set p (t.byte hash key p)
      numElements := t.numElements + 1
      maxNumElementsAllowed := m } (key, v) p :=
    ⟨hb.absent, hinv, rfl, hmem, le_max_left _ _, occ_eq_some.mpr hself⟩
  unfold prepareAt
  simp only [bind, Except.bind, Nat.mod_eq_of_lt (show t.byte hash key p < 256 by omega)]
  rw [flag_eq hm₀, hfind]
  dsimp only
  rcases hshift with ⟨rfl, rfl, rfl, rfl, hraw⟩ | ⟨hne, hshift, a, ha⟩
  · rw [if_neg (by omega), setInfo_of_lt (by exact hbytes)]
    refine ⟨{ t with
        info := t.info.set q (t.byte hash key q)
        numElements := t.numElements + 1
        maxNumElementsAllowed := m }, .newNode, ?_, hraw, hput⟩
    dsimp only
    rw [if_pos rfl]
  · rw [if_pos hne, hshift]
    dsimp only
    rw [setInfo_of_lt (by exact hbytes)]
    refine ⟨{ t with
        keyVals := kv
        info := bytes.set p (t.byte hash key p)
        numElements := t.numElements + 1
        maxNumElementsAllowed := m }, .overwriteNode, ?_, ⟨a, ha⟩, hput⟩
    dsimp only
    rw [if_neg hne]

section
variable [DecidableEq K]

theorem prepareEmptySpot_spec (key : K) (v : V) : ∀ (attempts : Nat) {t : Table K V}, t.Inv hash →
    (t.numElements < 127 → t.attemptsNeeded ≤ attempts) →
    127 ≤ t.numElements ∧ t.prepareEmptySpot hash key attempts = .error .overflow ∨
      ∃ t' idx state, t.prepareEmptySpot hash key attempts = .ok (t', idx, state) ∧
        Prepared hash t (key, v) t' idx state := by
  intro attempts
  induction attempts with
  | zero =>
    intro t h hneed
    refine Or.inr ⟨t, 0, .overflowError, rfl, ?_⟩
    show 127 ≤ t.numElements
    by_contra hfew
    have := hneed (Nat.not_le.mp hfew)
    unfold attemptsNeeded at this
    split at this
    · omega
    · split at this <;> omega
  | succ attempts ih =>
    intro t h hneed
    obtain ⟨idx, hless, hequal⟩ := h.nextWhileLess_spec key v
    rw [prepareEmptySpot, keyToIdx_eq]
    simp only [bind, Except.bind, hless]
    rcases hequal with ⟨s, v', hs, hequal⟩ | ⟨p, hb, hequal⟩
    · rw [hequal]
      exact Or.inr ⟨t, s, .keyFound, rfl, Same.refl h, v', hs⟩
    · rw [hequal]
      dsimp only
      split
      · next hfull =>
        rcases increaseSize_spec h hfull with ⟨hmany, hfail⟩ | ⟨t₁, ht₁, hsame, hfew⟩
        · rw [hfail]
          exact Or.inl ⟨hmany, rfl⟩
        · rw [ht₁]
          simp only [if_true]
          rcases ih hsame.inv (fun hlt => by
            rw [hsame.num] at hlt
            have := hfew hlt
            have := hneed hlt
            omega) with ⟨hmany, hfail⟩ | ⟨t', idx', state, hok, hprep⟩
          · exact Or.inl ⟨by rw [← hsame.num]; exact hmany, hfail⟩
          · exact Or.inr ⟨t', idx', state, hok, hprep.of_same hsame⟩
      · next hroom =>
        obtain ⟨t', state, hok, hprep⟩ := prepareAt_spec h hb (Nat.not_le.mp hroom)
        exact Or.inr ⟨t', p, state, hok, hprep⟩

/-- What a call that emplaces an entry returns: the entry found, treated by `found`, or the new
one. -/
theorem emplaceWith_spec (h : t.Inv hash) (key : K) (v : V)
    (found : Table K V → Nat → Except Failure (Table K V)) :
    127 ≤ t.numElements ∧ t.emplaceWith hash key v found = .error .overflow ∨
      (∃ t₁ idx, Same hash t t₁ ∧ (∃ v', t₁.occ idx = some (key, v')) ∧
        t.emplaceWith hash key v found = (found t₁ idx).map fun t' => (t', idx, false)) ∨
      ∃ t' idx, t.emplaceWith hash key v found = .ok (t', idx, true) ∧
        Put hash t t' (key, v) idx := by
  have hneed : t.attemptsNeeded ≤ 256 := by
    unfold attemptsNeeded
    split
    · omega
    · split <;> omega
  unfold emplaceWith insertKeyPrepareEmptySpot
  rcases prepareEmptySpot_spec key v 256 h (fun _ => hneed) with
    ⟨hmany, hfail⟩ | ⟨t', idx, state, hok, hprep⟩
  · rw [hfail]
    exact Or.inl ⟨hmany, rfl⟩
  · rw [hok]
    simp only [bind, Except.bind]
    cases state with
    | overflowError => exact Or.inl ⟨hprep, rfl⟩
    | keyFound =>
      obtain ⟨hsame, hfound⟩ := hprep
      exact Or.inr (Or.inl ⟨t', idx, hsame, hfound, rfl⟩)
    | newNode =>
      obtain ⟨hraw, hput⟩ := hprep
      refine Or.inr (Or.inr ⟨_, idx, ?_, hput⟩)
      dsimp only
      rw [construct_of_none hraw]
    | overwriteNode =>
      obtain ⟨⟨a, ha⟩, hput⟩ := hprep
      refine Or.inr (Or.inr ⟨_, idx, ?_, hput⟩)
      dsimp only
      rw [assign_of_some ha]

end

/-- Assigning to the value of an entry. -/
theorem assign_spec (h : t.Inv hash) {key : K} {v' : V} (he : t.occ idx = some (key, v')) (v : V) :
    ∃ t', t.assign idx (key, v) = .ok t' ∧ t'.Inv hash ∧ t'.mask = t.mask ∧
      t'.occ idx = some (key, v) ∧ ∀ a, t'.Mem a ↔ a = (key, v) ∨ a.1 ≠ key ∧ t.Mem a := by
  have hidx := lt_of_occ he
  have hself : (t.keyVals.set idx (some (key, v)))[idx]?.join = some (key, v) := by
    rw [List.getElem?_set_self hidx]
    rfl
  have hother : ∀ {i}, i ≠ idx → (t.keyVals.set idx (some (key, v)))[i]?.join = t.occ i :=
    fun {i} hi => by
      rw [List.getElem?_set_ne (Ne.symm hi)]
      rfl
  -- an entry afterwards has the key of the one in its slot before
  have hsame : ∀ {i a}, (t.keyVals.set idx (some (key, v)))[i]?.join = some a →
      ∃ b, t.occ i = some b ∧ b.1 = a.1 := by
    intro i a ha
    by_cases hi : i = idx
    · subst hi
      cases hself.symm.trans ha
      exact ⟨_, he, rfl⟩
    · rw [hother hi] at ha
      exact ⟨a, ha, rfl⟩
  have hsome : ∀ i, ((t.keyVals.set idx (some (key, v)))[i]?.join).isSome = (t.occ i).isSome := by
    intro i
    by_cases hi : i = idx
    · rw [hi, hself, he]
      rfl
    · rw [hother hi]
  refine ⟨{ t with keyVals := t.keyVals.set idx (some (key, v)) },
    assign_of_some (occ_eq_some.mp he) _, ?_, rfl, hself, fun a => ?_⟩
  · refine ⟨⟨h.inc.shift, h.inc.inc⟩, ?_, ?_, fun i => ?_, ?_, h.mask, ?_, h.load, h.allowed, ?_, ?_⟩
    · refine h.layout.replace (fun {i a} ha => ?_) fun i hi => ?_
      · obtain ⟨b, hb, hkey⟩ := hsame ha
        refine ⟨b, hb, ?_, ?_⟩
        · show t.home hash b.1 = t.home hash a.1
          rw [hkey]
        · show (t.infoInc : Int) * t.home hash b.1 - t.bits hash b.1 =
            t.infoInc * t.home hash a.1 - t.bits hash a.1
          rw [hkey]
      · exact (hsome i).trans hi
    · intro i j a b ha hb hab
      obtain ⟨a', ha', hkey⟩ := hsame ha
      obtain ⟨b', hb', hkey'⟩ := hsame hb
      exact h.distinct i j a' b' ha' hb' (by rw [hkey, hkey', hab])
    · have hb := h.bytes i
      show t.info[i]? = t.infoByte hash (t.keyVals.set idx (some (key, v))).length i
        (t.keyVals.set idx (some (key, v)))[i]?.join
      rw [List.length_set]
      by_cases hi : i = idx
      · subst hi
        rw [hself]
        exact h.info_occ (e := (key, v')) he
      · rw [hother hi]
        exact hb
    · show (t.keyVals.set idx (some (key, v))).length = _
      rw [List.length_set]
      exact h.capacity
    · show t.numElements = (occupied (fun i => (t.keyVals.set idx (some (key, v)))[i]?.join)
        (t.keyVals.set idx (some (key, v))).length).card
      rw [List.length_set, h.size]
      unfold occupied
      simp only [hsome]
    · intro i a ha
      obtain ⟨b, hb, hkey⟩ := hsame ha
      have := h.small hb
      rw [hkey] at this
      exact this
    · intro hm i a ha
      obtain ⟨b, hb, hkey⟩ := hsame ha
      have := h.room hm hb
      rw [hkey] at this
      exact this
  · constructor
    · rintro ⟨i, hi⟩
      by_cases hidx' : i = idx
      · subst hidx'
        exact Or.inl (Option.some.inj (hi.symm.trans hself))
      · have hi : t.occ i = some a := (hother hidx').symm.trans hi
        refine Or.inr ⟨fun hkey => hidx' ?_, i, hi⟩
        exact h.distinct i idx _ _ hi he hkey
    · rintro (rfl | ⟨hkey, i, hi⟩)
      · exact ⟨idx, hself⟩
      · refine ⟨i, (hother ?_).trans hi⟩
        rintro rfl
        cases hi.symm.trans he
        exact hkey rfl

end CosmicArchitect.RobinHood.Table
