import CosmicArchitect.Util.PolyFactory

/-!
# Archetype tables and entities

Which header has which type is one partial map. `Hosted` says that the archetype tables of a
factory are those of such a map, `Registered` that the entries are.
-/

namespace CosmicArchitect.Util.PolyFactory
open PolyType

variable {N : Nat} {PolyID V CB : Type} [DecidableEq PolyID] {C : Components PolyID V}
  {f f' : PolyFactory N PolyID V CB} {kinds : Nat → Option (TypeID N)} {t t' : TypeID N} {h a : Nat}
  {fresh : Fresh}

/-! ### The type of a new archetype -/

theorem includes_or (typeId types : TypeID N) : Includes (typeId ||| types) types := by
  unfold Includes
  refine BitVec.eq_of_getLsbD_eq fun i _ => ?_
  rw [BitVec.getLsbD_and, BitVec.getLsbD_or]
  cases types.getLsbD i <;> simp

theorem Includes.or (ht : Includes t t') (types : TypeID N) : Includes (t ||| types) t' := by
  unfold Includes at ht ⊢
  refine BitVec.eq_of_getLsbD_eq fun i _ => ?_
  have hi : (t &&& t').getLsbD i = t'.getLsbD i := by rw [ht]
  rw [BitVec.getLsbD_and] at hi
  rw [BitVec.getLsbD_and, BitVec.getLsbD_or]
  cases h' : t'.getLsbD i <;> simp_all

theorem headerID_getLsbD (i : Nat) : (headerID N).getLsbD i = (decide (i < N) && decide (i = 0)) := by
  simp only [headerID, createTypeID, headerIndex, List.foldl_cons, List.foldl_nil]
  rw [BitVec.getLsbD_or, BitVec.getLsbD_twoPow]
  by_cases hi : i = 0
  · simp [hi]
  · simp [hi, Ne.symm hi]

theorem initTypes_id (info : Nat → PolyTypeInfo V) (l : List Nat) : ∀ (archetype : Archetype N CB)
    (i : Nat), (l.foldl (fun archetype i =>
      if t.getLsbD i then addType info archetype i else archetype) archetype).id.getLsbD i =
        (archetype.id.getLsbD i || (decide (i ∈ l) && t.getLsbD i)) := by
  induction l with
  | nil =>
    intro archetype i
    simp
  | cons j l ih =>
    intro archetype i
    rw [List.foldl_cons, ih]
    by_cases hj : t.getLsbD j
    · have hlt : j < N := BitVec.lt_of_getLsbD hj
      rw [if_pos hj]
      simp only [addType, BitVec.getLsbD_or, BitVec.getLsbD_twoPow, hlt, decide_true, Bool.true_and]
      by_cases hij : j = i
      · subst hij
        simp [hj]
      · have hne : i ≠ j := fun hc => hij hc.symm
        simp [hij, hne]
    · rw [if_neg hj]
      by_cases hij : i = j
      · subst hij
        simp [hj]
      · simp [hij]

/-- The callbacks of a new archetype leave its layout as it is. -/
theorem callbacks_fold {β : Type} (g : Archetype N CB → β)
    (hg : ∀ archetype event callback, g (PolyType.addCallback archetype event callback) = g archetype)
    (callbacks : List (Sigma fun _ : TypeID N => List (PolyEvent × CB))) :
    ∀ archetype : Archetype N CB, g (callbacks.foldl (fun archetype e =>
      if Includes t e.1 then
        e.2.foldl (fun archetype entry => PolyType.addCallback archetype entry.1 entry.2) archetype
      else archetype) archetype) = g archetype := by
  have hrow : ∀ (l : List (PolyEvent × CB)) (archetype : Archetype N CB), g (l.foldl
      (fun archetype entry => PolyType.addCallback archetype entry.1 entry.2) archetype) =
        g archetype := by
    intro l
    induction l with
    | nil =>
      intro archetype
      rfl
    | cons entry l ih =>
      intro archetype
      rw [List.foldl_cons, ih, hg]
  induction callbacks with
  | nil =>
    intro archetype
    rfl
  | cons e callbacks ih =>
    intro archetype
    rw [List.foldl_cons, ih]
    split
    · exact hrow e.2 archetype
    · rfl

omit [DecidableEq PolyID] in
theorem initType_id (callbacks : AList (fun _ : TypeID N => List (PolyEvent × CB)))
    (ht : Includes t (headerID N)) : (initType C callbacks t).id = t := by
  unfold initType
  rw [callbacks_fold (fun archetype => archetype.id) fun _ _ _ => rfl]
  refine BitVec.eq_of_getLsbD_eq fun i hi => ?_
  rw [initTypes_id]
  have hheader : (t &&& headerID N).getLsbD i = (headerID N).getLsbD i := by rw [ht]
  rw [BitVec.getLsbD_and, headerID_getLsbD] at hheader
  have hmem : i ∈ typeIndexes N ↔ i ≠ 0 := by
    simp only [typeIndexes, List.mem_range'_1]
    omega
  have hnew : (newArchetype C.info : Archetype N CB).id.getLsbD i = decide (i = 0) := by
    simp only [newArchetype, addType, headerIndex, BitVec.getLsbD_or, BitVec.getLsbD_twoPow]
    simp [eq_comm]
    omega
  rw [hnew]
  simp only [hmem]
  by_cases h0 : i = 0
  · simp_all
  · simp [h0]

/-! ### The archetype tables -/

/-- The archetype entries list the headers with their type. -/
structure Listed (f : PolyFactory N PolyID V CB) (kinds : Nat → Option (TypeID N)) : Prop where
  archetype : ∀ {t a}, f.archetypes.lookup t = some a → ∃ entry, f.archetypeEntry a = some entry ∧
    entry.archetype.id = t ∧ entry.polys.Nodup ∧ entry.refcount = entry.polys.length ∧
    ∀ h, h ∈ entry.polys ↔ kinds h = some t
  header : ∀ {h t}, kinds h = some t → Includes t (headerID N) ∧ ∃ a header,
    f.archetypes.lookup t = some a ∧ f.header h = some header ∧ header.archetype = a

/-- Moreover no archetype is without polys. -/
structure Hosted (f : PolyFactory N PolyID V CB) (kinds : Nat → Option (TypeID N)) : Prop extends
    Listed f kinds where
  used : ∀ {t a}, f.archetypes.lookup t = some a → ∃ h, kinds h = some t

theorem Listed.free (hf : Listed f kinds) (hh : f.header h = none) : kinds h = none := by
  cases hk : kinds h with
  | none => rfl
  | some t =>
    obtain ⟨-, a, header, -, hheader, -⟩ := hf.header hk
    rw [hh] at hheader
    cases hheader

theorem Listed.node_inj (hf : Listed f kinds) (ht : f.archetypes.lookup t = some a)
    (ht' : f.archetypes.lookup t' = some a) : t = t' := by
  obtain ⟨entry, he, hid, -⟩ := hf.archetype ht
  obtain ⟨entry', he', hid', -⟩ := hf.archetype ht'
  cases he.symm.trans he'
  exact hid.symm.trans hid'

theorem Hosted.congr (hf : Hosted f kinds) (ha : f'.archetypes = f.archetypes)
    (he : ∀ {a entry}, f.archetypeEntry a = some entry → ∃ entry', f'.archetypeEntry a = some entry' ∧
      entry'.archetype.id = entry.archetype.id ∧ entry'.polys = entry.polys ∧
      entry'.refcount = entry.refcount)
    (hh : ∀ {h header}, f.header h = some header →
      ∃ header', f'.header h = some header' ∧ header'.archetype = header.archetype) :
    Hosted f' kinds where
  archetype := by
    intro t a ht
    rw [ha] at ht
    obtain ⟨entry, hentry, hid, hnodup, hcount, hmem⟩ := hf.archetype ht
    obtain ⟨entry', hentry', hid', hpolys, hcount'⟩ := he hentry
    exact ⟨entry', hentry', hid'.trans hid, by rw [hpolys]; exact hnodup,
      by rw [hpolys, hcount', hcount], by rw [hpolys]; exact hmem⟩
  header := by
    intro h t hk
    obtain ⟨hinc, a, header, ht, hheader, hha⟩ := hf.header hk
    obtain ⟨header', hheader', hha'⟩ := hh hheader
    exact ⟨hinc, a, header', by rw [ha]; exact ht, hheader', hha'.trans hha⟩
  used := by
    intro t a ht
    rw [ha] at ht
    exact hf.used ht

theorem emplaceArchetype_spec (hf : Listed f kinds) (ha : f.archetypeEntry a = none)
    (hinc : Includes t (headerID N)) (hnone : f.archetypes.lookup t = none → ∀ h, kinds h ≠ some t) :
    ∃ f₁ a₁, emplaceArchetype C a f t = (f₁, a₁) ∧ Listed f₁ kinds ∧
      f₁.archetypes.lookup t = some a₁ ∧ f₁.header = f.header ∧ f₁.entries = f.entries ∧
      ∀ {t' a'}, f₁.archetypes.lookup t' = some a' → t' ≠ t → f.archetypes.lookup t' = some a' := by
  unfold emplaceArchetype
  cases ht : f.archetypes.lookup t with
  | some a₁ => exact ⟨f, a₁, rfl, hf, ht, rfl, rfl, fun h _ => h⟩
  | none =>
    refine ⟨_, a, rfl, ⟨?_, ?_⟩, AList.lookup_insert _, rfl, rfl, ?_⟩
    · intro t' a' ht'
      by_cases htt : t' = t
      · subst htt
        rw [AList.lookup_insert] at ht'
        cases ht'
        refine ⟨_, Function.update_self .., initType_id f.callbacks hinc, List.nodup_nil, rfl, ?_⟩
        intro h
        exact ⟨fun hmem => (by cases hmem), fun hk => absurd hk (hnone ht h)⟩
      · rw [AList.lookup_insert_ne htt] at ht'
        obtain ⟨entry, hentry, hrest⟩ := hf.archetype ht'
        have hne : a' ≠ a := by
          intro hc
          rw [hc, ha] at hentry
          cases hentry
        exact ⟨entry, by simp only [Function.update_of_ne hne]; exact hentry, hrest⟩
    · intro h t' hk
      obtain ⟨hinc', a', header, ht', hrest⟩ := hf.header hk
      have hne : t' ≠ t := by
        intro hc
        rw [hc, ht] at ht'
        cases ht'
      exact ⟨hinc', a', header, by rw [AList.lookup_insert_ne hne]; exact ht', hrest⟩
    · intro t' a' ht' hne
      rw [AList.lookup_insert_ne hne] at ht'
      exact ht'

theorem allocatePoly_spec (hf : Hosted f kinds) (hfree : IsFree f fresh)
    (hinc : Includes t (headerID N)) :
    ∃ f₁ header, allocatePoly C fresh f t = some (f₁, fresh.header) ∧
      Hosted f₁ (Function.update kinds fresh.header (some t)) ∧
      f₁.header = Function.update f.header fresh.header (some header) ∧ f₁.entries = f.entries := by
  have hh : f.header fresh.header = none := Option.isNone_iff_eq_none.mp hfree.1
  have ha : f.archetypeEntry fresh.archetype = none := Option.isNone_iff_eq_none.mp hfree.2
  have hk := hf.toListed.free hh
  have hnone : f.archetypes.lookup t = none → ∀ h, kinds h ≠ some t := by
    intro ht h hc
    obtain ⟨-, a, -, ht', -⟩ := hf.header hc
    rw [ht] at ht'
    cases ht'
  obtain ⟨f₁, a, hemplace, hf₁, hlookup, hheader, hentries, hother⟩ :=
    emplaceArchetype_spec (C := C) hf.toListed ha hinc hnone
  obtain ⟨entry, hentry, hid, hnodup, hcount, hmem⟩ := hf₁.archetype hlookup
  refine ⟨{ f₁ with
      archetypeEntry := Function.update f₁.archetypeEntry a
        (some { entry with refcount := entry.refcount + 1, polys := entry.polys ++ [fresh.header] })
      header := Function.update f₁.header fresh.header (some { archetype := a }) },
    { archetype := a }, ?_, ?_, by simp only [hheader], hentries⟩
  · simp only [allocatePoly, hemplace, hentry, Option.map_some]
  have hnot : fresh.header ∉ entry.polys := by
    rw [hmem, hk]
    exact fun hc => by cases hc
  refine ⟨⟨?_, ?_⟩, ?_⟩
  · intro t' a' ht'
    by_cases haa : a' = a
    · have htt : t' = t := hf₁.node_inj ht' (haa ▸ hlookup)
      refine ⟨{ entry with refcount := entry.refcount + 1, polys := entry.polys ++ [fresh.header] },
        by simp only [haa, Function.update_self], hid.trans htt.symm, ?_, ?_, ?_⟩
      · exact List.Nodup.append hnodup (List.nodup_singleton _) (List.disjoint_singleton.mpr hnot)
      · simp [hcount]
      · intro h
        simp only [List.mem_append, List.mem_singleton, hmem, Function.update_apply, htt]
        by_cases hhh : h = fresh.header
        · simp [hhh]
        · simp [hhh]
    · have htt : t' ≠ t := by
        intro hc
        rw [hc, hlookup] at ht'
        exact haa (Option.some.inj ht').symm
      obtain ⟨entry', hentry', hid', hnodup', hcount', hmem'⟩ := hf₁.archetype ht'
      refine ⟨entry', by simp only [Function.update_of_ne haa]; exact hentry', hid', hnodup',
        hcount', fun h => ?_⟩
      rw [hmem', Function.update_apply]
      by_cases hhh : h = fresh.header
      · rw [if_pos hhh, hhh, hk]
        exact ⟨fun hc => (by cases hc), fun hc => absurd (Option.some.inj hc).symm htt⟩
      · rw [if_neg hhh]
  · intro h t' hkh
    by_cases hhh : h = fresh.header
    · subst hhh
      rw [Function.update_self] at hkh
      cases hkh
      exact ⟨hinc, a, _, hlookup, Function.update_self .., rfl⟩
    · rw [Function.update_of_ne hhh] at hkh
      obtain ⟨hinc', a', header, ht', hheader', hha⟩ := hf₁.header hkh
      exact ⟨hinc', a', header, ht', by simp only [Function.update_of_ne hhh]; exact hheader', hha⟩
  · intro t' a' ht'
    by_cases htt : t' = t
    · exact ⟨fresh.header, by rw [Function.update_self, htt]⟩
    · obtain ⟨h, hkh⟩ := hf.used (hother ht' htt)
      have hhh : h ≠ fresh.header := by
        intro hc
        rw [hc, hk] at hkh
        cases hkh
      exact ⟨h, by rw [Function.update_of_ne hhh]; exact hkh⟩

theorem kinds_freed {x : Nat} (hx : Function.update kinds h none x = some t') :
    x ≠ h ∧ kinds x = some t' := by
  by_cases hxh : x = h
  · rw [hxh, Function.update_self] at hx
    cases hx
  · rw [Function.update_of_ne hxh] at hx
    exact ⟨hxh, hx⟩

/-- The archetypes of other types keep their polys, whether or not the one of `t` is erased. -/
theorem Hosted.others_freed (hf : Hosted f kinds) (hk : kinds h = some t)
    (hlookup : f.archetypes.lookup t = some a) (htt : t' ≠ t)
    (ht' : f.archetypes.lookup t' = some a') :
    a' ≠ a ∧
      (∃ entry', f.archetypeEntry a' = some entry' ∧ entry'.archetype.id = t' ∧
        entry'.polys.Nodup ∧ entry'.refcount = entry'.polys.length ∧
        ∀ x, x ∈ entry'.polys ↔ Function.update kinds h none x = some t') ∧
      ∃ x, Function.update kinds h none x = some t' := by
  obtain ⟨entry', hentry', hid', hnodup', hcount', hmem'⟩ := hf.archetype ht'
  refine ⟨fun hc => htt (hf.node_inj ht' (hc ▸ hlookup)), ⟨entry', hentry', hid', hnodup', hcount',
    fun x => ?_⟩, ?_⟩
  · rw [hmem', Function.update_apply]
    by_cases hx : x = h
    · rw [if_pos hx, hx, hk]
      exact ⟨fun hc => absurd (Option.some.inj hc).symm htt, fun hc => by cases hc⟩
    · rw [if_neg hx]
  · obtain ⟨x, hx⟩ := hf.used ht'
    have hxh : x ≠ h := by
      intro hc
      rw [hc, hk] at hx
      exact htt (Option.some.inj hx).symm
    exact ⟨x, by rw [Function.update_of_ne hxh]; exact hx⟩

/-- A freed poly leaves its archetype, which is erased with its last poly. -/
theorem deallocatePoly_spec (hf : Hosted f kinds) (hk : kinds h = some t) :
    ∃ f₁, deallocatePoly f t h = some f₁ ∧ Hosted f₁ (Function.update kinds h none) ∧
      f₁.header = Function.update f.header h none ∧ f₁.entries = f.entries := by
  obtain ⟨-, a, header, hlookup, hheader, hha⟩ := hf.header hk
  obtain ⟨entry, hentry, hid, hnodup, hcount, hmem⟩ := hf.archetype hlookup
  have hin : h ∈ entry.polys := (hmem h).mpr hk
  have hlen : (entry.polys.filter (· ≠ h)).length = entry.refcount - 1 := by
    have herase : entry.polys.filter (· ≠ h) = entry.polys.erase h := by
      rw [hnodup.erase_eq_filter]
      exact List.filter_congr fun x _ => by by_cases hx : x = h <;> simp [hx]
    rw [herase, List.length_erase_of_mem hin, hcount]
  have hmem' : ∀ x, x ∈ entry.polys.filter (· ≠ h) ↔ Function.update kinds h none x = some t := by
    intro x
    rw [List.mem_filter, hmem, Function.update_apply]
    by_cases hx : x = h
    · simp [hx]
    · simp [hx]
  simp only [deallocatePoly, hlookup, Option.bind_some, hentry, Option.map_some]
  by_cases hzero : entry.refcount - 1 = 0
  · -- the last poly
    have hempty : ∀ {x t'}, Function.update kinds h none x = some t' → t' ≠ t := by
      intro x t' hx hc
      have hnil := List.length_eq_zero_iff.mp (hlen.trans hzero)
      rw [hc, ← hmem', hnil] at hx
      cases hx
    refine ⟨_, rfl, ?_, by rw [if_pos hzero], by rw [if_pos hzero]⟩
    rw [if_pos hzero]
    refine ⟨⟨?_, ?_⟩, ?_⟩
    · intro t' a' ht'
      have htt : t' ≠ t := by
        intro hc
        rw [hc, AList.lookup_erase] at ht'
        cases ht'
      rw [AList.lookup_erase_ne htt] at ht'
      obtain ⟨hne, ⟨entry', hentry', hrest⟩, -⟩ := hf.others_freed hk hlookup htt ht'
      exact ⟨entry', by simp only [Function.update_of_ne hne]; exact hentry', hrest⟩
    · intro x t' hx
      obtain ⟨hxh, hkx⟩ := kinds_freed hx
      obtain ⟨hinc, a', header', ht', hheader', hha'⟩ := hf.header hkx
      exact ⟨hinc, a', header', by rw [AList.lookup_erase_ne (hempty hx)]; exact ht',
        by simp only [Function.update_of_ne hxh]; exact hheader', hha'⟩
    · intro t' a' ht'
      have htt : t' ≠ t := by
        intro hc
        rw [hc, AList.lookup_erase] at ht'
        cases ht'
      rw [AList.lookup_erase_ne htt] at ht'
      exact (hf.others_freed hk hlookup htt ht').2.2
  · refine ⟨_, rfl, ?_, by rw [if_neg hzero], by rw [if_neg hzero]⟩
    rw [if_neg hzero]
    refine ⟨⟨?_, ?_⟩, ?_⟩
    · intro t' a' ht'
      by_cases htt : t' = t
      · rw [htt, hlookup] at ht'
        cases ht'
        refine ⟨_, Function.update_self .., hid.trans htt.symm, hnodup.filter _, hlen.symm, ?_⟩
        rw [htt]
        exact hmem'
      · obtain ⟨hne, ⟨entry', hentry', hrest⟩, -⟩ := hf.others_freed hk hlookup htt ht'
        exact ⟨entry', by simp only [Function.update_of_ne hne]; exact hentry', hrest⟩
    · intro x t' hx
      obtain ⟨hxh, hkx⟩ := kinds_freed hx
      obtain ⟨hinc, a', header', ht', hheader', hha'⟩ := hf.header hkx
      exact ⟨hinc, a', header', ht', by simp only [Function.update_of_ne hxh]; exact hheader', hha'⟩
    · intro t' a' ht'
      by_cases htt : t' = t
      · obtain ⟨x, hx⟩ := List.exists_mem_of_length_pos (by omega : 0 < (entry.polys.filter (· ≠ h)).length)
        exact ⟨x, by rw [htt]; exact (hmem' x).mp hx⟩
      · exact (hf.others_freed hk hlookup htt ht').2.2

/-! ### The entries -/

/-- What an entry says about the tables. -/
def PolyEntry.table (e : PolyEntry N) : TypeID N × Nat × Nat := (e.typeId, e.archetype, e.header)

/-- Only reference counts differ. -/
structure SameTables (f f' : PolyFactory N PolyID V CB) : Prop where
  archetypes : f'.archetypes = f.archetypes
  archetypeEntry : f'.archetypeEntry = f.archetypeEntry
  header : f'.header = f.header
  entries : ∀ id, (f'.entries.lookup id).map PolyEntry.table =
    (f.entries.lookup id).map PolyEntry.table

theorem SameTables.trans {f'' : PolyFactory N PolyID V CB} (h : SameTables f f')
    (h' : SameTables f' f'') : SameTables f f'' :=
  ⟨h'.archetypes.trans h.archetypes, h'.archetypeEntry.trans h.archetypeEntry,
    h'.header.trans h.header, fun id => (h'.entries id).trans (h.entries id)⟩

theorem count_sameTables (change : Nat → Nat) (f : PolyFactory N PolyID V CB) (id : PolyID) :
    SameTables f (count change f id) := by
  unfold count
  cases hid : f.entries.lookup id with
  | none => exact ⟨rfl, rfl, rfl, fun _ => rfl⟩
  | some entry =>
    refine ⟨rfl, rfl, rfl, fun id' => ?_⟩
    by_cases hne : id' = id
    · subst hne
      rw [AList.lookup_insert, hid]
      rfl
    · rw [AList.lookup_insert_ne hne]

theorem destruct_sameTables (f : PolyFactory N PolyID V CB) (values : List V) :
    SameTables f (destruct C f values) := by
  unfold destruct
  induction values.flatMap C.refs generalizing f with
  | nil => exact ⟨rfl, rfl, rfl, fun _ => rfl⟩
  | cons id ids ih => exact (count_sameTables (· - 1) f id).trans (ih _)

theorem SameTables.hosted (h : SameTables f f') (hf : Hosted f kinds) : Hosted f' kinds :=
  hf.congr h.archetypes
    (fun he => ⟨_, by rw [h.archetypeEntry]; exact he, rfl, rfl, rfl⟩)
    (fun hh => ⟨_, by rw [h.header]; exact hh, rfl⟩)

/-- The entries are the owners of the headers. -/
structure Registered (f : PolyFactory N PolyID V CB) (kinds : Nat → Option (TypeID N)) : Prop where
  entry : ∀ {id e}, f.entries.lookup id = some e → kinds e.header = some e.typeId ∧
    ∃ header, f.header e.header = some header ∧ header.archetype = e.archetype
  owner : ∀ {h t}, kinds h = some t → ∃ id e, f.entries.lookup id = some e ∧ e.header = h
  inj : ∀ {id id' e e'}, f.entries.lookup id = some e → f.entries.lookup id' = some e' →
    e.header = e'.header → id = id'

/-- The tables of a factory and its entries agree. -/
def Tables (f : PolyFactory N PolyID V CB) : Prop := ∃ kinds, Hosted f kinds ∧ Registered f kinds

theorem tables_empty : Tables ({} : PolyFactory N PolyID V CB) := by
  refine ⟨fun _ => none, ⟨⟨?_, ?_⟩, ?_⟩, ⟨?_, ?_, ?_⟩⟩
  · intro t a h
    cases h
  · intro h t hk
    cases hk
  · intro t a h
    cases h
  · intro id e h
    cases h
  · intro h t hk
    cases hk
  · intro id id' e e' h
    cases h

theorem SameTables.lookup (h : SameTables f f') {id : PolyID} {e : PolyEntry N}
    (he : f'.entries.lookup id = some e) :
    ∃ e₀, f.entries.lookup id = some e₀ ∧ e.typeId = e₀.typeId ∧ e.archetype = e₀.archetype ∧
      e.header = e₀.header := by
  have hid := h.entries id
  rw [he, Option.map_some] at hid
  obtain ⟨e₀, he₀, htable⟩ := Option.map_eq_some_iff.mp hid.symm
  simp only [PolyEntry.table, Prod.mk.injEq] at htable
  exact ⟨e₀, he₀, htable.1.symm, htable.2.1.symm, htable.2.2.symm⟩

theorem SameTables.symm (h : SameTables f f') : SameTables f' f :=
  ⟨h.archetypes.symm, h.archetypeEntry.symm, h.header.symm, fun id => (h.entries id).symm⟩

theorem SameTables.registered (h : SameTables f f') (hf : Registered f kinds) :
    Registered f' kinds where
  entry := by
    intro id e he
    obtain ⟨e₀, he₀, ht, ha, hh⟩ := h.lookup he
    rw [ht, ha, hh, h.header]
    exact hf.entry he₀
  owner := by
    intro x t hk
    obtain ⟨id, e₀, he₀, hh⟩ := hf.owner hk
    obtain ⟨e, he, -, -, hh'⟩ := h.symm.lookup he₀
    exact ⟨id, e, he, hh'.symm.trans hh⟩
  inj := by
    intro id id' e e' he he' hee
    obtain ⟨e₀, he₀, -, -, hh⟩ := h.lookup he
    obtain ⟨e₀', he₀', -, -, hh'⟩ := h.lookup he'
    exact hf.inj he₀ he₀' (hh.symm.trans (hee.trans hh'))

theorem SameTables.tables (h : SameTables f f') (hf : Tables f) : Tables f' := by
  obtain ⟨kinds, hhost, hreg⟩ := hf
  exact ⟨kinds, h.hosted hhost, h.registered hreg⟩

end CosmicArchitect.Util.PolyFactory
