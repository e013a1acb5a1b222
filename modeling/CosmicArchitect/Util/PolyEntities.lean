import CosmicArchitect.Util.PolyTables

/-!
# Calls of a factory keep its tables

`GetPoly`, `SetTypes`, `AddTypes` and `Cleanup` find every pointer they follow and leave tables
and entries in agreement.
-/

namespace CosmicArchitect.Util.PolyFactory
open PolyType

variable {N : Nat} {PolyID V CB : Type} [DecidableEq PolyID] {C : Components PolyID V}
  {f f' : PolyFactory N PolyID V CB} {kinds : Nat → Option (TypeID N)} {t t' : TypeID N} {h : Nat}
  {fresh : Fresh} {id : PolyID} {entry : PolyEntry N}

theorem Hosted.setHeader (hf : Hosted f kinds) {x : Nat} {header : Header V} (header' : Header V)
    (hx : f.header x = some header) (ha : header'.archetype = header.archetype) :
    Hosted { f with header := Function.update f.header x (some header') } kinds := by
  refine hf.congr rfl (fun he => ⟨_, he, rfl, rfl, rfl⟩) ?_
  intro y hd hy
  by_cases hyx : y = x
  · rw [hyx, hx] at hy
    cases hy
    exact ⟨header', by simp only [hyx, Function.update_self], ha⟩
  · exact ⟨hd, by simp only [Function.update_of_ne hyx]; exact hy, rfl⟩

theorem Hosted.find (hf : Hosted f kinds) (hk : kinds h = some t) :
    ∃ header entry, f.header h = some header ∧ f.archetypeEntry header.archetype = some entry := by
  obtain ⟨-, a, header, hlookup, hheader, rfl⟩ := hf.header hk
  obtain ⟨entry, hentry, -⟩ := hf.archetype hlookup
  exact ⟨header, entry, hheader, hentry⟩

/-- A poly moves to the archetype of another type. -/
theorem updatePolyType_spec (hf : Hosted f kinds) (hfree : IsFree f fresh) (hk : kinds h = some t)
    (hinc : Includes t' (headerID N)) :
    ∃ f' newPoly kinds', updatePolyType C fresh f h t t' = some (f', newPoly) ∧
      Hosted f' kinds' ∧ kinds' newPoly = some t' ∧
      (∀ x, x ≠ h → x ≠ newPoly → kinds' x = kinds x ∧ f'.header x = f.header x) ∧
      (newPoly ≠ h → kinds' h = none ∧ kinds newPoly = none) ∧
      ∀ id, (f'.entries.lookup id).map PolyEntry.table = (f.entries.lookup id).map PolyEntry.table := by
  by_cases htt : t' = t
  · refine ⟨f, h, kinds, by rw [updatePolyType, updatePolyTypeWith, if_pos htt], hf, htt ▸ hk, fun _ _ _ => ⟨rfl, rfl⟩,
      fun hne => absurd rfl hne, fun _ => rfl⟩
  · obtain ⟨f₁, header, halloc, hf₁, hheader₁, hentries₁⟩ := allocatePoly_spec (C := C) hf hfree hinc
    have hkfresh := hf.toListed.free (Option.isNone_iff_eq_none.mp hfree.1)
    have hne : h ≠ fresh.header := by
      intro hc
      rw [hc, hkfresh] at hk
      cases hk
    have hk₁ : Function.update kinds fresh.header (some t') h = some t := by
      rw [Function.update_of_ne hne]
      exact hk
    -- the pointers that the loop over the components follows
    obtain ⟨oldHeader, oldEntry, hold, holdEntry⟩ := hf₁.find hk₁
    obtain ⟨newHeader, newEntry, hnew, hnewEntry⟩ := hf₁.find (Function.update_self fresh.header _ _)
    simp only [updatePolyType, updatePolyTypeWith, if_neg htt, halloc, Option.bind_eq_bind,
      Option.bind_some, hold, hnew, holdEntry, hnewEntry]
    generalize hcomponents : (fun i => if i ∈ typeIndexes N ∧ newEntry.archetype.HasOffset i then
      (if oldEntry.archetype.HasOffset i then oldHeader.components i else some (C.info i).construct)
      else none) = components
    generalize (typeIndexes N).filterMap _ = dropped
    have hf₂ := hf₁.setHeader { newHeader with components := components } hnew rfl
    obtain ⟨f₂, hf₂e⟩ : ∃ f₂, f₂ = { f₁ with
      header := Function.update f₁.header fresh.header
        (some { newHeader with components := components }) } := ⟨_, rfl⟩
    rw [← hf₂e] at hf₂ ⊢
    have hsame := destruct_sameTables (C := C) f₂ dropped
    have hf₃ := hsame.hosted hf₂
    obtain ⟨f₄, hfree₄, hf₄, hheader₄, hentries₄⟩ := deallocatePoly_spec hf₃ hk₁
    refine ⟨f₄, fresh.header, _, by rw [hfree₄, Option.bind_some], hf₄, ?_, ?_, ?_, ?_⟩
    · rw [Function.update_of_ne (Ne.symm hne), Function.update_self]
    · intro x hx hxf
      constructor
      · rw [Function.update_of_ne hx, Function.update_of_ne hxf]
      · rw [hheader₄, Function.update_of_ne hx, hsame.header, hf₂e]
        simp only [Function.update_of_ne hxf, hheader₁]
    · intro _
      exact ⟨Function.update_self .., hkfresh⟩
    · intro id
      have hentries₂ : f₂.entries = f.entries := by rw [hf₂e]; exact hentries₁
      rw [hentries₄, hsame.entries, hentries₂]

/-- The entry of a poly that has moved to another header and type. -/
theorem Registered.retype {kinds' : Nat → Option (TypeID N)} {newPoly : Nat} {header : Header V}
    (hreg : Registered f kinds) (he : f.entries.lookup id = some entry)
    (hentries : ∀ id, (f'.entries.lookup id).map PolyEntry.table =
      (f.entries.lookup id).map PolyEntry.table)
    (hnew : kinds' newPoly = some t') (hheader : f'.header newPoly = some header)
    (hother : ∀ x, x ≠ entry.header → x ≠ newPoly → kinds' x = kinds x ∧ f'.header x = f.header x)
    (hgone : newPoly ≠ entry.header → kinds' entry.header = none ∧ kinds newPoly = none)
    (refcount : Nat) :
    Registered { f' with
      entries := f'.entries.insert id ⟨t', header.archetype, newPoly, refcount⟩ } kinds' := by
  obtain ⟨entry', hentry'⟩ : ∃ entry' : PolyEntry N, entry' =
    { typeId := t', archetype := header.archetype, header := newPoly, refcount := refcount } := ⟨_, rfl⟩
  rw [← hentry']
  -- entries of other polys are those of `f`, and own other headers
  have hold : ∀ {id' e}, id' ≠ id → f'.entries.lookup id' = some e →
      ∃ e₀, f.entries.lookup id' = some e₀ ∧ e.typeId = e₀.typeId ∧ e.archetype = e₀.archetype ∧
        e.header = e₀.header ∧ e.header ≠ entry.header ∧ e.header ≠ newPoly := by
    intro id' e hne hlookup
    have hid := hentries id'
    rw [hlookup, Option.map_some] at hid
    obtain ⟨e₀, he₀, htable⟩ := Option.map_eq_some_iff.mp hid.symm
    simp only [PolyEntry.table, Prod.mk.injEq] at htable
    have hneq : e₀.header ≠ entry.header := fun hc => hne (hreg.inj he₀ he hc)
    refine ⟨e₀, he₀, htable.1.symm, htable.2.1.symm, htable.2.2.symm, by rw [← htable.2.2]; exact hneq,
      ?_⟩
    rw [← htable.2.2]
    intro hc
    by_cases hnp : newPoly = entry.header
    · exact hneq (hc.trans hnp)
    · have hnone := (hgone hnp).2
      rw [← hc, (hreg.entry he₀).1] at hnone
      cases hnone
  refine ⟨?_, ?_, ?_⟩
  · intro id' e hlookup
    by_cases hne : id' = id
    · rw [hne, AList.lookup_insert] at hlookup
      cases hlookup
      rw [hentry']
      exact ⟨hnew, header, hheader, rfl⟩
    · rw [AList.lookup_insert_ne hne] at hlookup
      obtain ⟨e₀, he₀, ht, ha, hh, hne', hnp⟩ := hold hne hlookup
      obtain ⟨hkeep, hhkeep⟩ := hother e.header hne' hnp
      show kinds' e.header = some e.typeId ∧ ∃ header, f'.header e.header = some header ∧ _
      rw [hkeep, hhkeep, ht, ha, hh]
      exact hreg.entry he₀
  · intro x t hx
    by_cases hxn : x = newPoly
    · exact ⟨id, entry', AList.lookup_insert _, by rw [hentry', hxn]⟩
    · by_cases hxo : x = entry.header
      · have hnp : newPoly ≠ entry.header := fun hc => hxn (hxo.trans hc.symm)
        rw [hxo, (hgone hnp).1] at hx
        cases hx
      · rw [(hother x hxo hxn).1] at hx
        obtain ⟨id', e₀, he₀, hh⟩ := hreg.owner hx
        have hne : id' ≠ id := by
          intro hc
          rw [hc, he] at he₀
          cases he₀
          exact hxo hh.symm
        have hid := hentries id'
        rw [he₀, Option.map_some] at hid
        obtain ⟨e, he', htable⟩ := Option.map_eq_some_iff.mp hid
        simp only [PolyEntry.table, Prod.mk.injEq] at htable
        exact ⟨id', e, by rw [AList.lookup_insert_ne hne]; exact he', htable.2.2.trans hh⟩
  · intro id₁ id₂ e₁ e₂ h₁ h₂ hee
    by_cases hn₁ : id₁ = id
    · by_cases hn₂ : id₂ = id
      · rw [hn₁, hn₂]
      · rw [hn₁, AList.lookup_insert] at h₁
        rw [AList.lookup_insert_ne hn₂] at h₂
        cases h₁
        obtain ⟨-, -, -, -, -, -, hnp⟩ := hold hn₂ h₂
        rw [hentry'] at hee
        exact absurd hee.symm hnp
    · rw [AList.lookup_insert_ne hn₁] at h₁
      obtain ⟨e₁', he₁', -, -, hh₁, -, hnp⟩ := hold hn₁ h₁
      by_cases hn₂ : id₂ = id
      · rw [hn₂, AList.lookup_insert] at h₂
        cases h₂
        rw [hentry'] at hee
        exact absurd hee hnp
      · rw [AList.lookup_insert_ne hn₂] at h₂
        obtain ⟨e₂', he₂', -, -, hh₂, -⟩ := hold hn₂ h₂
        exact hreg.inj he₁' he₂' (hh₁.symm.trans (hee.trans hh₂))

theorem retype_spec (hf : Tables f) (hfree : IsFree f fresh) (he : f.entries.lookup id = some entry)
    (hinc : Includes t' (headerID N)) :
    ∃ f', retype C fresh f id entry t' = some f' ∧ Tables f' := by
  obtain ⟨kinds, hhost, hreg⟩ := hf
  have hk := (hreg.entry he).1
  obtain ⟨f₁, newPoly, kinds₁, hupdate, hf₁, hnew, hother, hgone, hentries⟩ :=
    updatePolyType_spec (C := C) hhost hfree hk hinc
  obtain ⟨header, -, hheader, -⟩ := hf₁.find hnew
  obtain ⟨entry₁, he₁, -⟩ : ∃ entry₁, f₁.entries.lookup id = some entry₁ ∧ True := by
    have hid := hentries id
    rw [he, Option.map_some] at hid
    obtain ⟨entry₁, he₁, -⟩ := Option.map_eq_some_iff.mp hid
    exact ⟨entry₁, he₁, trivial⟩
  refine ⟨_, ?_, kinds₁, ?_, hreg.retype he hentries hnew hheader hother hgone entry₁.refcount⟩
  · rw [updatePolyType] at hupdate
    simp only [retype, retypeWith, hupdate, Option.bind_eq_bind, Option.bind_some, hheader, he₁]
  · exact hf₁.congr rfl (fun h => ⟨_, h, rfl, rfl, rfl⟩) (fun h => ⟨_, h, rfl⟩)

/-- The entry of a new poly. -/
theorem Registered.insert {x : Nat} {header : Header V} (hreg : Registered f kinds)
    (he : f.entries.lookup id = none) (hentries : f'.entries = f.entries) (hx : kinds x = none)
    (hheader : f'.header x = some header) (hother : ∀ y, y ≠ x → f'.header y = f.header y)
    (refcount : Nat) :
    Registered { f' with entries := f'.entries.insert id ⟨t, header.archetype, x, refcount⟩ }
      (Function.update kinds x (some t)) := by
  obtain ⟨entry, hentry⟩ : ∃ entry : PolyEntry N, entry =
    { typeId := t, archetype := header.archetype, header := x, refcount := refcount } := ⟨_, rfl⟩
  rw [← hentry, hentries]
  have hold : ∀ {id' e}, id' ≠ id → (f.entries.insert id entry).lookup id' = some e →
      f.entries.lookup id' = some e ∧ e.header ≠ x := by
    intro id' e hne hlookup
    rw [AList.lookup_insert_ne hne] at hlookup
    refine ⟨hlookup, fun hc => ?_⟩
    have hk := (hreg.entry hlookup).1
    rw [hc, hx] at hk
    cases hk
  refine ⟨?_, ?_, ?_⟩
  · intro id' e hlookup
    by_cases hne : id' = id
    · rw [hne, AList.lookup_insert] at hlookup
      cases hlookup
      rw [hentry]
      exact ⟨Function.update_self .., header, hheader, rfl⟩
    · obtain ⟨he', hfr⟩ := hold hne hlookup
      show Function.update kinds _ _ e.header = _ ∧ ∃ header, f'.header e.header = some header ∧ _
      rw [Function.update_of_ne hfr, hother _ hfr]
      exact hreg.entry he'
  · intro y t' hy
    by_cases hyx : y = x
    · exact ⟨id, entry, AList.lookup_insert _, by rw [hentry, hyx]⟩
    · rw [Function.update_of_ne hyx] at hy
      obtain ⟨id', e, he', hh⟩ := hreg.owner hy
      have hne : id' ≠ id := by
        intro hc
        rw [hc, he] at he'
        cases he'
      exact ⟨id', e, by rw [AList.lookup_insert_ne hne]; exact he', hh⟩
  · intro id₁ id₂ e₁ e₂ h₁ h₂ hee
    by_cases hn₁ : id₁ = id
    · by_cases hn₂ : id₂ = id
      · rw [hn₁, hn₂]
      · rw [hn₁, AList.lookup_insert] at h₁
        cases h₁
        rw [hentry] at hee
        exact absurd hee.symm (hold hn₂ h₂).2
    · by_cases hn₂ : id₂ = id
      · rw [hn₂, AList.lookup_insert] at h₂
        cases h₂
        rw [hentry] at hee
        exact absurd hee (hold hn₁ h₁).2
      · exact hreg.inj (hold hn₁ h₁).1 (hold hn₂ h₂).1 hee

theorem getPoly_spec (hf : Tables f) (hfree : IsFree f fresh) (initialTypes : TypeID N) :
    ∃ f', getPoly C fresh f id initialTypes = some f' ∧ Tables f' := by
  cases he : f.entries.lookup id with
  | some entry =>
    exact ⟨_, by rw [getPoly, he], (count_sameTables (· + 1) f id).tables hf⟩
  | none =>
    obtain ⟨kinds, hhost, hreg⟩ := hf
    have hinc := includes_or initialTypes (headerID N)
    obtain ⟨f₁, header, halloc, hf₁, hheader₁, hentries₁⟩ :=
      allocatePoly_spec (C := C) hhost hfree hinc
    have hkfresh := hhost.toListed.free (Option.isNone_iff_eq_none.mp hfree.1)
    obtain ⟨header', archetype, hheader, harchetype⟩ :=
      hf₁.find (Function.update_self fresh.header _ _)
    have hf₂ := hf₁.setHeader
      { header' with components := constructPoly C.info archetype.archetype } hheader rfl
    obtain ⟨f₂, hf₂e⟩ : ∃ f₂, f₂ = { f₁ with
      header := Function.update f₁.header fresh.header
        (some { header' with components := constructPoly C.info archetype.archetype }) } := ⟨_, rfl⟩
    rw [← hf₂e] at hf₂
    have hentries₂ : f₂.entries = f.entries := by
      rw [hf₂e]
      exact hentries₁
    have hheader₂ : f₂.header fresh.header = some
        { header' with components := constructPoly C.info archetype.archetype } := by
      rw [hf₂e]
      exact Function.update_self ..
    refine ⟨_, ?_, Function.update kinds fresh.header (some (initialTypes ||| headerID N)), ?_,
      hreg.insert he hentries₂ hkfresh hheader₂ ?_ 1⟩
    · simp only [getPoly, he, halloc, Option.bind_eq_bind, Option.bind_some, hheader, harchetype, hf₂e]
    · exact hf₂.congr rfl (fun h => ⟨_, h, rfl, rfl, rfl⟩) (fun h => ⟨_, h, rfl⟩)
    · intro y hy
      rw [hf₂e, hheader₁]
      simp only [Function.update_of_ne hy]

/-- The entry of a poly that is freed. -/
theorem Registered.erase (hreg : Registered f kinds) (he : f.entries.lookup id = some entry)
    (hentries : f'.entries = f.entries)
    (hother : ∀ y, y ≠ entry.header → f'.header y = f.header y) :
    Registered { f' with entries := f'.entries.erase id }
      (Function.update kinds entry.header none) := by
  rw [hentries]
  have hold : ∀ {id' e}, (f.entries.erase id).lookup id' = some e →
      id' ≠ id ∧ f.entries.lookup id' = some e ∧ e.header ≠ entry.header := by
    intro id' e hlookup
    have hne : id' ≠ id := by
      intro hc
      rw [hc, AList.lookup_erase] at hlookup
      cases hlookup
    rw [AList.lookup_erase_ne hne] at hlookup
    exact ⟨hne, hlookup, fun hc => hne (hreg.inj hlookup he hc)⟩
  refine ⟨?_, ?_, ?_⟩
  · intro id' e hlookup
    obtain ⟨-, he', hne⟩ := hold hlookup
    show Function.update kinds _ _ e.header = _ ∧ ∃ header, f'.header e.header = some header ∧ _
    rw [Function.update_of_ne hne, hother _ hne]
    exact hreg.entry he'
  · intro x t hx
    have hxe : x ≠ entry.header := by
      intro hc
      rw [hc, Function.update_self] at hx
      cases hx
    rw [Function.update_of_ne hxe] at hx
    obtain ⟨id', e, he', hh⟩ := hreg.owner hx
    have hne : id' ≠ id := by
      intro hc
      rw [hc, he] at he'
      cases he'
      exact hxe hh.symm
    exact ⟨id', e, by rw [AList.lookup_erase_ne hne]; exact he', hh⟩
  · intro id₁ id₂ e₁ e₂ h₁ h₂ hee
    exact hreg.inj (hold h₁).2.1 (hold h₂).2.1 hee

theorem cleanupEntry_spec (hf : Tables f) (id : PolyID) :
    ∃ f', cleanupEntry C f id = some f' ∧ Tables f' := by
  cases he : f.entries.lookup id with
  | none => exact ⟨f, by rw [cleanupEntry, cleanupEntryWith, he], hf⟩
  | some entry =>
    by_cases hzero : entry.refcount = 0
    · obtain ⟨kinds, hhost, hreg⟩ := hf
      obtain ⟨hk, header, hheader, hha⟩ := hreg.entry he
      obtain ⟨header', archetype, hheader', harchetype⟩ := hhost.find hk
      cases hheader.symm.trans hheader'
      rw [hha] at harchetype
      simp only [cleanupEntry, cleanupEntryWith, he, if_pos hzero, Option.bind_eq_bind, hheader,
        Option.bind_some, harchetype]
      generalize (typeIndexes N).filterMap _ = values
      have hsame := destruct_sameTables (C := C) f values
      obtain ⟨f₁, hfree₁, hf₁, hheader₁, hentries₁⟩ := deallocatePoly_spec (hsame.hosted hhost) hk
      obtain ⟨entry', he', -, -, hh'⟩ := hsame.symm.lookup he
      refine ⟨_, by rw [hfree₁, Option.bind_some], Function.update kinds entry.header none, ?_, ?_⟩
      · exact hf₁.congr rfl (fun h => ⟨_, h, rfl, rfl, rfl⟩) (fun h => ⟨_, h, rfl⟩)
      · rw [hh']
        refine (hsame.registered hreg).erase he' hentries₁ fun y hy => ?_
        rw [hheader₁, hh', Function.update_of_ne hy]
    · exact ⟨f, by simp only [cleanupEntry, cleanupEntryWith, he, if_neg hzero], hf⟩

theorem cleanup_spec (order : List PolyID) : ∀ {f : PolyFactory N PolyID V CB}, Tables f →
    ∃ f', cleanup C f order = some f' ∧ Tables f' := by
  induction order with
  | nil =>
    intro f hf
    exact ⟨f, rfl, hf⟩
  | cons id order ih =>
    intro f hf
    obtain ⟨f₁, h₁, hf₁⟩ := cleanupEntry_spec (C := C) hf id
    obtain ⟨f', h', hf'⟩ := ih hf₁
    rw [cleanupEntry] at h₁
    exact ⟨f', by rw [cleanup, cleanupWith, h₁]; exact h', hf'⟩

theorem addCallback_tables (hf : Tables f) (types : TypeID N) (event : PolyEvent) (callback : CB) :
    Tables (addCallback f types event callback) := by
  obtain ⟨kinds, hhost, hreg⟩ := hf
  refine ⟨kinds, hhost.congr rfl ?_ (fun h => ⟨_, h, rfl⟩), ⟨hreg.entry, hreg.owner, hreg.inj⟩⟩
  intro a entry ha
  refine ⟨_, by simp only [addCallback, ha, Option.map_some]; rfl, ?_⟩
  split
  · exact ⟨rfl, rfl, rfl⟩
  · exact ⟨rfl, rfl, rfl⟩

theorem setComponent_tables (hf : Tables f) (poly i : Nat) (v : V) :
    Tables (setComponent f poly i v) := by
  obtain ⟨kinds, hhost, hreg⟩ := hf
  have hheader : ∀ {x header}, f.header x = some header → ∃ header',
      (setComponent f poly i v).header x = some header' ∧ header'.archetype = header.archetype := by
    intro x header hx
    by_cases hxp : x = poly
    · subst hxp
      exact ⟨{ header with components := Function.update header.components i (some v) },
        by simp only [setComponent, Function.update_self, hx, Option.map_some], rfl⟩
    · exact ⟨header, by simp only [setComponent, Function.update_of_ne hxp, hx], rfl⟩
  refine ⟨kinds, hhost.congr rfl (fun h => ⟨_, h, rfl, rfl, rfl⟩) hheader, ⟨?_, hreg.owner, hreg.inj⟩⟩
  intro id e he
  obtain ⟨hk, header, hx, ha⟩ := hreg.entry he
  obtain ⟨header', hx', ha'⟩ := hheader hx
  exact ⟨hk, header', hx', ha'.trans ha⟩

theorem step_tables (hf : Tables f) {l : Label N PolyID V CB}
    {s : Option (PolyFactory N PolyID V CB)} (hs : step C f l = some s) :
    ∃ f', s = some f' ∧ Tables f' := by
  cases l with
  | getPoly id initialTypes fresh =>
    simp only [step] at hs
    split at hs
    · next hfree =>
      cases hs
      exact getPoly_spec hf hfree initialTypes
    · cases hs
  | setTypes id newTypeId fresh =>
    simp only [step] at hs
    split at hs
    · next hfree =>
      cases hs
      unfold setTypes setTypesWith
      split
      · exact ⟨f, rfl, hf⟩
      · next entry he => exact retype_spec hf hfree he (includes_or newTypeId (headerID N))
    · cases hs
  | addTypes id newTypes fresh =>
    simp only [step] at hs
    split at hs
    · next hfree =>
      cases hs
      unfold addTypes addTypesWith
      split
      · exact ⟨f, rfl, hf⟩
      · next entry he =>
        have hinc : Includes entry.typeId (headerID N) := by
          obtain ⟨kinds, hhost, hreg⟩ := hf
          exact (hhost.header (hreg.entry he).1).1
        exact retype_spec hf hfree he (hinc.or newTypes)
    · cases hs
  | cleanup order =>
    simp only [step] at hs
    split at hs
    · cases hs
      exact cleanup_spec order hf
    · cases hs
  | addCallback types event callback =>
    cases hs
    exact ⟨_, rfl, addCallback_tables hf types event callback⟩
  | count id refcount =>
    cases hs
    exact ⟨_, rfl, (count_sameTables _ f id).tables hf⟩
  | setComponent poly i v =>
    cases hs
    exact ⟨_, rfl, setComponent_tables hf poly i v⟩

theorem tables_of_reach {s : Option (PolyFactory N PolyID V CB)}
    (hs : (factoryMachine C).Reachable s) : ∃ f, s = some f ∧ Tables f := by
  refine hs.invariant (I := fun s => ∃ f, s = some f ∧ Tables f) ?_ ?_
  · intro s hinit
    exact ⟨{}, hinit, tables_empty⟩
  · intro s l s' _ hinv _ hstep
    obtain ⟨f, rfl, hf⟩ := hinv
    exact step_tables hf hstep

/-! ### The tables in the terms of the source -/

/- The records of a factory agree: entries and their archetypes, `polys` lists and reference
   counts. -/
structure TablesAgree (f : PolyFactory N PolyID V CB) : Prop where
  entry : ∀ id e, f.entries.lookup id = some e → Includes e.typeId (headerID N) ∧
    f.archetypes.lookup e.typeId = some e.archetype ∧
    (∃ header, f.header e.header = some header ∧ header.archetype = e.archetype) ∧
    ∃ a, f.archetypeEntry e.archetype = some a ∧ a.archetype.id = e.typeId
  polys : ∀ t a, f.archetypes.lookup t = some a → ∃ entry, f.archetypeEntry a = some entry ∧
    entry.polys.Nodup ∧ entry.refcount = entry.polys.length ∧ 0 < entry.refcount ∧
    ∀ h, h ∈ entry.polys ↔ ∃ id e, f.entries.lookup id = some e ∧ e.typeId = t ∧ e.header = h
  exists_iff : ∀ t, (f.archetypes.lookup t).isSome ↔
    ∃ id e, f.entries.lookup id = some e ∧ e.typeId = t
  header_inj : ∀ id id' e e', f.entries.lookup id = some e → f.entries.lookup id' = some e' →
    e.header = e'.header → id = id'

/-- `Iterate` visits the polys that have all the types, each once, and no other. -/
def IterateExact (f : PolyFactory N PolyID V CB) : Prop :=
  ∀ types, (iterate f types).Nodup ∧ ∀ h, h ∈ iterate f types ↔
    ∃ id e, f.entries.lookup id = some e ∧ e.header = h ∧ Includes e.typeId types

theorem Tables.agree (hf : Tables f) : TablesAgree f := by
  obtain ⟨kinds, hhost, hreg⟩ := hf
  have howner : ∀ h t, kinds h = some t ↔
      ∃ id e, f.entries.lookup id = some e ∧ e.typeId = t ∧ e.header = h := by
    intro h t
    constructor
    · intro hk
      obtain ⟨id, e, he, hh⟩ := hreg.owner hk
      have hke := (hreg.entry he).1
      rw [hh, hk] at hke
      exact ⟨id, e, he, (Option.some.inj hke).symm, hh⟩
    · intro hown
      obtain ⟨id, e, he, ht, hh⟩ := hown
      rw [← ht, ← hh]
      exact (hreg.entry he).1
  refine ⟨?_, ?_, ?_, fun id id' e e' => hreg.inj⟩
  · intro id e he
    obtain ⟨hk, header, hheader, ha⟩ := hreg.entry he
    obtain ⟨hinc, a, header', hlookup, hheader', ha'⟩ := hhost.header hk
    cases hheader.symm.trans hheader'
    obtain ⟨entry, hentry, hid, -⟩ := hhost.archetype hlookup
    rw [← ha, ha']
    exact ⟨hinc, hlookup, ⟨header, hheader, ha'⟩, entry, hentry, hid⟩
  · intro t a hlookup
    obtain ⟨entry, hentry, -, hnodup, hcount, hmem⟩ := hhost.archetype hlookup
    obtain ⟨h, hk⟩ := hhost.used hlookup
    have hpos := List.length_pos_of_mem ((hmem h).mpr hk)
    exact ⟨entry, hentry, hnodup, hcount, by omega, fun h => (hmem h).trans (howner h t)⟩
  · intro t
    constructor
    · intro hsome
      obtain ⟨a, hlookup⟩ := Option.isSome_iff_exists.mp hsome
      obtain ⟨h, hk⟩ := hhost.used hlookup
      obtain ⟨id, e, he, ht, -⟩ := (howner h t).mp hk
      exact ⟨id, e, he, ht⟩
    · intro hown
      obtain ⟨id, e, he, ht⟩ := hown
      obtain ⟨-, a, -, hlookup, -⟩ := hhost.header (hreg.entry he).1
      rw [← ht, hlookup]
      rfl

theorem TablesAgree.iterateExact (hf : TablesAgree f) : IterateExact f := by
  intro types
  have hrow : ∀ e ∈ f.archetypes.entries, ∃ entry, f.archetypeEntry e.2 = some entry ∧
      entry.polys.Nodup ∧ ∀ h, h ∈ entry.polys ↔
        ∃ id p, f.entries.lookup id = some p ∧ p.typeId = e.1 ∧ p.header = h := by
    intro e he
    obtain ⟨entry, hentry, hnodup, -, -, hmem⟩ := hf.polys e.1 e.2 (AList.mem_lookup_iff.mpr he)
    exact ⟨entry, hentry, hnodup, hmem⟩
  constructor
  · refine List.nodup_flatMap.mpr ⟨?_, ?_⟩
    · intro e he
      obtain ⟨entry, hentry, hnodup, -⟩ := hrow e he
      split
      · rw [hentry]
        exact hnodup
      · exact List.nodup_nil
    · -- a poly of two archetypes would have two types
      refine (List.nodupKeys_iff_pairwise.mp f.archetypes.nodupKeys).imp_of_mem ?_
      intro e e' he he' hne
      obtain ⟨entry, hentry, -, hmem⟩ := hrow e he
      obtain ⟨entry', hentry', -, hmem'⟩ := hrow e' he'
      intro h hh hh'
      simp only at hh hh'
      split at hh
      · split at hh'
        · rw [hentry] at hh
          rw [hentry'] at hh'
          obtain ⟨id, p, hp, ht, hph⟩ := (hmem h).mp hh
          obtain ⟨id', p', hp', ht', hph'⟩ := (hmem' h).mp hh'
          have hid := hf.header_inj id id' p p' hp hp' (hph.trans hph'.symm)
          rw [hid, hp'] at hp
          cases hp
          exact hne (ht.symm.trans ht')
        · cases hh'
      · cases hh
  · intro h
    rw [iterate, List.mem_flatMap]
    constructor
    · intro hmem
      obtain ⟨e, he, hh⟩ := hmem
      obtain ⟨entry, hentry, -, hiff⟩ := hrow e he
      split at hh
      · next hinc =>
        rw [hentry] at hh
        obtain ⟨id, p, hp, ht, hph⟩ := (hiff h).mp hh
        exact ⟨id, p, hp, hph, by rw [ht]; exact hinc⟩
      · cases hh
    · intro hown
      obtain ⟨id, p, hp, hph, hinc⟩ := hown
      obtain ⟨-, hlookup, -⟩ := hf.entry id p hp
      have he : (⟨p.typeId, p.archetype⟩ : Sigma fun _ : TypeID N => Nat) ∈ f.archetypes.entries :=
        AList.mem_lookup_iff.mp hlookup
      obtain ⟨entry, hentry, -, hiff⟩ := hrow _ he
      refine ⟨_, he, ?_⟩
      rw [if_pos hinc, hentry]
      exact (hiff h).mpr ⟨id, p, hp, rfl, hph⟩

/-- In every run of a factory no call follows a bad pointer, and the records agree. -/
theorem tables_agree (C : Components PolyID V) {s : Option (PolyFactory N PolyID V CB)}
    (hs : (factoryMachine C).Reachable s) :
    ∃ f, s = some f ∧ TablesAgree f ∧ IterateExact f := by
  obtain ⟨f, rfl, hf⟩ := tables_of_reach hs
  exact ⟨f, rfl, hf.agree, hf.agree.iterateExact⟩

/-- A component value that holds a reference to the poly it names. -/
def parentComponents : Components Nat (Option Nat) where
  info _ := { construct := none, size := 8 }
  refs v := v.toList

/- Two polys are created, the first gets another type and a reference to the second, and both
   are cleaned up. -/
def retypeRun : List (Label 40 Nat (Option Nat) Nat) :=
  [.getPoly 7 0x6#40 ⟨0, 0⟩, .getPoly 8 0x6#40 ⟨1, 1⟩, .setTypes 7 0xA#40 ⟨2, 1⟩,
    .setComponent 2 3 (some 8), .addTypes 7 0x4#40 ⟨0, 2⟩, .count 7 0, .cleanup [8, 7]]

theorem tables_agree_retypeRun :
    ∃ f, (factoryMachine parentComponents).exec (some {}) retypeRun = some (some f) ∧
      TablesAgree f ∧ IterateExact f := by
  obtain ⟨s, hs⟩ := Option.isSome_iff_exists.mp
    (show ((factoryMachine parentComponents).exec (some {}) retypeRun).isSome = true from by
      decide +kernel)
  obtain ⟨f, rfl, hf⟩ := tables_agree parentComponents (Library.Machine.reachable_of_exec rfl hs)
  exact ⟨f, hs, hf⟩

end CosmicArchitect.Util.PolyFactory
