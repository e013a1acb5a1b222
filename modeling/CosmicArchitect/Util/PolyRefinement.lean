import CosmicArchitect.Util.TypeChange

/-!
# Polys in memory refine the factory

The components of a poly are the objects in its block. A factory whose polys lie in memory takes
the steps of the factory of which these are the components.
-/

namespace CosmicArchitect.Util

/-! ### Calls that do not look at components -/

namespace PolyFactory
open PolyType

variable {N : Nat} {PolyID V CB : Type} [DecidableEq PolyID] {C : Components PolyID V}
  {f f' : PolyFactory N PolyID V CB} {t : TypeID N} {poly : Nat} {fresh : Fresh}

theorem emplaceArchetype_withHeader (g : Nat → Option (Header V)) (a : Nat) :
    emplaceArchetype C a { f with header := g } t =
      ({ (emplaceArchetype C a f t).1 with header := g }, (emplaceArchetype C a f t).2) := by
  unfold emplaceArchetype
  cases f.archetypes.lookup t with
  | none => rfl
  | some a' => rfl

theorem allocatePoly_withHeader (h : allocatePoly C fresh f t = some (f', poly))
    (g : Nat → Option (Header V)) : allocatePoly C fresh { f with header := g } t =
      some ({ f' with header := Function.update g poly (f'.header poly) }, poly) := by
  simp only [allocatePoly, emplaceArchetype_withHeader] at h ⊢
  obtain ⟨entry, hentry, heq⟩ := Option.map_eq_some_iff.mp h
  cases heq
  simp only [hentry, Option.map_some, Function.update_self]

theorem deallocatePoly_withHeader (h : deallocatePoly f t poly = some f')
    (g : Nat → Option (Header V)) : deallocatePoly { f with header := g } t poly =
      some { f' with header := Function.update g poly none } := by
  simp only [deallocatePoly] at h ⊢
  obtain ⟨a, hlookup, h⟩ := Option.bind_eq_some_iff.mp h
  obtain ⟨entry, hentry, heq⟩ := Option.map_eq_some_iff.mp h
  rw [hlookup, Option.bind_some, hentry, Option.map_some, ← heq]
  split
  · rfl
  · rfl

theorem deallocatePoly_header (h : deallocatePoly f t poly = some f') :
    f'.header = Function.update f.header poly none := by
  simp only [deallocatePoly] at h
  obtain ⟨a, hlookup, h⟩ := Option.bind_eq_some_iff.mp h
  obtain ⟨entry, hentry, heq⟩ := Option.map_eq_some_iff.mp h
  rw [← heq]
  split
  · rfl
  · rfl

theorem count_withHeader (g : Nat → Option (Header V)) (change : Nat → Nat) (id : PolyID) :
    count change { f with header := g } id = { count change f id with header := g } := by
  unfold count
  cases f.entries.lookup id with
  | none => rfl
  | some entry => rfl

theorem destruct_withHeader (g : Nat → Option (Header V)) (values : List V) :
    destruct C { f with header := g } values = { destruct C f values with header := g } := by
  unfold destruct
  induction values.flatMap C.refs generalizing f with
  | nil => rfl
  | cons id ids ih =>
    rw [List.foldl_cons, List.foldl_cons, ← ih, count_withHeader]

end PolyFactory

namespace PolyMemory
open PolyType PolyFactory Library TypeTable

variable {N : Nat} {PolyID V CB : Type} [DecidableEq PolyID] {T : TypeTable N PolyID V}
  {s s' : PolyMemory N PolyID V CB} {t t' : TypeID N} {poly newPoly i h : Nat}
  {kinds : Nat → Option (TypeID N)} {fresh : Fresh} {id : PolyID} {entry : PolyEntry N}

/-- The components of the poly at an address. -/
def components (T : TypeTable N PolyID V) (s : PolyMemory N PolyID V CB) (archetype : Archetype N CB)
    (poly i : Nat) : Option V :=
  if i ∈ typeIndexes N ∧ archetype.HasOffset i then
    s.heap.objects ⟨componentPtr archetype poly i, (T.info i).size⟩
  else none

/-- The factory of which the objects in memory are the components. -/
def factory (T : TypeTable N PolyID V) (s : PolyMemory N PolyID V CB) : PolyFactory N PolyID V CB :=
  { s.tables with
    header := fun poly => do
      let header ← s.tables.header poly
      let entry ← s.tables.archetypeEntry header.archetype
      some { header with components := components T s entry.archetype poly } }

theorem factory_eq {g : Nat → Option (Header V)} (h : ∀ x, (factory T s).header x = g x) :
    factory T s = { s.tables with header := g } := by
  rw [← funext h]
  rfl

theorem factory_setEntry (id : PolyID) (entry : PolyEntry N) : factory T (s.setEntry id entry) =
    { factory T s with entries := s.tables.entries.insert id entry } := rfl

/-- The components of a poly of the type. -/
def typedComponents (T : TypeTable N PolyID V) (objects : Region → Option V) (t : TypeID N)
    (poly i : Nat) : Option V :=
  if i ∈ typeIndexes N ∧ t.getLsbD i then objects (T.region t poly i) else none

theorem Laid.factory_header (hs : Laid T s kinds) (hk : kinds h = some t) :
    ∃ header, s.tables.header h = some header ∧ (factory T s).header h =
      some { archetype := header.archetype, components := typedComponents T s.heap.objects t h } := by
  obtain ⟨header, entry, hheader, -, hentry, -, hlaid⟩ := hs.find hk
  refine ⟨header, hheader, ?_⟩
  have hcomponents : components T s entry.archetype h = typedComponents T s.heap.objects t h := by
    funext i
    simp only [components, typedComponents]
    by_cases hi : i ∈ typeIndexes N
    · by_cases hbit : t.getLsbD i
      · rw [if_pos ⟨hi, (hlaid.hasOffset i hi).mpr hbit⟩, if_pos ⟨hi, hbit⟩, componentPtr_eq hlaid hi hbit]
        rfl
      · rw [if_neg fun hc => hbit ((hlaid.hasOffset i hi).mp hc.2), if_neg fun hc => hbit hc.2]
    · rw [if_neg fun hc => hi hc.1, if_neg fun hc => hi hc.1]
  simp only [factory, hheader, hentry, hcomponents, Option.bind_eq_bind, Option.bind_some]

theorem Laid.factory_header_none (hs : Laid T s kinds) (hk : kinds h = none) :
    (factory T s).header h = none := by
  simp only [factory, hs.header hk, Option.bind_eq_bind, Option.bind_none]

/-- A poly that a call leaves alone has the same header and components. -/
theorem Laid.factory_header_same {kinds' : Nat → Option (TypeID N)} (hs : Laid T s kinds)
    (hs' : Laid T s' kinds') (hk : kinds' h = kinds h) (hh : s'.tables.header h = s.tables.header h)
    (hobjects : ∀ t i, kinds h = some t → t.getLsbD i →
      s'.heap.objects (T.region t h i) = s.heap.objects (T.region t h i)) :
    (factory T s').header h = (factory T s).header h := by
  cases hkh : kinds h with
  | none => rw [hs.factory_header_none hkh, hs'.factory_header_none (hk.trans hkh)]
  | some t =>
    obtain ⟨header, hheader, hfactory⟩ := hs.factory_header hkh
    obtain ⟨header', hheader', hfactory'⟩ := hs'.factory_header (hk.trans hkh)
    rw [hh, hheader] at hheader'
    cases hheader'
    have hcomponents : typedComponents T s'.heap.objects t h = typedComponents T s.heap.objects t h := by
      funext i
      simp only [typedComponents]
      split
      · next hi => exact hobjects t i hkh hi.2
      · rfl
    rw [hfactory, hfactory', hcomponents]

/-! ### The calls -/

omit [DecidableEq PolyID] in
/-- The components that a change of type destructs are the objects that it drops. -/
theorem dropped_components {old new : Archetype N CB} (hold : T.LaidOut old t)
    (hnew : T.LaidOut new t') (objects : Region → Option V) (poly : Nat) :
    (typeIndexes N).filterMap (fun i => if old.HasOffset i ∧ ¬ new.HasOffset i then
      typedComponents T objects t poly i else none) =
      (typeIndexes N).flatMap (dropped T objects t t' poly) := by
  rw [List.filterMap_eq_flatMap_toList]
  refine List.flatMap_congr fun i hi => ?_
  simp only [dropped, typedComponents, hold.hasOffset i hi, hnew.hasOffset i hi]
  split
  · next h => rw [if_pos ⟨hi, h.1⟩]
  · rfl

omit [DecidableEq PolyID] in
/-- The components of the new poly are the objects in its block. -/
theorem moved_components {old new : Archetype N CB} (hold : T.LaidOut old t)
    (hnew : T.LaidOut new t') {objects objects' : Region → Option V} {poly newPoly : Nat}
    (hmoved : ∀ i ∈ typeIndexes N, t'.getLsbD i → objects' (T.region t' newPoly i) =
      if t.getLsbD i then objects (T.region t poly i) else some (T.info i).construct) :
    (fun i => if i ∈ typeIndexes N ∧ new.HasOffset i then
      if old.HasOffset i then typedComponents T objects t poly i
      else some (T.info i).construct else none) = typedComponents T objects' t' newPoly := by
  funext i
  simp only [typedComponents]
  by_cases hi : i ∈ typeIndexes N
  · simp only [hold.hasOffset i hi, hnew.hasOffset i hi, hi, true_and]
    split
    · next hbit =>
      rw [hmoved i hi hbit]
      split
      · rfl
      · rfl
    · rfl
  · rw [if_neg fun hc => hi hc.1, if_neg fun hc => hi hc.1]

theorem updatePolyType_refines (hs : Stored T s kinds) (hr : Registered s.tables kinds)
    (hk : kinds poly = some t) (hfree : CanAllocate T s fresh t') (hinc : Includes t' (headerID N))
    (hupdate : updatePolyType T fresh s poly t t' = some (s', newPoly)) :
    PolyFactory.updatePolyType T.toComponents fresh (factory T s) poly t t' =
      some (factory T s', newPoly) := by
  by_cases htt : t' = t
  · rw [updatePolyType, if_pos htt] at hupdate
    cases hupdate
    rw [PolyFactory.updatePolyType, updatePolyTypeWith, if_pos htt]
  have ht' := updatePolyType_named hs hr hk hfree hinc hupdate
  obtain ⟨s₃, hupdate₃, ⟨f, halloc, hdealloc⟩, hs₃, hkfresh, hheaders, -, -, hmoved, hframe⟩ :=
    updatePolyType_stored hs hr hk htt ht' hfree hinc
  cases hupdate.symm.trans hupdate₃
  have hpoly : poly ≠ fresh.header := by
    intro hc
    rw [hc, hkfresh] at hk
    cases hk
  obtain ⟨s₁, -, halloc₁, hs₁, -, -, hheaders₁, -⟩ := allocatePoly_laid hs.toLaid hr hfree hinc
  cases halloc.symm.trans halloc₁
  have hk₁ : Function.update kinds fresh.header (some t') poly = some t := by
    rw [Function.update_of_ne hpoly]
    exact hk
  have hk₁' := Function.update_self fresh.header (some t') kinds
  obtain ⟨oldHeader, hold, hfactory⟩ := hs.factory_header hk
  obtain ⟨oldHeader', oldEntry, hold', -, holdEntry, -, holdLaid⟩ := hs₁.find hk₁
  rw [hheaders₁ poly hpoly, hold] at hold'
  cases hold'
  obtain ⟨newHeader, newEntry, hnew, -, hnewEntry, -, hnewLaid⟩ := hs₁.find hk₁'
  have halloc' : PolyFactory.allocatePoly T.toComponents fresh (factory T s) t' = some
      ({ s₁.tables with header := Function.update (factory T s).header fresh.header (some newHeader) },
        fresh.header) := by
    rw [← hnew]
    exact allocatePoly_withHeader halloc (factory T s).header
  have hdropped := dropped_components holdLaid hnewLaid s.heap.objects poly
  have hcomponents := moved_components holdLaid hnewLaid hmoved
  have hheader : ∀ x, (factory T s').header x = Function.update (Function.update
      (Function.update (factory T s).header fresh.header (some newHeader)) fresh.header
        (some { newHeader with components := typedComponents T s'.heap.objects t' fresh.header }))
      poly none x := by
    intro x
    by_cases hx : x = poly
    · rw [hx, Function.update_self]
      exact hs₃.factory_header_none (Function.update_self ..)
    rw [Function.update_of_ne hx]
    by_cases hxf : x = fresh.header
    · subst hxf
      have hkx : Function.update (Function.update kinds fresh.header (some t')) poly none fresh.header =
          some t' := by
        rw [Function.update_of_ne hx, hk₁']
      obtain ⟨header, hheader, hfactory'⟩ := hs₃.factory_header hkx
      rw [deallocatePoly_header hdealloc, Function.update_of_ne hx,
        (destruct_sameTables s₁.tables _).header, hnew] at hheader
      cases hheader
      rw [Function.update_self, hfactory']
    · rw [Function.update_of_ne hxf, Function.update_of_ne hxf]
      refine hs.factory_header_same hs₃.toLaid ?_ (hheaders x hx hxf) ?_
      · rw [Function.update_of_ne hx, Function.update_of_ne hxf]
      · intro t₀ i hkx hbit
        have hkx' : Function.update kinds fresh.header (some t') x = some t₀ := by
          rw [Function.update_of_ne hxf]
          exact hkx
        exact hframe _ (region_pos (hs.named hkx) _ hbit) (hs.region_block hkx hk hx hbit)
          (hs₁.region_block hkx' hk₁' hxf hbit)
  simp only [PolyFactory.updatePolyType, updatePolyTypeWith, if_neg htt, halloc',
    Option.bind_eq_bind, Option.bind_some, Function.update_of_ne hpoly, hfactory,
    Function.update_self, holdEntry, hnewEntry, hdropped, hcomponents]
  rw [destruct_withHeader, deallocatePoly_withHeader hdealloc, Option.bind_some, factory_eq hheader]

theorem updatePolyType_kind (hs : Stored T s kinds) (hr : Registered s.tables kinds)
    (hk : kinds poly = some t) (hfree : CanAllocate T s fresh t') (hinc : Includes t' (headerID N))
    (hupdate : updatePolyType T fresh s poly t t' = some (s', newPoly)) :
    ∃ kinds', Laid T s' kinds' ∧ kinds' newPoly = some t' := by
  by_cases htt : t' = t
  · rw [updatePolyType, if_pos htt] at hupdate
    cases hupdate
    exact ⟨kinds, hs.toLaid, htt ▸ hk⟩
  · have ht' := updatePolyType_named hs hr hk hfree hinc hupdate
    obtain ⟨s₃, hupdate₃, -, hs₃, hkfresh, -⟩ := updatePolyType_stored hs hr hk htt ht' hfree hinc
    cases hupdate.symm.trans hupdate₃
    refine ⟨_, hs₃.toLaid, ?_⟩
    have hne : fresh.header ≠ poly := by
      intro hc
      rw [← hc, hkfresh] at hk
      cases hk
    rw [Function.update_of_ne hne, Function.update_self]

theorem retype_refines (hs : Stored T s kinds) (hr : Registered s.tables kinds)
    (he : s.tables.entries.lookup id = some entry) (hfree : CanAllocate T s fresh t')
    (hinc : Includes t' (headerID N)) (hretype : retype T fresh s id entry t' = some s') :
    PolyFactory.retype T.toComponents fresh (factory T s) id entry t' = some (factory T s') := by
  obtain ⟨⟨s₁, newPoly⟩, hupdate, hrest⟩ := Option.bind_eq_some_iff.mp hretype
  obtain ⟨header, hheader, hrest⟩ := Option.bind_eq_some_iff.mp hrest
  obtain ⟨entry₁, he₁, hrest⟩ := Option.bind_eq_some_iff.mp hrest
  cases hrest
  have hrefines := updatePolyType_refines hs hr (hr.entry he).1 hfree hinc hupdate
  obtain ⟨header', hheader', ha⟩ : ∃ header', (factory T s₁).header newPoly = some header' ∧
      header'.archetype = header.archetype := by
    obtain ⟨kinds₁, hs₁, hk₁⟩ := updatePolyType_kind hs hr (hr.entry he).1 hfree hinc hupdate
    obtain ⟨header₁, hheader₁, hfactory⟩ := hs₁.factory_header hk₁
    cases hheader.symm.trans hheader₁
    exact ⟨_, hfactory, rfl⟩
  have he₁' : (factory T s₁).entries.lookup id = some entry₁ := he₁
  rw [PolyFactory.updatePolyType] at hrefines
  simp only [PolyFactory.retype, retypeWith, hrefines, hheader', he₁', ha, Option.bind_eq_bind,
    Option.bind_some]
  rfl

theorem factory_count (change : Nat → Nat) (id : PolyID) :
    factory T { s with tables := count change s.tables id } = count change (factory T s) id := by
  have hsame := count_sameTables change s.tables id
  have hheader : ∀ x, (factory T { s with tables := count change s.tables id }).header x =
      (factory T s).header x := by
    intro x
    simp only [factory, hsame.header, hsame.archetypeEntry]
    rfl
  rw [factory_eq hheader]
  exact (count_withHeader (factory T s).header change id).symm

theorem getPoly_refines (hs : Stored T s kinds) (hr : Registered s.tables kinds)
    {initialTypes : TypeID N} (hfree : CanAllocate T s fresh (initialTypes ||| headerID N))
    (hget : getPoly T fresh s id initialTypes = some s') :
    PolyFactory.getPoly T.toComponents fresh (factory T s) id initialTypes = some (factory T s') := by
  have hlookup : (factory T s).entries.lookup id = s.tables.entries.lookup id := rfl
  cases he : s.tables.entries.lookup id with
  | some entry =>
    rw [getPoly, he] at hget
    cases hget
    rw [PolyFactory.getPoly, hlookup, he, factory_count]
  | none =>
    have hkfresh := hs.unused hfree
    obtain ⟨s₁, halloc, hallocTables, hs₁, -, -, hheaders₁, hobjects₁⟩ :=
      allocatePoly_laid hs.toLaid hr hfree (includes_or initialTypes (headerID N))
    have hk₁ := Function.update_self fresh.header (some (initialTypes ||| headerID N)) kinds
    obtain ⟨header, entry, hheader, -, hentry, -, hlaid⟩ := hs₁.find hk₁
    by_cases ht : T.Named (initialTypes ||| headerID N)
    case neg =>
      simp only [getPoly, he, halloc, hheader, hentry, constructPoly_null ht hlaid,
        Option.bind_eq_bind, Option.bind_some, Option.bind_none] at hget
      cases hget
    obtain ⟨s₂, hconstruct, hblocks₂, htables₂, hobjects₂, hframe₂⟩ :=
      constructPoly_spec ht hlaid (hs₁.mem_block hk₁)
    have hs₂ : Laid T s₂ (Function.update kinds fresh.header (some (initialTypes ||| headerID N))) :=
      hs₁.same (by rw [htables₂]; exact ⟨rfl, rfl, rfl, fun _ => rfl⟩) hblocks₂
    simp only [getPoly, he, halloc, hheader, hentry, hconstruct, Option.bind_eq_bind,
      Option.bind_some] at hget
    cases hget
    have halloc' : PolyFactory.allocatePoly T.toComponents fresh (factory T s)
        (initialTypes ||| headerID N) = some ({ s₁.tables with
          header := Function.update (factory T s).header fresh.header (some header) }, fresh.header) := by
      rw [← hheader]
      exact allocatePoly_withHeader hallocTables (factory T s).header
    have hcomponents : PolyType.constructPoly T.info entry.archetype =
        typedComponents T s₂.heap.objects (initialTypes ||| headerID N) fresh.header := by
      funext i
      simp only [PolyType.constructPoly, typedComponents]
      by_cases hi : i ∈ typeIndexes N
      · simp only [hlaid.hasOffset i hi, hi, true_and]
        split
        · next hbit => rw [hobjects₂ i hi hbit]
        · rfl
      · rw [if_neg fun hc => hi hc.1, if_neg fun hc => hi hc.1]
    have hheader₂ : ∀ x, (factory T s₂).header x = Function.update
        (Function.update (factory T s).header fresh.header (some header)) fresh.header
        (some ⟨header.archetype,
          typedComponents T s₂.heap.objects (initialTypes ||| headerID N) fresh.header⟩) x := by
      intro x
      by_cases hx : x = fresh.header
      · subst hx
        obtain ⟨header₂, hh₂, hfactory⟩ := hs₂.factory_header hk₁
        rw [htables₂, hheader] at hh₂
        cases hh₂
        rw [Function.update_self, hfactory]
      · rw [Function.update_of_ne hx, Function.update_of_ne hx]
        refine hs.factory_header_same hs₂ (Function.update_of_ne hx ..) ?_ ?_
        · rw [htables₂, hheaders₁ x hx]
        · intro t₀ i hkx hbit
          have hkx' : Function.update kinds fresh.header (some (initialTypes ||| headerID N)) x =
              some t₀ := by
            rw [Function.update_of_ne hx]
            exact hkx
          have hapart := hs₁.region_block hkx' hk₁ hx hbit
          rw [hframe₂ _ (region_pos (hs.named hkx) _ hbit) hapart, hobjects₁ _ hapart]
    simp only [PolyFactory.getPoly, hlookup, he, halloc', Option.bind_eq_bind, Option.bind_some,
      Function.update_self, hentry, hcomponents]
    rw [factory_setEntry, factory_eq hheader₂, htables₂]

theorem cleanupEntry_refines (hs : Stored T s kinds) (hr : Registered s.tables kinds)
    (hcleanup : cleanupEntry T s id = some s') :
    PolyFactory.cleanupEntry T.toComponents (factory T s) id = some (factory T s') := by
  have hlookup : (factory T s).entries.lookup id = s.tables.entries.lookup id := rfl
  cases he : s.tables.entries.lookup id with
  | none =>
    rw [cleanupEntry, he] at hcleanup
    cases hcleanup
    rw [PolyFactory.cleanupEntry, cleanupEntryWith, hlookup, he]
  | some entry =>
    by_cases hzero : entry.refcount = 0
    · obtain ⟨hk, header, hheader, ha⟩ := hr.entry he
      obtain ⟨header', archetype, hheader', -, harchetype, -, hlaid⟩ := hs.find hk
      cases hheader.symm.trans hheader'
      rw [ha] at harchetype
      obtain ⟨s₁, hdestruct, hblocks₁, htables₁, hframe₁⟩ :=
        destructPoly_spec (hs.named hk) hlaid fun i hi hbit => hs.object hk hi hbit
      have hs₁ : Laid T s₁ kinds :=
        hs.toLaid.same (by rw [htables₁]; exact destruct_sameTables ..) hblocks₁
      obtain ⟨s₂, hdealloc, hdeallocTables, hs₂, -, -, hheaders₂, hobjects₂⟩ :=
        deallocatePoly_laid hs₁ hk
      simp only [cleanupEntry, he, if_pos hzero, harchetype, hdestruct, hdealloc,
        Option.bind_eq_bind, Option.bind_some] at hcleanup
      cases hcleanup
      obtain ⟨header₀, hheader₀, hfactory⟩ := hs.factory_header hk
      have hdropped : (typeIndexes N).filterMap (fun i => if archetype.archetype.HasOffset i then
          typedComponents T s.heap.objects entry.typeId entry.header i else none) =
          (typeIndexes N).flatMap (dropped T s.heap.objects entry.typeId 0 entry.header) := by
        rw [List.filterMap_eq_flatMap_toList]
        refine List.flatMap_congr fun i hi => ?_
        simp only [dropped, typedComponents, hlaid.hasOffset i hi, hi, true_and]
        by_cases hbit : entry.typeId.getLsbD i <;> simp [hbit]
      have hheader₂ : ∀ x, (factory T s₂).header x =
          Function.update (factory T s).header entry.header none x := by
        intro x
        by_cases hx : x = entry.header
        · rw [hx, Function.update_self]
          exact hs₂.factory_header_none (Function.update_self ..)
        · rw [Function.update_of_ne hx]
          refine hs.factory_header_same hs₂ (Function.update_of_ne hx ..) ?_ ?_
          · rw [hheaders₂ x hx, htables₁, (destruct_sameTables s.tables _).header]
          · intro t i hkx hbit
            have hapart := hs.region_block hkx hk hx hbit
            rw [hobjects₂ _ hapart, hframe₁ _ (region_pos (hs.named hkx) _ hbit) hapart]
      have harchetype' : (factory T s).archetypeEntry entry.archetype = some archetype := harchetype
      rw [htables₁] at hdeallocTables
      have hdealloc' := deallocatePoly_withHeader hdeallocTables (factory T s).header
      rw [← destruct_withHeader] at hdealloc'
      simp only [PolyFactory.cleanupEntry, cleanupEntryWith, hlookup, he, if_pos hzero, hfactory,
        harchetype', hdropped, Option.bind_eq_bind, Option.bind_some]
      have herase : factory T { s₂ with tables :=
          { s₂.tables with entries := s₂.tables.entries.erase id } } =
          { factory T s₂ with entries := s₂.tables.entries.erase id } := rfl
      rw [herase, factory_eq hheader₂]
      exact congrArg (Option.bind · _) hdealloc'
    · simp only [cleanupEntry, he, if_neg hzero] at hcleanup
      cases hcleanup
      simp only [PolyFactory.cleanupEntry, cleanupEntryWith, hlookup, he, if_neg hzero]

theorem cleanup_refines (order : List PolyID) : ∀ {s : PolyMemory N PolyID V CB}, Sound T s →
    cleanup T s order = some s' →
      PolyFactory.cleanup T.toComponents (factory T s) order = some (factory T s') := by
  induction order with
  | nil =>
    intro s _ hcleanup
    cases hcleanup
    rfl
  | cons id order ih =>
    intro s hs hcleanup
    obtain ⟨s₁, h₁, hs₁⟩ := cleanupEntry_sound hs id
    rw [cleanup, h₁, Option.bind_some] at hcleanup
    obtain ⟨kinds, hs, hr⟩ := hs
    have hentry := cleanupEntry_refines hs hr h₁
    rw [PolyFactory.cleanupEntry] at hentry
    rw [PolyFactory.cleanup, cleanupWith, hentry, Option.bind_some]
    exact ih hs₁ hcleanup

theorem addCallback_refines (types : TypeID N) (event : PolyEvent) (callback : CB) :
    factory T { s with tables := PolyFactory.addCallback s.tables types event callback } =
      PolyFactory.addCallback (factory T s) types event callback := by
  have hheader : ∀ x, (factory T { s with
      tables := PolyFactory.addCallback s.tables types event callback }).header x =
        (factory T s).header x := by
    intro x
    simp only [factory, PolyFactory.addCallback, Option.bind_eq_bind]
    cases s.tables.header x with
    | none => rfl
    | some header =>
      simp only [Option.bind_some]
      cases s.tables.archetypeEntry header.archetype with
      | none => rfl
      | some entry =>
        simp only [Option.map_some, Option.bind_some]
        split
        · rfl
        · rfl
  rw [factory_eq hheader]
  rfl

theorem setComponent_refines (hs : Stored T s kinds) {v : V}
    (hset : setComponent T s poly i v = some s') :
    factory T s' = PolyFactory.setComponent (factory T s) poly i v := by
  obtain ⟨t, hk, hi, hbit, htables, hblocks, hobject, hframe⟩ := setComponent_spec hs.toLaid hset
  have hs' : Laid T s' kinds :=
    hs.toLaid.same (by rw [htables]; exact ⟨rfl, rfl, rfl, fun _ => rfl⟩) hblocks
  obtain ⟨header, hheader, hfactory⟩ := hs.factory_header hk
  obtain ⟨header', hheader', hfactory'⟩ := hs'.factory_header hk
  rw [htables, hheader] at hheader'
  cases hheader'
  have hcomponents : typedComponents T s'.heap.objects t poly =
      Function.update (typedComponents T s.heap.objects t poly) i (some v) := by
    funext j
    by_cases hji : j = i
    · rw [hji, Function.update_self, typedComponents, if_pos ⟨hi, hbit⟩, hobject]
    · rw [Function.update_of_ne hji, typedComponents, typedComponents]
      split
      · next hj => rw [hframe _ (region_pos (hs.named hk) _ hj.2) (T.region_apart hj.2 hbit hji)]
      · rfl
  have hheader : ∀ x, (factory T s').header x =
      (PolyFactory.setComponent (factory T s) poly i v).header x := by
    intro x
    simp only [PolyFactory.setComponent]
    by_cases hx : x = poly
    · rw [hx, Function.update_self, hfactory, hfactory', hcomponents]
      rfl
    · rw [Function.update_of_ne hx]
      refine hs.factory_header_same hs' rfl (by rw [htables]) ?_
      intro t₀ j hkx hbit'
      have hapart := (hs.region_block hkx hk hx hbit').mono ⟨Nat.le_refl _, Nat.le_refl _⟩
        (T.region_within hbit)
      rw [hframe _ (region_pos (hs.named hkx) _ hbit') hapart]
  rw [factory_eq hheader, htables]
  rfl

/-- A call on polys in memory is the call on their components, or has no effect. -/
theorem step_refines (hs : Sound T s) {l : Label N PolyID V CB}
    (hstep : step T s l = some (some s')) :
    PolyFactory.step T.toComponents (factory T s) l = some (some (factory T s')) ∨ s' = s := by
  have hisFree : ∀ {fresh t}, CanAllocate T s fresh t → IsFree (factory T s) fresh := by
    intro fresh t hfree
    obtain ⟨kinds, hs, -⟩ := hs
    exact ⟨by rw [hs.factory_header_none (hs.unused hfree)]; rfl, hfree.1⟩
  have hlookup : ∀ id, (factory T s).entries.lookup id = s.tables.entries.lookup id := fun _ => rfl
  cases l with
  | getPoly id initialTypes fresh =>
    simp only [step] at hstep
    split at hstep
    · next hfree =>
      obtain ⟨kinds, hs, hr⟩ := hs
      rw [Option.some_inj] at hstep
      rw [PolyFactory.step, if_pos (hisFree hfree), getPoly_refines hs hr hfree hstep]
      exact Or.inl rfl
    · cases hstep
  | setTypes id newTypeId fresh =>
    simp only [step] at hstep
    split at hstep
    · next hfree =>
      rw [Option.some_inj, setTypes] at hstep
      split at hstep
      · cases hstep
        exact Or.inr rfl
      · next entry he =>
        obtain ⟨kinds, hs, hr⟩ := hs
        rw [PolyFactory.step, if_pos (hisFree hfree), PolyFactory.setTypes, setTypesWith, hlookup, he]
        exact Or.inl (congrArg some
          (retype_refines hs hr he hfree (includes_or newTypeId (headerID N)) hstep))
    · cases hstep
  | addTypes id newTypes fresh =>
    simp only [step] at hstep
    split at hstep
    · next hfree =>
      rw [Option.some_inj, addTypes] at hstep
      split at hstep
      · cases hstep
        exact Or.inr rfl
      · next entry he =>
        have hfree := hfree entry he
        rw [PolyFactory.step, if_pos (hisFree hfree), PolyFactory.addTypes, addTypesWith, hlookup, he]
        obtain ⟨kinds, hs, hr⟩ := hs
        have hinc := (hs.hosted.header (hr.entry he).1).1
        exact Or.inl (congrArg some (retype_refines hs hr he hfree (hinc.or newTypes) hstep))
    · cases hstep
  | cleanup order =>
    simp only [step] at hstep
    split at hstep
    · next hperm =>
      rw [Option.some_inj] at hstep
      have hperm' : order.Perm (factory T s).entries.keys := hperm
      rw [PolyFactory.step, if_pos hperm', cleanup_refines order hs hstep]
      exact Or.inl rfl
    · cases hstep
  | addCallback types event callback =>
    cases hstep
    rw [addCallback_refines]
    exact Or.inl rfl
  | count id refcount =>
    cases hstep
    rw [factory_count]
    exact Or.inl rfl
  | setComponent poly i v =>
    obtain ⟨s₁, hset, heq⟩ := Option.map_eq_some_iff.mp hstep
    cases heq
    obtain ⟨kinds, hs, -⟩ := hs
    rw [setComponent_refines hs hset]
    exact Or.inl rfl

/-- What polys in memory reach, their components reach. -/
theorem memoryMachine_refines (hs : (memoryMachine T).Reachable (some s)) :
    (factoryMachine T.toComponents).Reachable (some (factory T s)) := by
  generalize hr : some s = r at hs
  induction hs generalizing s with
  | init hinit =>
    cases hr.trans hinit
    exact .init rfl
  | step hreach hguard hstep ih =>
    subst hr
    obtain ⟨s₀, rfl, hstep⟩ := Option.bind_eq_some_iff.mp hstep
    rcases step_refines (sound_of_reach hreach) hstep with hrefines | rfl
    · exact .step (ih rfl) trivial hrefines
    · exact ih rfl

end PolyMemory
end CosmicArchitect.Util
