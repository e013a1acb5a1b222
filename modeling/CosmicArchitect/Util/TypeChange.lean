import CosmicArchitect.Util.PolyBlocks

/-!
# Type changes preserve shared components

`SetTypes` and `AddTypes` move the components that both types have to the new block, construct
those that only the new type has and destruct those that only the old type has. Every other block
stays as it is.
-/

namespace CosmicArchitect.Util.PolyMemory
open PolyType PolyFactory Library TypeTable

variable {N : Nat} {PolyID V CB : Type} [DecidableEq PolyID] {T : TypeTable N PolyID V}
  {s s' : PolyMemory N PolyID V CB} {t t' : TypeID N} {poly i h : Nat} {r : Region}
  {kinds : Nat → Option (TypeID N)} {fresh : Fresh} {id : PolyID} {entry : PolyEntry N}

/-! ### What leaves the invariant as it is -/

theorem Laid.same (hs : Laid T s kinds) (ht : SameTables s.tables s'.tables)
    (hb : s'.heap.blocks = s.heap.blocks) : Laid T s' kinds := by
  refine ⟨ht.hosted hs.hosted, ?_, ?_, ?_⟩
  · intro t a entry hlookup hentry
    rw [ht.archetypes] at hlookup
    rw [ht.archetypeEntry] at hentry
    exact hs.layout hlookup hentry
  · intro h hk
    rw [ht.header]
    exact hs.header hk
  · intro b
    rw [hb]
    exact hs.block b

theorem Stored.same (hs : Stored T s kinds) (ht : SameTables s.tables s'.tables)
    (hh : s'.heap = s.heap) : Stored T s' kinds := by
  refine ⟨hs.toLaid.same ht (by rw [hh]), hs.named, ?_⟩
  intro h t i hk hi hbit
  rw [hh]
  exact hs.object hk hi hbit

/-- The objects of one poly are apart from the block of another. -/
theorem Laid.region_block (hs : Laid T s kinds) {h' : Nat} (hk : kinds h = some t)
    (hk' : kinds h' = some t') (hne : h ≠ h') (hbit : t.getLsbD i) :
    (T.region t h i).Apart (T.block t' h') :=
  (hs.block_apart hk hk' hne).mono (T.region_within hbit) ⟨Nat.le_refl _, Nat.le_refl _⟩

/-! ### The three loops -/

omit [DecidableEq PolyID] in
theorem noTypes_laidOut : T.LaidOut ({} : Archetype N CB) 0 := by
  refine ⟨?_, ?_, ?_⟩
  · intro i _
    simp [Archetype.HasOffset]
  · intro i _ hbit
    simp at hbit
  · simp [offset]

omit [DecidableEq PolyID] in
theorem noTypes_named : T.Named 0 := by
  intro i hbit
  simp at hbit

theorem typeIndexes_nodup : (typeIndexes N).Nodup := List.nodup_range' ..

theorem constructPoly_spec {archetype : Archetype N CB} (ht : T.Named t)
    (hlaid : T.LaidOut archetype t) (hb : T.block t poly ∈ s.heap.blocks) :
    ∃ s', constructPoly T s archetype poly = some s' ∧ s'.heap.blocks = s.heap.blocks ∧
      s'.tables = s.tables ∧
      (∀ i ∈ typeIndexes N, t.getLsbD i →
        s'.heap.objects (T.region t poly i) = some (T.info i).construct) ∧
      ∀ r, 0 < r.size → r.Apart (T.block t poly) → s'.heap.objects r = s.heap.objects r := by
  have hno : ∀ i, ¬ (0 : TypeID N).getLsbD i := by simp
  obtain ⟨s', hloop, hblocks, htables, -, hobjects, hframe⟩ :=
    updateComponents_spec (s := s) 0 poly noTypes_named ht noTypes_laidOut hlaid
      (fun i _ hi _ => absurd hi (hno i)) (typeIndexes N) (fun _ h => h) typeIndexes_nodup
      fun i _ => ⟨fun hi => absurd hi (hno i), fun hi => ⟨_, hb, T.region_within hi⟩⟩
  have hnone : (typeIndexes N).flatMap (dropped T s.heap.objects 0 t 0) = [] :=
    List.flatMap_eq_nil_iff.mpr fun i _ => if_neg fun hc => hno i hc.1
  refine ⟨s', hloop, hblocks, ?_, ?_, ?_⟩
  · rw [htables, hnone]
    rfl
  · intro i hi hbit
    rw [hobjects i hi hbit, if_neg (hno i)]
  · intro r hr hapart
    exact hframe r hr fun i _ => ⟨fun hi => absurd hi (hno i),
      fun hi => hapart.mono ⟨Nat.le_refl _, Nat.le_refl _⟩ (T.region_within hi)⟩

theorem constructPoly_null {archetype : Archetype N CB} (ht : ¬ T.Named t)
    (hlaid : T.LaidOut archetype t) : constructPoly T s archetype poly = none :=
  updateComponents_null 0 poly noTypes_named ht noTypes_laidOut hlaid

theorem destructPoly_spec {archetype : Archetype N CB} (ht : T.Named t)
    (hlaid : T.LaidOut archetype t)
    (hobjects : ∀ i ∈ typeIndexes N, t.getLsbD i → (s.heap.objects (T.region t poly i)).isSome) :
    ∃ s', destructPoly T s archetype poly = some s' ∧ s'.heap.blocks = s.heap.blocks ∧
      s'.tables = PolyFactory.destruct T.toComponents s.tables
        ((typeIndexes N).flatMap (dropped T s.heap.objects t 0 poly)) ∧
      ∀ r, 0 < r.size → r.Apart (T.block t poly) → s'.heap.objects r = s.heap.objects r := by
  have hno : ∀ i, ¬ (0 : TypeID N).getLsbD i := by simp
  obtain ⟨s', hloop, hblocks, htables, -, -, hframe⟩ :=
    updateComponents_spec (s := s) poly 0 ht noTypes_named hlaid noTypes_laidOut
      (fun _ j _ hj => absurd hj (hno j)) (typeIndexes N) (fun _ h => h) typeIndexes_nodup
      fun i hi => ⟨hobjects i hi, fun hi => absurd hi (hno i)⟩
  refine ⟨s', hloop, hblocks, htables, ?_⟩
  intro r hr hapart
  exact hframe r hr fun i _ =>
    ⟨fun hi => hapart.mono ⟨Nat.le_refl _, Nat.le_refl _⟩ (T.region_within hi),
      fun hi => absurd hi (hno i)⟩

/-! ### `UpdatePolyType` -/

/-- The objects of the old poly are in the new one, which holds all its components then. -/
theorem Stored.moved {s₁ s' : PolyMemory N PolyID V CB} {x : Nat} (hs : Stored T s kinds)
    (hk : kinds poly = some t) (hpoly : poly ≠ x) (ht' : T.Named t')
    (hs₁ : Laid T s₁ (Function.update kinds x (some t')))
    (hs' : Laid T s' (Function.update (Function.update kinds x (some t')) poly none))
    (hmoved : ∀ i ∈ typeIndexes N, t'.getLsbD i → s'.heap.objects (T.region t' x i) =
      if t.getLsbD i then s.heap.objects (T.region t poly i) else some (T.info i).construct)
    (hframe : ∀ r, 0 < r.size → r.Apart (T.block t poly) → r.Apart (T.block t' x) →
      s'.heap.objects r = s.heap.objects r) :
    Stored T s' (Function.update (Function.update kinds x (some t')) poly none) := by
  have hk₁ : Function.update kinds x (some t') poly = some t := by
    rw [Function.update_of_ne hpoly]
    exact hk
  have hk₁' : Function.update kinds x (some t') x = some t' := Function.update_self ..
  refine ⟨hs', ?_, ?_⟩
  · intro h t₀ hk₀
    by_cases hh : h = poly
    · rw [hh, Function.update_self] at hk₀
      cases hk₀
    rw [Function.update_of_ne hh] at hk₀
    by_cases hhx : h = x
    · rw [hhx, hk₁'] at hk₀
      cases hk₀
      exact ht'
    · rw [Function.update_of_ne hhx] at hk₀
      exact hs.named hk₀
  intro h t₀ i hk₀ hi hbit
  have hh : h ≠ poly := by
    intro hc
    rw [hc, Function.update_self] at hk₀
    cases hk₀
  rw [Function.update_of_ne hh] at hk₀
  by_cases hhx : h = x
  · subst hhx
    rw [hk₁'] at hk₀
    cases hk₀
    rw [hmoved i hi hbit]
    split
    · next h => exact hs.object hk hi h
    · rfl
  · have hk₀' := hk₀
    rw [Function.update_of_ne hhx] at hk₀
    rw [hframe _ (region_pos (hs.named hk₀) _ hbit) (hs₁.region_block hk₀' hk₁ hh hbit)
      (hs₁.region_block hk₀' hk₁' hhx hbit)]
    exact hs.object hk₀ hi hbit

/-- A poly moves to a new block, and all other objects stay. -/
theorem updatePolyType_stored (hs : Stored T s kinds) (hr : Registered s.tables kinds)
    (hk : kinds poly = some t) (hne : t' ≠ t) (ht' : T.Named t') (hfree : CanAllocate T s fresh t')
    (hinc : Includes t' (headerID N)) :
    ∃ s', updatePolyType T fresh s poly t t' = some (s', fresh.header) ∧
      (∃ f, PolyFactory.allocatePoly T.toComponents fresh s.tables t' = some (f, fresh.header) ∧
        PolyFactory.deallocatePoly (PolyFactory.destruct T.toComponents f
          ((typeIndexes N).flatMap (dropped T s.heap.objects t t' poly))) t poly = some s'.tables) ∧
      Stored T s' (Function.update (Function.update kinds fresh.header (some t')) poly none) ∧
      kinds fresh.header = none ∧
      (∀ x, x ≠ poly → x ≠ fresh.header → s'.tables.header x = s.tables.header x) ∧
      (∀ id, (s'.tables.entries.lookup id).map PolyEntry.table =
        (s.tables.entries.lookup id).map PolyEntry.table) ∧
      s'.calls = s.calls ++ (typeIndexes N).filterMap (typeCall T t t' poly fresh.header) ∧
      (∀ i ∈ typeIndexes N, t'.getLsbD i → s'.heap.objects (T.region t' fresh.header i) =
        if t.getLsbD i then s.heap.objects (T.region t poly i) else some (T.info i).construct) ∧
      ∀ r, 0 < r.size → r.Apart (T.block t poly) → r.Apart (T.block t' fresh.header) →
        s'.heap.objects r = s.heap.objects r := by
  have hkfresh := hs.unused hfree
  have hpoly : poly ≠ fresh.header := by
    intro hc
    rw [hc, hkfresh] at hk
    cases hk
  obtain ⟨s₁, halloc, hallocTables, hs₁, hentries₁, hcalls₁, hheaders₁, hobjects₁⟩ :=
    allocatePoly_laid hs.toLaid hr hfree hinc
  have hk₁ : Function.update kinds fresh.header (some t') poly = some t := by
    rw [Function.update_of_ne hpoly]
    exact hk
  have hk₁' : Function.update kinds fresh.header (some t') fresh.header = some t' :=
    Function.update_self ..
  obtain ⟨oldHeader, oldEntry, hold, -, holdEntry, -, holdLaid⟩ := hs₁.find hk₁
  obtain ⟨newHeader, newEntry, hnew, -, hnewEntry, -, hnewLaid⟩ := hs₁.find hk₁'
  -- the components of the old poly lie apart from the new block
  have hsource : ∀ i, t.getLsbD i →
      s₁.heap.objects (T.region t poly i) = s.heap.objects (T.region t poly i) := by
    intro i hbit
    exact hobjects₁ _ (hs₁.region_block hk₁ hk₁' hpoly hbit)
  have hapart : ∀ i j, t.getLsbD i → t'.getLsbD j →
      (T.region t poly i).Apart (T.region t' fresh.header j) := by
    intro i j hi hj
    exact (hs₁.block_apart hk₁ hk₁' hpoly).mono (T.region_within hi) (T.region_within hj)
  obtain ⟨s₂, hloop, hblocks₂, htables₂, hcalls₂, hobjects₂, hframe₂⟩ :=
    updateComponents_spec (s := s₁) _ _ (hs.named hk) ht' holdLaid hnewLaid hapart (typeIndexes N) (fun _ h => h)
      typeIndexes_nodup fun i hi => by
        refine ⟨fun hbit => ?_, fun hbit => ⟨_, hs₁.mem_block hk₁', T.region_within hbit⟩⟩
        rw [hsource i hbit]
        exact hs.object hk hi hbit
  have hsame : SameTables s₁.tables s₂.tables := by
    rw [htables₂]
    exact destruct_sameTables ..
  have hs₂ := hs₁.same hsame hblocks₂
  obtain ⟨s₃, hdealloc, hdeallocTables, hs₃, hentries₃, hcalls₃, hheaders₃, hobjects₃⟩ :=
    deallocatePoly_laid hs₂ hk₁
  have hmoved : ∀ i ∈ typeIndexes N, t'.getLsbD i → s₃.heap.objects (T.region t' fresh.header i) =
      if t.getLsbD i then s.heap.objects (T.region t poly i) else some (T.info i).construct := by
    intro i hi hbit
    rw [hobjects₃ _ (hs₁.region_block hk₁' hk₁ (Ne.symm hpoly) hbit), hobjects₂ i hi hbit]
    split
    · next h => exact hsource i h
    · rfl
  have hframe : ∀ r, 0 < r.size → r.Apart (T.block t poly) → r.Apart (T.block t' fresh.header) →
      s₃.heap.objects r = s.heap.objects r := by
    intro r hr hold' hnew'
    rw [hobjects₃ r hold', hframe₂ r hr fun i _ =>
      ⟨fun h => hold'.mono ⟨Nat.le_refl _, Nat.le_refl _⟩ (T.region_within h),
        fun h => hnew'.mono ⟨Nat.le_refl _, Nat.le_refl _⟩ (T.region_within h)⟩]
    exact hobjects₁ r hnew'
  have hdropped : (typeIndexes N).flatMap (dropped T s₁.heap.objects t t' poly) =
      (typeIndexes N).flatMap (dropped T s.heap.objects t t' poly) := by
    refine List.flatMap_congr fun i _ => ?_
    simp only [dropped]
    split
    · next h => rw [hsource i h.1]
    · rfl
  rw [htables₂, hdropped] at hdeallocTables
  refine ⟨s₃, ?_, ⟨_, hallocTables, hdeallocTables⟩, hs.moved hk hpoly ht' hs₁ hs₃ hmoved hframe,
    hkfresh, ?_, ?_, ?_, hmoved, hframe⟩
  · simp only [updatePolyType, if_neg hne, halloc, hold, hnew, holdEntry, hnewEntry, hloop, hdealloc,
      Option.bind_eq_bind, Option.bind_some]
  · intro x hx hxf
    rw [hheaders₃ x hx, hsame.header, hheaders₁ x hxf]
  · intro id
    rw [hentries₃, hsame.entries, hentries₁]
  · rw [hcalls₃, hcalls₂, hcalls₁]

/-- To a type without an entry no poly moves. -/
theorem updatePolyType_null (hs : Stored T s kinds) (hr : Registered s.tables kinds)
    (hk : kinds poly = some t) (ht' : ¬ T.Named t') (hfree : CanAllocate T s fresh t')
    (hinc : Includes t' (headerID N)) : updatePolyType T fresh s poly t t' = none := by
  have hne : t' ≠ t := fun hc => ht' (hc ▸ hs.named hk)
  have hkfresh := hs.unused hfree
  obtain ⟨s₁, halloc, -, hs₁, -⟩ := allocatePoly_laid hs.toLaid hr hfree hinc
  have hk₁ : Function.update kinds fresh.header (some t') poly = some t := by
    rw [Function.update_of_ne fun hc => ?_]
    · exact hk
    · rw [hc, hkfresh] at hk
      cases hk
  obtain ⟨oldHeader, oldEntry, hold, -, holdEntry, -, holdLaid⟩ := hs₁.find hk₁
  obtain ⟨newHeader, newEntry, hnew, -, hnewEntry, -, hnewLaid⟩ :=
    hs₁.find (Function.update_self fresh.header (some t') kinds)
  simp only [updatePolyType, if_neg hne, halloc, hold, hnew, holdEntry, hnewEntry,
    updateComponents_null _ _ (hs.named hk) ht' holdLaid hnewLaid, Option.bind_eq_bind,
    Option.bind_some, Option.bind_none]

/-- The type to which a poly moves is a set of component types. -/
theorem updatePolyType_named (hs : Stored T s kinds) (hr : Registered s.tables kinds)
    (hk : kinds poly = some t) (hfree : CanAllocate T s fresh t') (hinc : Includes t' (headerID N))
    {r : PolyMemory N PolyID V CB × Nat} (hupdate : updatePolyType T fresh s poly t t' = some r) :
    T.Named t' := by
  by_contra hc
  rw [updatePolyType_null hs hr hk hc hfree hinc] at hupdate
  cases hupdate

/-! ### What references see -/

/-- A reference to a poly of the type leads to its archetype and its block. -/
structure Sees (T : TypeTable N PolyID V) (s : PolyMemory N PolyID V CB) (ref : PolyID)
    (typeId : TypeID N) (poly : Nat) : Prop where
  id : getTypeID s ref = some typeId
  type : ∃ archetype, getType s ref = some archetype ∧ archetype.id = typeId
  header : getHeader s ref = some poly
  /-- the archetype that a `Ptr` finds in the header -/
  ptr : ∃ header, s.tables.header poly = some header ∧
    (s.tables.archetypeEntry header.archetype).map (·.archetype) = getType s ref
  block : T.block typeId poly ∈ s.heap.blocks

theorem Stored.sees (hs : Stored T s kinds) (hr : Registered s.tables kinds)
    (he : s.tables.entries.lookup id = some entry) : Sees T s id entry.typeId entry.header := by
  obtain ⟨hk, header, hheader, ha⟩ := hr.entry he
  obtain ⟨header', a, hheader', -, hentry, hid, -⟩ := hs.find hk
  cases hheader.symm.trans hheader'
  rw [ha] at hentry
  have htype : getType s id = some a.archetype := by
    simp only [getType, he, hentry, Option.bind_some, Option.map_some]
  refine ⟨by rw [getTypeID, he]; rfl, ⟨a.archetype, htype, hid⟩, by rw [getHeader, he]; rfl,
    ⟨header, hheader, ?_⟩, hs.mem_block hk⟩
  rw [ha, hentry, htype]
  rfl

/-- `Get` of a component reads the object in its region. -/
theorem Stored.get (hs : Stored T s kinds) (hr : Registered s.tables kinds)
    (he : s.tables.entries.lookup id = some entry) (hi : i ∈ typeIndexes N)
    (hbit : entry.typeId.getLsbD i) :
    get T s id i = s.heap.objects (T.region entry.typeId entry.header i) := by
  obtain ⟨hk, header, hheader, ha⟩ := hr.entry he
  obtain ⟨header', a, hheader', -, hentry, -, hlaid⟩ := hs.find hk
  cases hheader.symm.trans hheader'
  rw [ha] at hentry
  simp only [PolyMemory.get, getType, getHeader, he, hentry, Option.bind_eq_bind, Option.bind_some,
    Option.map_some, region, componentPtr_eq hlaid hi hbit]

/-! ### `SetTypes` and `AddTypes` -/

/-- The component type of a call that constructs. -/
def constructed : TypeCall → Option Nat
  | .construct i _ => some i
  | _ => none

/-- The component type of a call that destructs. -/
def destructed : TypeCall → Option Nat
  | .destruct i _ => some i
  | _ => none

omit [DecidableEq PolyID] in
theorem filterMap_constructed (l : List Nat) (poly poly' : Nat) :
    (l.filterMap (typeCall T t t' poly poly')).filterMap constructed =
      l.filter fun i => !t.getLsbD i && t'.getLsbD i := by
  rw [List.filterMap_filterMap, ← List.filterMap_eq_filter]
  congr 1
  funext i
  cases hbit : t.getLsbD i <;> cases hbit' : t'.getLsbD i <;>
    simp [typeCall, Option.guard, hbit, hbit', constructed]

omit [DecidableEq PolyID] in
theorem filterMap_destructed (l : List Nat) (poly poly' : Nat) :
    (l.filterMap (typeCall T t t' poly poly')).filterMap destructed =
      l.filter fun i => t.getLsbD i && !t'.getLsbD i := by
  rw [List.filterMap_filterMap, ← List.filterMap_eq_filter]
  congr 1
  funext i
  cases hbit : t.getLsbD i <;> cases hbit' : t'.getLsbD i <;>
    simp [typeCall, Option.guard, hbit, hbit', destructed]

/-- The type of a poly changes from `t` to `t'`. -/
structure TypeChanged (T : TypeTable N PolyID V) (s s' : PolyMemory N PolyID V CB) (id : PolyID)
    (t t' : TypeID N) : Prop where
  kept : ∀ i ∈ typeIndexes N, t.getLsbD i → t'.getLsbD i →
    ∃ v, get T s id i = some v ∧ get T s' id i = some v
  added : ∀ i ∈ typeIndexes N, ¬ t.getLsbD i → t'.getLsbD i →
    get T s' id i = some (T.info i).construct
  calls : ∃ calls, s'.calls = s.calls ++ calls ∧
    calls.filterMap constructed = (typeIndexes N).filter (fun i => !t.getLsbD i && t'.getLsbD i) ∧
    calls.filterMap destructed = (typeIndexes N).filter (fun i => t.getLsbD i && !t'.getLsbD i)
  others : ∀ id' t₀ poly, id' ≠ id → Sees T s id' t₀ poly → Sees T s' id' t₀ poly ∧
    ∀ i ∈ typeIndexes N, t₀.getLsbD i → ∃ v, get T s id' i = some v ∧ get T s' id' i = some v
  seen : ∃ poly, Sees T s' id t' poly

theorem Stored.withEntries (hs : Stored T s kinds) (entries : AList fun _ : PolyID => PolyEntry N) :
    Stored T { s with tables := { s.tables with entries := entries } } kinds where
  hosted := hs.hosted.congr rfl (fun h => ⟨_, h, rfl, rfl, rfl⟩) fun h => ⟨_, h, rfl⟩
  layout := hs.layout
  header := hs.header
  block := hs.block
  named := hs.named
  object := hs.object

/-- The block of the poly has changed, and nothing apart from it. -/
theorem typeChanged_of {kinds' : Nat → Option (TypeID N)} {entry' : PolyEntry N} {calls : List TypeCall}
    (hs : Stored T s kinds) (hr : Registered s.tables kinds)
    (he : s.tables.entries.lookup id = some entry) (hs' : Stored T s' kinds')
    (hr' : Registered s'.tables kinds') (he' : s'.tables.entries.lookup id = some entry')
    (hentries : ∀ id', id' ≠ id → (s'.tables.entries.lookup id').map PolyEntry.table =
      (s.tables.entries.lookup id').map PolyEntry.table)
    (hobjects : ∀ i ∈ typeIndexes N, entry'.typeId.getLsbD i →
      s'.heap.objects (T.region entry'.typeId entry'.header i) =
        if entry.typeId.getLsbD i then s.heap.objects (T.region entry.typeId entry.header i)
        else some (T.info i).construct)
    (hframe : ∀ r, 0 < r.size → r.Apart (T.block entry.typeId entry.header) →
      r.Apart (T.block entry'.typeId entry'.header) → s'.heap.objects r = s.heap.objects r)
    (hcalls : s'.calls = s.calls ++ calls)
    (hconstructed : calls.filterMap constructed =
      (typeIndexes N).filter fun i => !entry.typeId.getLsbD i && entry'.typeId.getLsbD i)
    (hdestructed : calls.filterMap destructed =
      (typeIndexes N).filter fun i => entry.typeId.getLsbD i && !entry'.typeId.getLsbD i) :
    TypeChanged T s s' id entry.typeId entry'.typeId := by
  refine ⟨?_, ?_, ⟨calls, hcalls, hconstructed, hdestructed⟩, ?_, ⟨_, hs'.sees hr' he'⟩⟩
  · intro i hi hbit hbit'
    obtain ⟨v, hv⟩ := Option.isSome_iff_exists.mp (hs.object (hr.entry he).1 hi hbit)
    refine ⟨v, by rw [hs.get hr he hi hbit, hv], ?_⟩
    rw [hs'.get hr' he' hi hbit', hobjects i hi hbit', if_pos hbit, hv]
  · intro i hi hbit hbit'
    rw [hs'.get hr' he' hi hbit', hobjects i hi hbit', if_neg hbit]
  · intro id' t₀ poly hne hsees
    obtain ⟨e₀, he₀, rfl⟩ := Option.map_eq_some_iff.mp hsees.id
    have hpoly := hsees.header
    rw [getHeader, he₀, Option.map_some, Option.some_inj] at hpoly
    obtain ⟨e₀', he₀', htable⟩ : ∃ e₀', s'.tables.entries.lookup id' = some e₀' ∧
        PolyEntry.table e₀' = PolyEntry.table e₀ := by
      have h := hentries id' hne
      rw [he₀, Option.map_some] at h
      exact Option.map_eq_some_iff.mp h
    simp only [PolyEntry.table, Prod.mk.injEq] at htable
    obtain ⟨htype, -, hheader⟩ := htable
    rw [← hpoly]
    have hsees' := hs'.sees hr' he₀'
    rw [htype, hheader] at hsees'
    refine ⟨hsees', fun i hi hbit => ?_⟩
    obtain ⟨v, hv⟩ := Option.isSome_iff_exists.mp (hs.object (hr.entry he₀).1 hi hbit)
    refine ⟨v, by rw [hs.get hr he₀ hi hbit, hv], ?_⟩
    -- the block of another poly is apart from the old and from the new one
    have hold : e₀.header ≠ entry.header := fun hc => hne (hr.inj he₀ he hc)
    have hnew : e₀'.header ≠ entry'.header := fun hc => hne (hr'.inj he₀' he' hc)
    have hbit' : e₀'.typeId.getLsbD i := by rw [htype]; exact hbit
    have happart := hs'.region_block (hr'.entry he₀').1 (hr'.entry he').1 hnew hbit'
    rw [htype, hheader] at happart
    rw [hs'.get hr' he₀' hi hbit', htype, hheader, ← hv]
    exact hframe _ (region_pos (hs.named (hr.entry he₀).1) _ hbit)
      (hs.region_block (hr.entry he₀).1 (hr.entry he).1 hold hbit) happart

/-- For the type that the poly has already, its entry is written again. -/
theorem retype_same (fresh : Fresh) (hs : Stored T s kinds) (hr : Registered s.tables kinds)
    (he : s.tables.entries.lookup id = some entry) :
    ∃ s', retype T fresh s id entry entry.typeId = some s' ∧ Stored T s' kinds ∧
      Registered s'.tables kinds ∧ TypeChanged T s s' id entry.typeId entry.typeId := by
  obtain ⟨hk, header, hheader, ha⟩ := hr.entry he
  have hs' := hs.withEntries (s.tables.entries.insert id
    ⟨entry.typeId, header.archetype, entry.header, entry.refcount⟩)
  have hr' := hr.retype he (fun _ => rfl) hk hheader (fun _ _ _ => ⟨rfl, rfl⟩)
    (fun hc => absurd rfl hc) entry.refcount
  have he' := s.setEntry_lookup id
    ⟨entry.typeId, header.archetype, entry.header, entry.refcount⟩
  have hchanged := typeChanged_of hs hr he hs' hr' he'
    (fun id' hne => congrArg _ (s.setEntry_lookup_ne _ hne)) (fun i _ hbit => (if_pos hbit).symm)
    (fun _ _ _ _ => rfl) (List.append_nil _).symm (by simp) (by simp)
  refine ⟨s.setEntry id ⟨entry.typeId, header.archetype, entry.header, entry.refcount⟩, ?_, hs', hr',
    hchanged⟩
  simp only [retype, updatePolyType, if_pos, hheader, he, Option.bind_eq_bind, Option.bind_some]

/-- For another type the poly moves, and its entry with it. -/
theorem retype_moves (hs : Stored T s kinds) (hr : Registered s.tables kinds)
    (he : s.tables.entries.lookup id = some entry) (htt : t' ≠ entry.typeId) (ht' : T.Named t')
    (hfree : CanAllocate T s fresh t') (hinc : Includes t' (headerID N)) :
    ∃ s' kinds', retype T fresh s id entry t' = some s' ∧ Stored T s' kinds' ∧
      Registered s'.tables kinds' ∧ TypeChanged T s s' id entry.typeId t' := by
  obtain ⟨hk, -⟩ := hr.entry he
  obtain ⟨s₁, hupdate, -, hs₁, hkfresh, hheaders, hentries, hcalls, hmoved, hframe⟩ :=
    updatePolyType_stored hs hr hk htt ht' hfree hinc
  have hne : fresh.header ≠ entry.header := by
    intro hc
    rw [← hc, hkfresh] at hk
    cases hk
  have hk₁ : Function.update (Function.update kinds fresh.header (some t')) entry.header none
      fresh.header = some t' := by
    rw [Function.update_of_ne hne, Function.update_self]
  obtain ⟨header, -, hheader, -⟩ := hs₁.find hk₁
  obtain ⟨entry₁, he₁⟩ : ∃ entry₁, s₁.tables.entries.lookup id = some entry₁ := by
    have hid := hentries id
    rw [he, Option.map_some] at hid
    obtain ⟨entry₁, he₁, -⟩ := Option.map_eq_some_iff.mp hid
    exact ⟨entry₁, he₁⟩
  have hs' := hs₁.withEntries (s₁.tables.entries.insert id
    ⟨t', header.archetype, fresh.header, entry₁.refcount⟩)
  have hothers : ∀ x, x ≠ entry.header → x ≠ fresh.header →
      Function.update (Function.update kinds fresh.header (some t')) entry.header none x = kinds x ∧
        s₁.tables.header x = s.tables.header x := by
    intro x hx hxf
    exact ⟨by rw [Function.update_of_ne hx, Function.update_of_ne hxf], hheaders x hx hxf⟩
  have hr' := hr.retype he hentries hk₁ hheader hothers
    (fun _ => ⟨Function.update_self .., hkfresh⟩) entry₁.refcount
  refine ⟨s₁.setEntry id ⟨t', header.archetype, fresh.header, entry₁.refcount⟩, _, ?_, hs', hr',
    typeChanged_of hs hr he hs' hr' (s₁.setEntry_lookup id _) ?_ hmoved hframe hcalls
      (filterMap_constructed ..) (filterMap_destructed ..)⟩
  · simp only [retype, hupdate, hheader, he₁, Option.bind_eq_bind, Option.bind_some]
  · intro id' hne'
    exact (congrArg _ (s₁.setEntry_lookup_ne _ hne')).trans (hentries id')

/-- The entry of a poly moves to another type, and no other entry does. -/
theorem retype_changed (hs : Stored T s kinds) (hr : Registered s.tables kinds)
    (he : s.tables.entries.lookup id = some entry) (ht' : T.Named t')
    (hfree : CanAllocate T s fresh t') (hinc : Includes t' (headerID N)) :
    ∃ s' kinds', retype T fresh s id entry t' = some s' ∧ Stored T s' kinds' ∧
      Registered s'.tables kinds' ∧ TypeChanged T s s' id entry.typeId t' := by
  by_cases htt : t' = entry.typeId
  · subst htt
    obtain ⟨s', hretype⟩ := retype_same fresh hs hr he
    exact ⟨s', kinds, hretype⟩
  · exact retype_moves hs hr he htt ht' hfree hinc

theorem retype_null (hs : Stored T s kinds) (hr : Registered s.tables kinds)
    (he : s.tables.entries.lookup id = some entry) (ht' : ¬ T.Named t')
    (hfree : CanAllocate T s fresh t') (hinc : Includes t' (headerID N)) :
    retype T fresh s id entry t' = none := by
  rw [retype, updatePolyType_null hs hr (hr.entry he).1 ht' hfree hinc]
  rfl

/-! ### All calls -/

/-- The state of a factory between two calls. -/
def Sound (T : TypeTable N PolyID V) (s : PolyMemory N PolyID V CB) : Prop :=
  ∃ kinds, Stored T s kinds ∧ Registered s.tables kinds

theorem Sound.same (hs : Sound T s) (ht : SameTables s.tables s'.tables) (hh : s'.heap = s.heap) :
    Sound T s' := by
  obtain ⟨kinds, hstored, hr⟩ := hs
  exact ⟨kinds, hstored.same ht hh, ht.registered hr⟩

theorem sound_empty : Sound T ({} : PolyMemory N PolyID V CB) := by
  refine ⟨fun _ => none, ⟨⟨⟨⟨?_, ?_⟩, ?_⟩, ?_, fun _ => rfl, ?_⟩, ?_, ?_⟩, ⟨?_, ?_, ?_⟩⟩
  · intro t a h
    cases h
  · intro h t hk
    cases hk
  · intro t a h
    cases h
  · intro t a entry h
    cases h
  · intro b
    exact ⟨fun h => (by cases h), fun h => (by obtain ⟨t, hc, -⟩ := h; cases hc)⟩
  · intro h t hk
    cases hk
  · intro h t i hk
    cases hk
  · intro id e h
    cases h
  · intro h t hk
    cases hk
  · intro id id' e e' h
    cases h

theorem getPoly_sound (hs : Sound T s) {initialTypes : TypeID N}
    (hfree : CanAllocate T s fresh (initialTypes ||| headerID N))
    (hget : getPoly T fresh s id initialTypes = some s') : Sound T s' := by
  cases he : s.tables.entries.lookup id with
  | some entry =>
    rw [getPoly, he] at hget
    cases hget
    exact hs.same (count_sameTables (· + 1) s.tables id) rfl
  | none =>
    obtain ⟨kinds, hs, hr⟩ := hs
    have hkfresh := hs.unused hfree
    obtain ⟨s₁, halloc, -, hs₁, hentries₁, -, hheaders₁, hobjects₁⟩ :=
      allocatePoly_laid hs.toLaid hr hfree (includes_or initialTypes (headerID N))
    have hk₁ := Function.update_self fresh.header (some (initialTypes ||| headerID N)) kinds
    obtain ⟨header, entry, hheader, -, hentry, -, hlaid⟩ := hs₁.find hk₁
    by_cases ht : T.Named (initialTypes ||| headerID N)
    case neg =>
      simp only [getPoly, he, halloc, hheader, hentry, constructPoly_null ht hlaid,
        Option.bind_eq_bind, Option.bind_some, Option.bind_none] at hget
      cases hget
    obtain ⟨s₂, hconstruct, hblocks₂, htables₂, hobjects₂, hframe₂⟩ :=
      constructPoly_spec ht hlaid (hs₁.mem_block hk₁)
    have hs₂ : Stored T s₂
        (Function.update kinds fresh.header (some (initialTypes ||| headerID N))) := by
      refine ⟨hs₁.same (by rw [htables₂]; exact ⟨rfl, rfl, rfl, fun _ => rfl⟩) hblocks₂, ?_, ?_⟩
      · intro h t hk
        by_cases hh : h = fresh.header
        · rw [hh, hk₁] at hk
          cases hk
          exact ht
        · rw [Function.update_of_ne hh] at hk
          exact hs.named hk
      intro h t i hk hi hbit
      by_cases hh : h = fresh.header
      · subst hh
        rw [hk₁] at hk
        cases hk
        rw [hobjects₂ i hi hbit]
        rfl
      · have hapart := hs₁.region_block hk hk₁ hh hbit
        rw [Function.update_of_ne hh] at hk
        rw [hframe₂ _ (region_pos (hs.named hk) _ hbit) hapart, hobjects₁ _ hapart]
        exact hs.object hk hi hbit
    simp only [getPoly, he, halloc, hheader, hentry, hconstruct, Option.bind_eq_bind,
      Option.bind_some] at hget
    cases hget
    rw [← htables₂] at hentries₁ hheader hheaders₁
    exact ⟨_, hs₂.withEntries _, hr.insert he hentries₁ hkfresh hheader hheaders₁ 1⟩

theorem cleanupEntry_sound (hs : Sound T s) (id : PolyID) :
    ∃ s', cleanupEntry T s id = some s' ∧ Sound T s' := by
  cases he : s.tables.entries.lookup id with
  | none => exact ⟨s, by rw [cleanupEntry, he], hs⟩
  | some entry =>
    by_cases hzero : entry.refcount = 0
    · obtain ⟨kinds, hs, hr⟩ := hs
      obtain ⟨hk, header, hheader, ha⟩ := hr.entry he
      obtain ⟨header', archetype, hheader', -, harchetype, -, hlaid⟩ := hs.find hk
      cases hheader.symm.trans hheader'
      rw [ha] at harchetype
      obtain ⟨s₁, hdestruct, hblocks₁, htables₁, hframe₁⟩ :=
        destructPoly_spec (hs.named hk) hlaid fun i hi hbit => hs.object hk hi hbit
      have hsame : SameTables s.tables s₁.tables := by
        rw [htables₁]
        exact destruct_sameTables ..
      have hs₁ := hs.toLaid.same hsame hblocks₁
      obtain ⟨s₂, hdealloc, -, hs₂, hentries₂, -, hheaders₂, hobjects₂⟩ := deallocatePoly_laid hs₁ hk
      have hstored : Stored T s₂ (Function.update kinds entry.header none) := by
        refine ⟨hs₂, ?_, ?_⟩
        · intro h t hkh
          by_cases hh : h = entry.header
          · rw [hh, Function.update_self] at hkh
            cases hkh
          · rw [Function.update_of_ne hh] at hkh
            exact hs.named hkh
        intro h t i hkh hi hbit
        have hh : h ≠ entry.header := by
          intro hc
          rw [hc, Function.update_self] at hkh
          cases hkh
        rw [Function.update_of_ne hh] at hkh
        have hapart := hs.region_block hkh hk hh hbit
        rw [hobjects₂ _ hapart, hframe₁ _ (region_pos (hs.named hkh) _ hbit) hapart]
        exact hs.object hkh hi hbit
      obtain ⟨entry', he', -, -, hh'⟩ := hsame.symm.lookup he
      have hr₂ := (hsame.registered hr).erase he' hentries₂ (by rw [← hh']; exact hheaders₂)
      refine ⟨{ s₂ with tables := { s₂.tables with entries := s₂.tables.entries.erase id } }, ?_, _,
        hstored.withEntries _, ?_⟩
      · simp only [cleanupEntry, he, if_pos hzero, harchetype, hdestruct, hdealloc,
          Option.bind_eq_bind, Option.bind_some]
      · rw [← hh'] at hr₂
        exact hr₂
    · exact ⟨s, by simp only [cleanupEntry, he, if_neg hzero], hs⟩

theorem cleanup_sound (order : List PolyID) : ∀ {s : PolyMemory N PolyID V CB}, Sound T s →
    ∃ s', cleanup T s order = some s' ∧ Sound T s' := by
  induction order with
  | nil =>
    intro s hs
    exact ⟨s, rfl, hs⟩
  | cons id order ih =>
    intro s hs
    obtain ⟨s₁, h₁, hs₁⟩ := cleanupEntry_sound hs id
    obtain ⟨s', h', hs'⟩ := ih hs₁
    exact ⟨s', by rw [cleanup, h₁, Option.bind_some, h'], hs'⟩

theorem addCallback_sound (hs : Sound T s) (types : TypeID N) (event : PolyEvent) (callback : CB) :
    Sound T { s with tables := PolyFactory.addCallback s.tables types event callback } := by
  obtain ⟨kinds, hs, hr⟩ := hs
  have hrow : ∀ {a entry}, s.tables.archetypeEntry a = some entry → ∃ entry',
      (PolyFactory.addCallback s.tables types event callback).archetypeEntry a = some entry' ∧
        entry'.archetype.id = entry.archetype.id ∧ entry'.polys = entry.polys ∧
        entry'.refcount = entry.refcount := by
    intro a entry ha
    refine ⟨_, by simp only [PolyFactory.addCallback, ha, Option.map_some]; rfl, ?_⟩
    split
    · exact ⟨rfl, rfl, rfl⟩
    · exact ⟨rfl, rfl, rfl⟩
  refine ⟨kinds, ⟨⟨hs.hosted.congr rfl hrow fun h => ⟨_, h, rfl⟩, ?_, hs.header, hs.block⟩, hs.named,
    hs.object⟩, ⟨hr.entry, hr.owner, hr.inj⟩⟩
  intro t a entry' ht he'
  simp only [PolyFactory.addCallback] at ht he'
  obtain ⟨entry, he, heq⟩ := Option.map_eq_some_iff.mp he'
  have hlaid := hs.layout ht he
  rw [← heq]
  split
  · exact ⟨hlaid.hasOffset, hlaid.offset, hlaid.totalSize⟩
  · exact hlaid

/-- An assignment changes one object. -/
theorem setComponent_spec (hs : Laid T s kinds) {v : V} (hstep : setComponent T s poly i v = some s') :
    ∃ t, kinds poly = some t ∧ i ∈ typeIndexes N ∧ t.getLsbD i ∧ s'.tables = s.tables ∧
      s'.heap.blocks = s.heap.blocks ∧ s'.heap.objects (T.region t poly i) = some v ∧
      ∀ r, 0 < r.size → r.Apart (T.region t poly i) → s'.heap.objects r = s.heap.objects r := by
  obtain ⟨header, hheader, hstep⟩ := Option.bind_eq_some_iff.mp hstep
  obtain ⟨entry, hentry, hstep⟩ := Option.bind_eq_some_iff.mp hstep
  obtain ⟨t, hk⟩ : ∃ t, kinds poly = some t := by
    refine Option.ne_none_iff_exists'.mp fun hc => ?_
    rw [hs.header hc] at hheader
    cases hheader
  obtain ⟨header', entry', hheader', -, hentry', -, hlaid⟩ := hs.find hk
  cases hheader.symm.trans hheader'
  cases hentry.symm.trans hentry'
  by_cases hi : i ∈ typeIndexes N ∧ entry.archetype.HasOffset i
  · rw [if_pos hi] at hstep
    obtain ⟨hi, hoffset⟩ := hi
    have hbit := (hlaid.hasOffset i hi).mp hoffset
    have hwithin : (T.region t poly i).Within (T.block t poly) := T.region_within hbit
    obtain ⟨heap, hplace, hblocks, hobject, hframe⟩ :=
      s.heap.place_spec (hs.mem_block hk) hwithin v
    rw [componentPtr_eq hlaid hi hbit] at hstep
    rw [region] at hplace
    rw [hplace] at hstep
    cases hstep
    exact ⟨t, hk, hi, hbit, rfl, hblocks, hobject,
      fun r hr hapart => hframe r hapart.symm (hapart.ne hr)⟩
  · rw [if_neg hi] at hstep
    cases hstep

theorem setComponent_sound (hs : Sound T s) {v : V} (hstep : setComponent T s poly i v = some s') :
    Sound T s' := by
  obtain ⟨kinds, hs, hr⟩ := hs
  obtain ⟨t, hk, hi, hbit, htables, hblocks, hobject, hframe⟩ := setComponent_spec hs.toLaid hstep
  have hsame : SameTables s.tables s'.tables := by
    rw [htables]
    exact ⟨rfl, rfl, rfl, fun _ => rfl⟩
  refine ⟨kinds, ⟨hs.toLaid.same hsame hblocks, hs.named, ?_⟩, hsame.registered hr⟩
  intro h t' j hk' hj hbit'
  by_cases hh : h = poly
  · subst hh
    cases hk.symm.trans hk'
    by_cases hji : j = i
    · rw [hji, hobject]
      rfl
    · rw [hframe _ (region_pos (hs.named hk') _ hbit') (T.region_apart hbit' hbit hji)]
      exact hs.object hk' hj hbit'
  · have hapart := (hs.region_block hk' hk hh hbit').mono ⟨Nat.le_refl _, Nat.le_refl _⟩
      (T.region_within hbit)
    rw [hframe _ (region_pos (hs.named hk') _ hbit') hapart]
    exact hs.object hk' hj hbit'

/-- A type change that ends leaves the factory sound. -/
theorem retype_sound (hs : Stored T s kinds) (hr : Registered s.tables kinds)
    (he : s.tables.entries.lookup id = some entry) (hfree : CanAllocate T s fresh t')
    (hinc : Includes t' (headerID N)) (hretype : retype T fresh s id entry t' = some s') :
    Sound T s' := by
  by_cases ht' : T.Named t'
  · obtain ⟨s₁, kinds', hretype₁, hs₁, hr₁, -⟩ := retype_changed hs hr he ht' hfree hinc
    cases hretype.symm.trans hretype₁
    exact ⟨kinds', hs₁, hr₁⟩
  · rw [retype_null hs hr he ht' hfree hinc] at hretype
    cases hretype

theorem step_sound (hs : Sound T s) {l : Label N PolyID V CB}
    (hstep : step T s l = some (some s')) : Sound T s' := by
  cases l with
  | getPoly id initialTypes fresh =>
    simp only [step] at hstep
    split at hstep
    · next hfree => exact getPoly_sound hs hfree (Option.some.inj hstep)
    · cases hstep
  | setTypes id newTypeId fresh =>
    simp only [step] at hstep
    split at hstep
    · next hfree =>
      rw [Option.some_inj, setTypes] at hstep
      split at hstep
      · cases hstep
        exact hs
      · next entry he =>
        obtain ⟨kinds, hs, hr⟩ := hs
        exact retype_sound hs hr he hfree (includes_or newTypeId (headerID N)) hstep
    · cases hstep
  | addTypes id newTypes fresh =>
    simp only [step] at hstep
    split at hstep
    · next hfree =>
      rw [Option.some_inj, addTypes] at hstep
      split at hstep
      · cases hstep
        exact hs
      · next entry he =>
        obtain ⟨kinds, hs, hr⟩ := hs
        have hinc := (hs.hosted.header (hr.entry he).1).1
        exact retype_sound hs hr he (hfree entry he) (hinc.or newTypes) hstep
    · cases hstep
  | cleanup order =>
    simp only [step] at hstep
    split at hstep
    · obtain ⟨s₁, hcleanup, hs₁⟩ := cleanup_sound order hs
      rw [Option.some_inj] at hstep
      cases hstep.symm.trans hcleanup
      exact hs₁
    · cases hstep
  | addCallback types event callback =>
    cases hstep
    exact addCallback_sound hs types event callback
  | count id refcount =>
    cases hstep
    exact hs.same (count_sameTables (fun _ => refcount) s.tables id) rfl
  | setComponent poly i v =>
    obtain ⟨s₁, hset, heq⟩ := Option.map_eq_some_iff.mp hstep
    cases heq
    exact setComponent_sound hs hset

/-- In a run of a factory whose calls have all ended, no call has read or written outside of the
objects it owns. -/
theorem sound_of_reach (hs : (memoryMachine T).Reachable (some s)) : Sound T s := by
  refine hs.invariant (I := fun s => ∀ s', s = some s' → Sound T s') ?_ ?_ s rfl
  · intro s hinit s' heq
    cases hinit.symm.trans heq
    exact sound_empty
  · intro s l r _ hinv _ hstep s' heq
    subst heq
    obtain ⟨s, rfl, hstep⟩ := Option.bind_eq_some_iff.mp hstep
    exact step_sound (hinv s rfl) hstep

/-- The poly that a call gives another type, and that type. -/
def typeChange (s : PolyMemory N PolyID V CB) : Label N PolyID V CB → Option (PolyID × TypeID N)
  | .setTypes id newTypeId _ => some (id, newTypeId ||| headerID N)
  | .addTypes id newTypes _ => (getTypeID s id).map fun typeId => (id, typeId ||| newTypes)
  | _ => none

/-- `SetTypes` and `AddTypes` of a poly to a set of component types, in every state that a factory
reaches. -/
theorem typeChange_preserves (T : TypeTable N PolyID V) {s : PolyMemory N PolyID V CB}
    (hs : (memoryMachine T).Reachable (some s)) {l : Label N PolyID V CB} {id : PolyID}
    {t t' : TypeID N} (ht : getTypeID s id = some t) (hl : typeChange s l = some (id, t'))
    (hnamed : T.Named t') {r : Option (PolyMemory N PolyID V CB)}
    (hstep : (memoryMachine T).step (some s) l = some r) :
    ∃ s', r = some s' ∧ TypeChanged T s s' id t t' := by
  obtain ⟨kinds, hstored, hr⟩ := sound_of_reach hs
  obtain ⟨entry, he, rfl⟩ := Option.map_eq_some_iff.mp ht
  simp only [memoryMachine, Option.bind_some] at hstep
  cases l with
  | setTypes id' newTypeId fresh =>
    cases hl
    simp only [step] at hstep
    split at hstep
    · next hfree =>
      cases hstep
      obtain ⟨s', -, hretype, -, -, hchanged⟩ :=
        retype_changed hstored hr he hnamed hfree (includes_or newTypeId (headerID N))
      exact ⟨s', by simp only [setTypes, he, hretype], hchanged⟩
    · cases hstep
  | addTypes id' newTypes fresh =>
    obtain ⟨typeId, htype, heq⟩ := Option.map_eq_some_iff.mp hl
    cases heq
    cases ht.symm.trans htype
    simp only [step] at hstep
    split at hstep
    · next hfree =>
      cases hstep
      have hinc := (hstored.hosted.header (hr.entry he).1).1
      obtain ⟨s', -, hretype, -, -, hchanged⟩ :=
        retype_changed hstored hr he hnamed (hfree entry he) (hinc.or newTypes)
      exact ⟨s', by simp only [addTypes, he, hretype], hchanged⟩
    · cases hstep
  | getPoly | cleanup | addCallback | count | setComponent => cases hl

/-- 29 component types that hold one reference each, in a table of 40 entries. -/
def parentTypes : TypeTable 40 Nat (Option Nat) where
  info i := { construct := none, size := if i < 29 then 8 else 0 }
  refs v := v.toList
  types := 29
  header_lt := by decide
  types_le := by decide
  size_pos i hi := by
    show 0 < if i < 29 then 8 else 0
    rw [if_pos hi]
    decide
  fits := by decide

/- Two polys share an archetype, each with values of its own. -/
def sharedRun : List (Label 40 Nat (Option Nat) Nat) :=
  [.getPoly 7 0x6#40 ⟨0, 0⟩, .getPoly 8 0x6#40 ⟨100, 1⟩, .getPoly 9 0xC#40 ⟨200, 1⟩,
    .setComponent 0 2 (some 8), .setComponent 100 2 (some 9)]

/- The component 2 stays, 1 goes and 3 comes. -/
theorem typeChange_preserves_sharedRun : ∃ s s' : PolyMemory 40 Nat (Option Nat) Nat,
    (memoryMachine parentTypes).exec (some {}) sharedRun = some (some s) ∧
      (memoryMachine parentTypes).step (some s) (.setTypes 7 0xC#40 ⟨50, 2⟩) = some (some s') ∧
      get parentTypes s 7 2 = some (some 8) ∧ TypeChanged parentTypes s s' 7 0x7#40 0xD#40 := by
  obtain ⟨s, hs, hget, ht, hstep⟩ : ∃ s : PolyMemory 40 Nat (Option Nat) Nat,
      (memoryMachine parentTypes).exec (some {}) sharedRun = some (some s) ∧
        get parentTypes s 7 2 = some (some 8) ∧ getTypeID s 7 = some 0x7#40 ∧
        ((memoryMachine parentTypes).step (some s) (.setTypes 7 0xC#40 ⟨50, 2⟩)).isSome := by
    exact ⟨_, rfl, by decide +kernel, by decide +kernel, by decide +kernel⟩
  obtain ⟨r, hr⟩ := Option.isSome_iff_exists.mp hstep
  have hnamed : parentTypes.Named 0xD#40 := by
    intro i hbit
    have hi := BitVec.lt_of_getLsbD hbit
    revert hbit
    decide +revert
  obtain ⟨s', rfl, hchanged⟩ :=
    typeChange_preserves parentTypes (Machine.reachable_of_exec rfl hs) ht rfl hnamed hr
  exact ⟨s, s', hs, hr, hget, hchanged⟩

end CosmicArchitect.Util.PolyMemory
