import CosmicArchitect.Util.PolyMemory
import CosmicArchitect.Util.PolyCallbacks

/-!
# Every component lies in the block of its poly

The blocks on the heap are those of the polys, and at each component of a poly an object lives.
The loops over the component types work on two blocks that are apart, so that no turn touches
what another one needs.
-/

namespace CosmicArchitect.Util.PolyMemory
open PolyType PolyFactory Library TypeTable

variable {N : Nat} {PolyID V CB : Type} [DecidableEq PolyID] {T : TypeTable N PolyID V}
  {s s' : PolyMemory N PolyID V CB} {t t' : TypeID N} {archetype oldArchetype newArchetype : Archetype N CB}
  {poly oldPoly newPoly i : Nat} {r : Region}

theorem destruct_append (C : Components PolyID V) (f : PolyFactory N PolyID V CB) (l l' : List V) :
    PolyFactory.destruct C f (l ++ l') = PolyFactory.destruct C (PolyFactory.destruct C f l) l' := by
  rw [PolyFactory.destruct, List.flatMap_append, List.foldl_append]
  rfl

omit [DecidableEq PolyID] in
theorem componentPtr_eq (h : T.LaidOut archetype t) (hi : i ∈ typeIndexes N) (hbit : t.getLsbD i) :
    componentPtr archetype poly i = poly + T.offset t i := by
  rw [componentPtr, h.offset i hi hbit]

/-! ### Calls on one component -/

theorem construct_spec {b : Region} (hi : i < T.types) (hb : b ∈ s.heap.blocks) {ptr : Nat}
    (hptr : Region.Within ⟨ptr, (T.info i).size⟩ b) :
    ∃ s', construct T s i ptr = some s' ∧ s'.tables = s.tables ∧ s'.heap.blocks = s.heap.blocks ∧
      s'.calls = s.calls ++ [.construct i ptr] ∧
      s'.heap.objects ⟨ptr, (T.info i).size⟩ = some (T.info i).construct ∧
      ∀ r, 0 < r.size → r.Apart ⟨ptr, (T.info i).size⟩ → s'.heap.objects r = s.heap.objects r := by
  obtain ⟨heap, hplace, hblocks, hobject, hframe⟩ := s.heap.place_spec hb hptr (T.info i).construct
  refine ⟨{ s with heap := heap, calls := s.calls ++ [.construct i ptr] }, ?_, rfl, hblocks, rfl,
    hobject, ?_⟩
  · simp only [construct, if_pos hi, hplace, Option.bind_eq_bind, Option.bind_some]
  · intro r hr hapart
    exact hframe r hapart.symm (hapart.ne hr)

theorem destruct_spec {ptr : Nat} {v : V} (hi : i < T.types)
    (hv : s.heap.objects ⟨ptr, (T.info i).size⟩ = some v) :
    ∃ s', destruct T s i ptr = some s' ∧
      s'.tables = PolyFactory.destruct T.toComponents s.tables [v] ∧ s'.heap.blocks = s.heap.blocks ∧
      s'.calls = s.calls ++ [.destruct i ptr] ∧
      ∀ r, r.Apart ⟨ptr, (T.info i).size⟩ → s'.heap.objects r = s.heap.objects r := by
  refine ⟨{ s with
    tables := PolyFactory.destruct T.toComponents s.tables [v]
    heap := s.heap.clear ⟨ptr, (T.info i).size⟩
    calls := s.calls ++ [.destruct i ptr] }, ?_, rfl, rfl, rfl, ?_⟩
  · simp only [destruct, if_pos hi, hv, Option.bind_eq_bind, Option.bind_some]
  · intro r hapart
    exact ObjectHeap.clear_objects hapart.symm

theorem move_spec {b : Region} {src dst : Nat} {v : V} (hi : i < T.types)
    (hv : s.heap.objects ⟨src, (T.info i).size⟩ = some v) (hb : b ∈ s.heap.blocks)
    (hdst : Region.Within ⟨dst, (T.info i).size⟩ b) :
    ∃ s', move T s i src dst = some s' ∧ s'.tables = s.tables ∧ s'.heap.blocks = s.heap.blocks ∧
      s'.calls = s.calls ++ [.move i src dst] ∧
      s'.heap.objects ⟨dst, (T.info i).size⟩ = some v ∧
      ∀ r, 0 < r.size → r.Apart ⟨src, (T.info i).size⟩ → r.Apart ⟨dst, (T.info i).size⟩ →
        s'.heap.objects r = s.heap.objects r := by
  obtain ⟨heap, hplace, hblocks, hobject, hframe⟩ :=
    (s.heap.clear ⟨src, (T.info i).size⟩).place_spec hb hdst v
  refine ⟨{ s with heap := heap, calls := s.calls ++ [.move i src dst] }, ?_, rfl, hblocks, rfl,
    hobject, ?_⟩
  · simp only [move, if_pos hi, hv, hplace, Option.bind_eq_bind, Option.bind_some]
  · intro r hr hsrc hapart
    rw [hframe r hapart.symm (hapart.ne hr)]
    exact ObjectHeap.clear_objects hsrc.symm

/-! ### The loop over the component types -/

/-- What `UpdatePolyType` calls for the component type `i`. -/
def typeCall (T : TypeTable N PolyID V) (t t' : TypeID N) (oldPoly newPoly i : Nat) : Option TypeCall :=
  if t.getLsbD i then
    if t'.getLsbD i then some (.move i (oldPoly + T.offset t i) (newPoly + T.offset t' i))
    else some (.destruct i (oldPoly + T.offset t i))
  else if t'.getLsbD i then some (.construct i (newPoly + T.offset t' i)) else none

/-- The object that it destructs. -/
def dropped (T : TypeTable N PolyID V) (objects : Region → Option V) (t t' : TypeID N)
    (oldPoly i : Nat) : List V :=
  if t.getLsbD i ∧ ¬ t'.getLsbD i then (objects (T.region t oldPoly i)).toList else []

/-- Neither the component `i` of the old poly nor that of the new one overlaps the region. -/
def Clear (T : TypeTable N PolyID V) (t t' : TypeID N) (oldPoly newPoly : Nat) (r : Region) (i : Nat) :
    Prop :=
  (t.getLsbD i → r.Apart (T.region t oldPoly i)) ∧ (t'.getLsbD i → r.Apart (T.region t' newPoly i))

/-- The blocks of the old and the new poly when the loop reaches `i`. -/
structure Ready (T : TypeTable N PolyID V) (s : PolyMemory N PolyID V CB) (t t' : TypeID N)
    (oldPoly newPoly i : Nat) : Prop where
  old : t.getLsbD i → (s.heap.objects (T.region t oldPoly i)).isSome
  new : t'.getLsbD i → ∃ b ∈ s.heap.blocks, (T.region t' newPoly i).Within b

theorem updateComponent_spec (ht : T.Named t) (ht' : T.Named t')
    (hold : T.LaidOut oldArchetype t) (hnew : T.LaidOut newArchetype t')
    (hi : i ∈ typeIndexes N) (hs : Ready T s t t' oldPoly newPoly i) :
    ∃ s', updateComponent T oldArchetype newArchetype oldPoly newPoly s i = some s' ∧
      s'.heap.blocks = s.heap.blocks ∧
      s'.tables = PolyFactory.destruct T.toComponents s.tables (dropped T s.heap.objects t t' oldPoly i) ∧
      s'.calls = s.calls ++ (typeCall T t t' oldPoly newPoly i).toList ∧
      (t'.getLsbD i → s'.heap.objects (T.region t' newPoly i) =
        if t.getLsbD i then s.heap.objects (T.region t oldPoly i) else some (T.info i).construct) ∧
      ∀ r, 0 < r.size → Clear T t t' oldPoly newPoly r i → s'.heap.objects r = s.heap.objects r := by
  simp only [updateComponent, hold.hasOffset i hi, hnew.hasOffset i hi, typeCall, dropped, Clear, region]
  by_cases hbit : t.getLsbD i
  · obtain ⟨v, hv⟩ := Option.isSome_iff_exists.mp (hs.old hbit)
    rw [region] at hv
    by_cases hbit' : t'.getLsbD i
    · obtain ⟨b, hb, hwithin⟩ := hs.new hbit'
      obtain ⟨s', hmove, htables, hblocks, hcalls, hobject, hframe⟩ :=
        move_spec (ht i hbit) hv hb hwithin
      refine ⟨s', ?_, hblocks, ?_, ?_, ?_, ?_⟩
      · rw [if_pos hbit, if_pos hbit', componentPtr_eq hold hi hbit, componentPtr_eq hnew hi hbit']
        exact hmove
      · rw [htables, if_neg (fun hc => hc.2 hbit')]
        rfl
      · rw [hcalls, if_pos hbit, if_pos hbit']
        rfl
      · intro _
        rw [if_pos hbit, hobject, hv]
      · intro r hr hclear
        exact hframe r hr (hclear.1 hbit) (hclear.2 hbit')
    · obtain ⟨s', hdestruct, htables, hblocks, hcalls, hframe⟩ := destruct_spec (ht i hbit) hv
      refine ⟨s', ?_, hblocks, ?_, ?_, fun h => absurd h hbit', ?_⟩
      · rw [if_pos hbit, if_neg hbit', componentPtr_eq hold hi hbit]
        exact hdestruct
      · rw [htables, if_pos ⟨hbit, hbit'⟩, hv]
        rfl
      · rw [hcalls, if_pos hbit, if_neg hbit']
        rfl
      · intro r _ hclear
        exact hframe r (hclear.1 hbit)
  · have hnone : ¬ (t.getLsbD i ∧ ¬ t'.getLsbD i) := fun hc => hbit hc.1
    by_cases hbit' : t'.getLsbD i
    · obtain ⟨b, hb, hwithin⟩ := hs.new hbit'
      obtain ⟨s', hconstruct, htables, hblocks, hcalls, hobject, hframe⟩ :=
        construct_spec (ht' i hbit') hb hwithin
      refine ⟨s', ?_, hblocks, ?_, ?_, ?_, ?_⟩
      · rw [if_neg hbit, if_pos hbit', componentPtr_eq hnew hi hbit']
        exact hconstruct
      · rw [htables, if_neg hnone]
        rfl
      · rw [hcalls, if_neg hbit, if_pos hbit']
        rfl
      · intro _
        rw [if_neg hbit]
        exact hobject
      · intro r hr hclear
        exact hframe r hr (hclear.2 hbit')
    · refine ⟨s, ?_, rfl, ?_, ?_, fun h => absurd h hbit', fun r _ _ => rfl⟩
      · rw [if_neg hbit, if_neg hbit']
      · rw [if_neg hnone]
        rfl
      · rw [if_neg hbit, if_neg hbit', Option.toList_none, List.append_nil]

/-- The loop moves, destructs and constructs what its turns do, one component after the other. -/
theorem updateComponents_spec (oldPoly newPoly : Nat) (ht : T.Named t) (ht' : T.Named t')
    (hold : T.LaidOut oldArchetype t)
    (hnew : T.LaidOut newArchetype t')
    (hapart : ∀ i j, t.getLsbD i → t'.getLsbD j →
      (T.region t oldPoly i).Apart (T.region t' newPoly j)) (l : List Nat) :
    ∀ {s : PolyMemory N PolyID V CB}, (∀ i ∈ l, i ∈ typeIndexes N) → l.Nodup →
      (∀ i ∈ l, Ready T s t t' oldPoly newPoly i) →
    ∃ s', l.foldlM (updateComponent T oldArchetype newArchetype oldPoly newPoly) s = some s' ∧
      s'.heap.blocks = s.heap.blocks ∧
      s'.tables = PolyFactory.destruct T.toComponents s.tables
        (l.flatMap (dropped T s.heap.objects t t' oldPoly)) ∧
      s'.calls = s.calls ++ l.filterMap (typeCall T t t' oldPoly newPoly) ∧
      (∀ i ∈ l, t'.getLsbD i → s'.heap.objects (T.region t' newPoly i) =
        if t.getLsbD i then s.heap.objects (T.region t oldPoly i) else some (T.info i).construct) ∧
      ∀ r, 0 < r.size → (∀ i ∈ l, Clear T t t' oldPoly newPoly r i) →
        s'.heap.objects r = s.heap.objects r := by
  induction l with
  | nil =>
    intro s _ _ _
    exact ⟨s, rfl, rfl, rfl, (List.append_nil _).symm, fun i hi => (by cases hi),
      fun _ _ _ => rfl⟩
  | cons i l ih =>
    intro s hmem hnodup hready
    obtain ⟨hil, hnodup⟩ := List.nodup_cons.mp hnodup
    obtain ⟨s₁, hstep, hblocks, htables, hcalls, hobject, hframe⟩ :=
      updateComponent_spec ht ht' hold hnew (hmem i (List.mem_cons_self ..)) (hready i (List.mem_cons_self ..))
    have hne : ∀ j ∈ l, j ≠ i := fun j hj hc => hil (hc ▸ hj)
    -- the turn leaves the later components of the old poly
    have hlater : ∀ j ∈ l, t.getLsbD j →
        s₁.heap.objects (T.region t oldPoly j) = s.heap.objects (T.region t oldPoly j) := by
      intro j hj hbit
      exact hframe _ (region_pos ht _ hbit) ⟨fun h => T.region_apart hbit h (hne j hj), hapart j i hbit⟩
    have hready₁ : ∀ j ∈ l, Ready T s₁ t t' oldPoly newPoly j := by
      intro j hj
      have h := hready j (List.mem_cons_of_mem _ hj)
      refine ⟨fun hbit => ?_, fun hbit => ?_⟩
      · rw [hlater j hj hbit]
        exact h.old hbit
      · rw [hblocks]
        exact h.new hbit
    obtain ⟨s', hrest, hblocks', htables', hcalls', hobject', hframe'⟩ :=
      ih (fun j hj => hmem j (List.mem_cons_of_mem _ hj)) hnodup hready₁
    have hdropped : l.flatMap (dropped T s₁.heap.objects t t' oldPoly) =
        l.flatMap (dropped T s.heap.objects t t' oldPoly) := by
      refine List.flatMap_congr fun j hj => ?_
      simp only [dropped]
      split
      · next h => rw [hlater j hj h.1]
      · rfl
    refine ⟨s', ?_, hblocks'.trans hblocks, ?_, ?_, ?_, ?_⟩
    · rw [List.foldlM_cons, hstep]
      exact hrest
    · rw [htables', htables, hdropped, List.flatMap_cons, destruct_append]
    · rw [hcalls', hcalls, List.append_assoc, List.filterMap_cons]
      cases typeCall T t t' oldPoly newPoly i with
      | none => rfl
      | some call => rfl
    · intro j hj hbit
      rcases List.mem_cons.mp hj with rfl | hj
      · rw [hframe' _ (region_pos ht' _ hbit) fun k hk =>
          ⟨fun h => (hapart k j h hbit).symm, fun h => T.region_apart hbit h (hne k hk).symm⟩]
        exact hobject hbit
      · rw [hobject' j hj hbit]
        split
        · next h => rw [hlater j hj h]
        · rfl
    · intro r hr hclear
      rw [hframe' r hr fun k hk => hclear k (List.mem_cons_of_mem _ hk)]
      exact hframe r hr (hclear i (List.mem_cons_self ..))

/-- A bit of the new type for which no type exists ends the loop in a call through a null pointer. -/
theorem updateComponents_null (oldPoly newPoly : Nat) (ht : T.Named t) (ht' : ¬ T.Named t')
    (hold : T.LaidOut oldArchetype t) (hnew : T.LaidOut newArchetype t') :
    (typeIndexes N).foldlM (updateComponent T oldArchetype newArchetype oldPoly newPoly) s = none := by
  obtain ⟨i, hbit', hnull⟩ : ∃ i, t'.getLsbD i ∧ ¬ i < T.types := by
    simpa only [Named, not_forall, exists_prop] using ht'
  have hbit : ¬ t.getLsbD i := fun h => hnull (ht i h)
  have hi : i ∈ typeIndexes N := by
    have hlt := BitVec.lt_of_getLsbD hbit'
    have hzero := T.header_lt
    refine List.mem_range'_1.mpr ⟨?_, ?_⟩
    · omega
    · omega
  have hturn : ∀ s : PolyMemory N PolyID V CB,
      updateComponent T oldArchetype newArchetype oldPoly newPoly s i = none := by
    intro s
    rw [updateComponent, if_neg (mt (hold.hasOffset i hi).mp hbit),
      if_pos ((hnew.hasOffset i hi).mpr hbit'), construct, if_neg hnull]
  obtain ⟨before, after, hl⟩ := List.append_of_mem hi
  rw [hl, List.foldlM_append]
  cases before.foldlM (updateComponent T oldArchetype newArchetype oldPoly newPoly) s with
  | none => rfl
  | some s₁ =>
    show List.foldlM _ s₁ (i :: after) = none
    rw [List.foldlM_cons, hturn]
    rfl

/-! ### The blocks of the polys -/

/-- The tables and blocks are those of polys of the given types. -/
structure Laid (T : TypeTable N PolyID V) (s : PolyMemory N PolyID V CB)
    (kinds : Nat → Option (TypeID N)) : Prop where
  hosted : Hosted s.tables kinds
  layout : ∀ {t a entry}, s.tables.archetypes.lookup t = some a →
    s.tables.archetypeEntry a = some entry → T.LaidOut entry.archetype t
  header : ∀ {h}, kinds h = none → s.tables.header h = none
  block : ∀ b, b ∈ s.heap.blocks ↔ ∃ t, kinds b.start = some t ∧ b = T.block t b.start

/-- Every component has a type, and an object lives there. -/
structure Stored (T : TypeTable N PolyID V) (s : PolyMemory N PolyID V CB)
    (kinds : Nat → Option (TypeID N)) : Prop extends Laid T s kinds where
  named : ∀ {h t}, kinds h = some t → T.Named t
  object : ∀ {h t i}, kinds h = some t → i ∈ typeIndexes N → t.getLsbD i →
    (s.heap.objects (T.region t h i)).isSome

variable {kinds : Nat → Option (TypeID N)} {h h' : Nat} {fresh : Fresh}

omit [DecidableEq PolyID] in
theorem includes_header (T : TypeTable N PolyID V) (ht : Includes t (headerID N)) :
    t.getLsbD headerIndex := by
  have hbit : (t &&& headerID N).getLsbD headerIndex = (headerID N).getLsbD headerIndex := by rw [ht]
  rw [BitVec.getLsbD_and, headerID_getLsbD] at hbit
  have hlt : headerIndex < N := T.headerIndex_lt
  rw [decide_eq_true hlt] at hbit
  simpa [headerIndex] using hbit

theorem Laid.mem_block (hs : Laid T s kinds) (hk : kinds h = some t) : T.block t h ∈ s.heap.blocks :=
  (hs.block _).mpr ⟨t, hk, rfl⟩

theorem Laid.block_apart (hs : Laid T s kinds) (hk : kinds h = some t) (hk' : kinds h' = some t')
    (hne : h ≠ h') : (T.block t h).Apart (T.block t' h') :=
  s.heap.apart.forall (hs.mem_block hk) (hs.mem_block hk') fun hc => hne (congrArg Region.start hc)

theorem Laid.find (hs : Laid T s kinds) (hk : kinds h = some t) :
    ∃ header entry, s.tables.header h = some header ∧
      s.tables.archetypes.lookup t = some header.archetype ∧
      s.tables.archetypeEntry header.archetype = some entry ∧ entry.archetype.id = t ∧
      T.LaidOut entry.archetype t := by
  obtain ⟨-, a, header, hlookup, hheader, rfl⟩ := hs.hosted.header hk
  obtain ⟨entry, hentry, hid, -⟩ := hs.hosted.archetype hlookup
  exact ⟨header, entry, hheader, hlookup, hentry, hid, hs.layout hlookup hentry⟩

theorem Laid.derived {f : PolyFactory N PolyID V CB} {kinds' : Nat → Option (TypeID N)}
    (hs : Laid T s kinds) (hf : Hosted f kinds') (hd : Derived T.toComponents s.tables f) {t : TypeID N}
    {a : Nat} {entry : ArchetypeEntry N CB} (ht : f.archetypes.lookup t = some a)
    (he : f.archetypeEntry a = some entry) : T.LaidOut entry.archetype t := by
  rcases hd.archetype ht he with hnew | ⟨a₀, entry₀, ht₀, he₀, hsame⟩
  · obtain ⟨h, hk⟩ := hf.used ht
    rw [hnew]
    exact initType_laidOut s.tables.callbacks (includes_header T (hf.header hk).1)
  · rw [hsame]
    exact hs.layout ht₀ he₀

theorem Laid.unused (hs : Laid T s kinds) (hfree : CanAllocate T s fresh t) :
    kinds fresh.header = none := by
  cases hk : kinds fresh.header with
  | none => rfl
  | some t₀ =>
    have hb := hs.mem_block hk
    have hapart := hfree.2.2 _ hb
    exact absurd rfl (hapart.start_ne hfree.2.1 (s.heap.sized _ hb))

/-- A new poly gets a block that no other object overlaps. -/
theorem allocatePoly_laid (hs : Laid T s kinds) (hr : Registered s.tables kinds)
    (hfree : CanAllocate T s fresh t) (hinc : Includes t (headerID N)) :
    ∃ s', allocatePoly T fresh s t = some (s', fresh.header) ∧
      PolyFactory.allocatePoly T.toComponents fresh s.tables t = some (s'.tables, fresh.header) ∧
      Laid T s' (Function.update kinds fresh.header (some t)) ∧
      s'.tables.entries = s.tables.entries ∧ s'.calls = s.calls ∧
      (∀ x, x ≠ fresh.header → s'.tables.header x = s.tables.header x) ∧
      ∀ r, r.Apart (T.block t fresh.header) → s'.heap.objects r = s.heap.objects r := by
  have hkfresh := hs.unused hfree
  have hisFree : IsFree s.tables fresh := ⟨by rw [hs.header hkfresh]; rfl, hfree.1⟩
  obtain ⟨f, header₀, halloc, hf, hheader, hentries⟩ :=
    allocatePoly_spec (C := T.toComponents) hs.hosted hisFree hinc
  have hd := allocatePoly_derived ⟨kinds, hs.hosted, hr⟩ hisFree halloc
  obtain ⟨-, a, header, hlookup, hnew, rfl⟩ := hf.header (Function.update_self fresh.header _ _)
  obtain ⟨entry, hentry, -⟩ := hf.archetype hlookup
  have hlaid := hs.derived hf hd hlookup hentry
  obtain ⟨heap, hmalloc, hblocks, hobjects⟩ := ObjectHeap.malloc_spec hfree.2
  refine ⟨{ s with tables := f, heap := heap }, ?_, halloc, ⟨hf, hs.derived hf hd, ?_, ?_⟩, hentries,
    rfl, ?_, ?_⟩
  · rw [block, ← hlaid.totalSize] at hmalloc
    simp only [allocatePoly, halloc, hnew, hentry, hmalloc, Option.bind_eq_bind, Option.bind_some]
  · intro h hk
    show f.header h = none
    have hne : h ≠ fresh.header := by
      intro hc
      rw [hc, Function.update_self] at hk
      cases hk
    rw [Function.update_of_ne hne] at hk
    rw [hheader, Function.update_of_ne hne]
    exact hs.header hk
  · intro b
    show b ∈ heap.blocks ↔ _
    rw [hblocks, List.mem_cons, hs.block]
    by_cases hb : b.start = fresh.header
    · rw [hb, Function.update_self, hkfresh]
      constructor
      · intro h
        rcases h with rfl | ⟨t₀, hc, -⟩
        · exact ⟨t, rfl, rfl⟩
        · cases hc
      · intro h
        obtain ⟨t₀, ht₀, heq⟩ := h
        cases ht₀
        exact Or.inl heq
    · rw [Function.update_of_ne hb]
      constructor
      · intro h
        rcases h with rfl | h
        · exact absurd rfl hb
        · exact h
      · exact Or.inr
  · intro x hx
    show f.header x = s.tables.header x
    rw [hheader, Function.update_of_ne hx]
  · intro r hapart
    exact hobjects r hapart.symm

/-- A freed poly takes its own block with it. -/
theorem deallocatePoly_laid (hs : Laid T s kinds) (hk : kinds poly = some t) :
    ∃ s', deallocatePoly s t poly = some s' ∧
      PolyFactory.deallocatePoly s.tables t poly = some s'.tables ∧
      Laid T s' (Function.update kinds poly none) ∧
      s'.tables.entries = s.tables.entries ∧ s'.calls = s.calls ∧
      (∀ x, x ≠ poly → s'.tables.header x = s.tables.header x) ∧
      ∀ r, r.Apart (T.block t poly) → s'.heap.objects r = s.heap.objects r := by
  obtain ⟨f, hdealloc, hf, hheader, hentries⟩ := PolyFactory.deallocatePoly_spec hs.hosted hk
  have hd : Derived T.toComponents s.tables f := deallocatePoly_derived hdealloc
  obtain ⟨heap, hfree, hblocks, hobjects⟩ := ObjectHeap.free_spec (hs.mem_block hk)
  refine ⟨{ s with tables := f, heap := heap }, ?_, hdealloc, ⟨hf, hs.derived hf hd, ?_, ?_⟩, hentries,
    rfl, ?_, ?_⟩
  · rw [block] at hfree
    simp only [deallocatePoly, hdealloc, hfree, Option.bind_eq_bind, Option.bind_some]
  · intro h hkh
    show f.header h = none
    rw [hheader]
    by_cases hh : h = poly
    · rw [hh, Function.update_self]
    · rw [Function.update_of_ne hh] at hkh ⊢
      exact hs.header hkh
  · intro b
    show b ∈ heap.blocks ↔ _
    rw [hblocks, hs.block]
    by_cases hb : b.start = poly
    · rw [hb, Function.update_self, hk]
      constructor
      · intro h
        obtain ⟨⟨t₀, ht₀, heq⟩, hne⟩ := h
        cases ht₀
        exact absurd heq hne
      · intro h
        obtain ⟨t₀, hc, -⟩ := h
        cases hc
    · rw [Function.update_of_ne hb]
      constructor
      · exact And.left
      · intro h
        exact ⟨h, fun hc => hb (congrArg Region.start hc)⟩
  · intro x hx
    show f.header x = s.tables.header x
    rw [hheader, Function.update_of_ne hx]
  · intro r hapart
    exact hobjects r hapart.symm

end CosmicArchitect.Util.PolyMemory
