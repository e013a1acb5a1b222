import CosmicArchitect.Library.ObjectHeap
import CosmicArchitect.Util.PolyTables

/-!
# The offsets of any sequence of component types (Util/Poly.h)

`AddType` puts each component right behind the ones added before it and counts in 16 bits. The
type table holds the sizes of the component types, not their alignments.
-/

namespace CosmicArchitect.Util.PolyType
open Library

variable {N : Nat} {PolyID V CB : Type} (info : Nat → PolyTypeInfo V) (alignment : Nat → Nat)

/-- The bytes that the types take, one behind the other. -/
def sizeSum (types : List Nat) : Nat := (types.map fun i => (info i).size).sum

/-- The bytes of the component `i` in a poly, counted from its header. -/
def Archetype.componentRegion (archetype : Archetype N CB) (i : Nat) : Region :=
  ⟨(archetype.typeOffsets i).toNat, (info i).size⟩

/-- The layout of an archetype to which the types were added in this order, header first. -/
structure WellLaidOut (archetype : Archetype N CB) (types : List Nat) : Prop where
  apart : types.Pairwise fun i j =>
    (archetype.componentRegion info i).Apart (archetype.componentRegion info j)
  within : ∀ i ∈ types, (archetype.componentRegion info i).Within ⟨0, archetype.totalSize.toNat⟩
  hasOffset : ∀ i ∈ types, archetype.HasOffset i
  unwrapped : ∀ before i after, types = before ++ i :: after →
    (archetype.typeOffsets i).toNat = sizeSum info before
  aligned : ∀ i ∈ types, alignment i ∣ (archetype.typeOffsets i).toNat

/-- The types fit into 16 bits, and the sizes in front of each add up to a multiple of its
alignment. -/
structure Packs (types : List Nat) : Prop where
  fits : sizeSum info types ≤ 65535
  aligned : ∀ before i after, types = before ++ i :: after → alignment i ∣ sizeSum info before

variable {info alignment}

theorem sizeSum_append (types types' : List Nat) :
    sizeSum info (types ++ types') = sizeSum info types + sizeSum info types' := by
  simp only [sizeSum, List.map_append, List.sum_append]

theorem sizeSum_cons (i : Nat) (types : List Nat) :
    sizeSum info (i :: types) = (info i).size + sizeSum info types := by
  simp only [sizeSum, List.map_cons, List.sum_cons]

theorem sizeSum_split (before : List Nat) (i : Nat) (after : List Nat) :
    sizeSum info (before ++ i :: after) =
      sizeSum info before + (info i).size + sizeSum info after := by
  rw [sizeSum_append, sizeSum_cons, Nat.add_assoc]

/-! ### What a sequence of `AddType` calls computes -/

theorem addTypes_totalSize (info : Nat → PolyTypeInfo V) (types : List Nat) : ∀ archetype : Archetype N CB,
    (types.foldl (addType info) archetype).totalSize.toNat =
      (archetype.totalSize.toNat + sizeSum info types) % 65536 := by
  induction types with
  | nil =>
    intro archetype
    have hlt := archetype.totalSize.toNat_lt
    exact (Nat.mod_eq_of_lt hlt).symm
  | cons i types ih =>
    intro archetype
    rw [List.foldl_cons, ih, sizeSum_cons]
    simp only [addType, UInt16.toNat_add, UInt16.toNat_ofNat']
    omega

theorem addTypes_typeOffsets_of_not_mem {i : Nat} (types : List Nat) (hi : i ∉ types) :
    ∀ archetype : Archetype N CB,
      (types.foldl (addType info) archetype).typeOffsets i = archetype.typeOffsets i := by
  induction types with
  | nil => exact fun _ => rfl
  | cons j types ih =>
    intro archetype
    have hne : i ≠ j := fun h => hi (h ▸ List.mem_cons_self)
    rw [List.foldl_cons, ih fun h => hi (List.mem_cons_of_mem _ h)]
    simp only [addType]
    exact Function.update_of_ne hne _ _

/-- The offset of a type is the sum of the sizes added before it, in 16 bits. -/
theorem addTypes_typeOffsets {before after : List Nat} {i : Nat}
    (hnodup : (before ++ i :: after).Nodup) :
    (((before ++ i :: after).foldl (addType info) ({} : Archetype N CB)).typeOffsets i).toNat =
      sizeSum info before % 65536 := by
  have hafter : i ∉ after := (List.nodup_cons.mp (List.nodup_append.mp hnodup).2.1).1
  have htotal := addTypes_totalSize info before ({} : Archetype N CB)
  have hzero : ({} : Archetype N CB).totalSize.toNat = 0 := rfl
  rw [hzero, Nat.zero_add] at htotal
  rw [List.foldl_append, List.foldl_cons, addTypes_typeOffsets_of_not_mem _ hafter, ← htotal]
  simp only [addType]
  rw [Function.update_self]

/-! ### When the layout is well formed -/

section
variable (N CB) {types : List Nat} (hnodup : types.Nodup)
include hnodup

theorem typeOffsets_of_fits (hfits : sizeSum info types ≤ 65535) {before after : List Nat} {i : Nat}
    (hsplit : types = before ++ i :: after) :
    ((types.foldl (addType info) ({} : Archetype N CB)).typeOffsets i).toNat =
      sizeSum info before := by
  rw [hsplit] at hnodup hfits
  rw [sizeSum_split] at hfits
  rw [hsplit, addTypes_typeOffsets hnodup]
  exact Nat.mod_eq_of_lt (by omega)

/-- The components of `rest` lie behind those in front of them. -/
theorem regions_apart (hfits : sizeSum info types ≤ 65535) (rest : List Nat) :
    ∀ before, types = before ++ rest → rest.Pairwise fun i j =>
      ((types.foldl (addType info) ({} : Archetype N CB)).componentRegion info i).Apart
        ((types.foldl (addType info) ({} : Archetype N CB)).componentRegion info j) := by
  induction rest with
  | nil => exact fun _ _ => List.Pairwise.nil
  | cons i rest ih =>
    intro before hsplit
    apply List.pairwise_cons.mpr
    constructor
    · intro j hj
      obtain ⟨between, after, hrest⟩ := List.append_of_mem hj
      have hsplit' : types = (before ++ i :: between) ++ j :: after := by
        rw [hsplit, hrest, List.append_assoc, List.cons_append]
      have hi := typeOffsets_of_fits N CB hnodup hfits hsplit
      have hj' := typeOffsets_of_fits N CB hnodup hfits hsplit'
      rw [sizeSum_split] at hj'
      left
      simp only [Archetype.componentRegion, hi, hj']
      omega
    · apply ih (before ++ [i])
      rw [hsplit, List.append_assoc, List.singleton_append]

/-- What is known of one component when all of them fit. -/
theorem component_of_fits (hfits : sizeSum info types ≤ 65535) {i : Nat} (hi : i ∈ types) :
    ∃ before after, types = before ++ i :: after ∧
      ((types.foldl (addType info) ({} : Archetype N CB)).typeOffsets i).toNat =
        sizeSum info before ∧
      sizeSum info before + (info i).size ≤
        (types.foldl (addType info) ({} : Archetype N CB)).totalSize.toNat ∧
      (types.foldl (addType info) ({} : Archetype N CB)).totalSize.toNat ≤ 65535 := by
  obtain ⟨before, after, hsplit⟩ := List.append_of_mem hi
  have htotal := addTypes_totalSize info types ({} : Archetype N CB)
  have hzero : ({} : Archetype N CB).totalSize.toNat = 0 := rfl
  rw [hzero, Nat.zero_add, Nat.mod_eq_of_lt (by omega)] at htotal
  have hsum : sizeSum info types =
      sizeSum info before + (info i).size + sizeSum info after := by
    rw [hsplit, sizeSum_split]
  exact ⟨before, after, hsplit, typeOffsets_of_fits N CB hnodup hfits hsplit, by omega, by omega⟩

theorem wellLaidOut_of_packs (hsize : ∀ i ∈ types, 0 < (info i).size)
    (h : Packs info alignment types) :
    WellLaidOut info alignment (types.foldl (addType info) ({} : Archetype N CB)) types := by
  have hinvalid : kInvalidOffset.toNat = 65535 := rfl
  refine ⟨regions_apart N CB hnodup h.fits types [] rfl, ?_, ?_, ?_, ?_⟩
  · intro i hi
    obtain ⟨before, after, _, hoffset, hend, _⟩ :=
      component_of_fits N CB hnodup h.fits hi
    simp only [Region.Within, Archetype.componentRegion, hoffset]
    omega
  · intro i hi hc
    obtain ⟨before, after, _, hoffset, hend, hmax⟩ :=
      component_of_fits N CB hnodup h.fits hi
    have hpos := hsize i hi
    rw [hc, hinvalid] at hoffset
    omega
  · exact fun before i after hsplit => typeOffsets_of_fits N CB hnodup h.fits hsplit
  · intro i hi
    obtain ⟨before, after, hsplit, hoffset, _⟩ :=
      component_of_fits N CB hnodup h.fits hi
    rw [hoffset]
    exact h.aligned before i after hsplit

end

theorem packs_of_wellLaidOut (hne : types ≠ [])
    (h : WellLaidOut info alignment (types.foldl (addType info) ({} : Archetype N CB)) types) :
    Packs info alignment types where
  fits := by
    obtain hnil | ⟨init, last, hlast⟩ := List.eq_nil_or_concat types
    · exact absurd hnil hne
    · rw [List.concat_eq_append] at hlast
      -- the last component ends where the 16-bit size says
      have hmem : last ∈ types := by
        rw [hlast]
        exact List.mem_append_right _ (List.mem_singleton_self _)
      have hoffset := h.unwrapped init last [] hlast
      obtain ⟨_, hwithin⟩ := h.within last hmem
      have hlt := (types.foldl (addType info) ({} : Archetype N CB)).totalSize.toNat_lt
      simp only [Archetype.componentRegion, hoffset] at hwithin
      rw [hlast, sizeSum_split]
      rw [hlast] at hwithin hlt
      simp only [sizeSum, List.map_nil, List.sum_nil] at *
      omega
  aligned before i after hsplit := by
    have hmem : i ∈ types := by
      rw [hsplit]
      exact List.mem_append_right _ List.mem_cons_self
    rw [← h.unwrapped before i after hsplit]
    exact h.aligned i hmem

/-- The layout of an archetype is well formed exactly when the sizes of its types fit into 16 bits
and those in front of each type add up to a multiple of its alignment. -/
theorem wellLaidOut_iff (info : Nat → PolyTypeInfo V) (alignment : Nat → Nat) (types : List Nat)
    (hnodup : (headerIndex :: types).Nodup)
    (hsize : ∀ i ∈ headerIndex :: types, 0 < (info i).size) :
    WellLaidOut info alignment (types.foldl (addType info) (newArchetype info : Archetype N CB))
      (headerIndex :: types) ↔ Packs info alignment (headerIndex :: types) := by
  constructor
  · exact fun h => packs_of_wellLaidOut (List.cons_ne_nil _ _) h
  · exact fun h => wellLaidOut_of_packs N CB hnodup hsize h

/-- The types that `InitType` adds, in order. -/
def addedTypes (typeId : TypeID N) : List Nat := (typeIndexes N).filter fun i => typeId.getLsbD i

theorem wellLaidOut_addCallback (archetype : Archetype N CB) (event : PolyEvent) (callback : CB)
    (types : List Nat) : WellLaidOut info alignment (addCallback archetype event callback) types =
      WellLaidOut info alignment archetype types :=
  propext ⟨fun h => ⟨h.apart, h.within, h.hasOffset, h.unwrapped, h.aligned⟩,
    fun h => ⟨h.apart, h.within, h.hasOffset, h.unwrapped, h.aligned⟩⟩

theorem addedTypes_nodup (typeId : TypeID N) : (headerIndex :: addedTypes typeId).Nodup := by
  apply List.nodup_cons.mpr
  constructor
  · intro hmem
    have hrange := List.mem_range'_1.mp (List.mem_filter.mp hmem).1
    exact absurd hrange.1 (by decide)
  · exact List.Nodup.filter _ List.nodup_range'

/-- The archetypes of a factory, whose types come in the order of their indexes. -/
theorem initType_wellLaidOut (C : Components PolyID V)
    (callbacks : AList (fun _ : TypeID N => List (PolyEvent × CB))) (typeId : TypeID N)
    (hsize : ∀ i ∈ headerIndex :: addedTypes typeId, 0 < (C.info i).size) :
    WellLaidOut C.info alignment (PolyFactory.initType C callbacks typeId)
        (headerIndex :: addedTypes typeId) ↔
      Packs C.info alignment (headerIndex :: addedTypes typeId) := by
  have hfold : (typeIndexes N).foldl (fun archetype i =>
      if typeId.getLsbD i then addType C.info archetype i else archetype)
        (newArchetype C.info : Archetype N CB) =
      (headerIndex :: addedTypes typeId).foldl (addType C.info) {} := by
    rw [addedTypes, List.foldl_cons, List.foldl_filter]
    rfl
  rw [PolyFactory.initType, PolyFactory.callbacks_fold
    (fun archetype => WellLaidOut C.info alignment archetype (headerIndex :: addedTypes typeId))
    (fun archetype event callback => wellLaidOut_addCallback archetype event callback _), hfold]
  exact ⟨fun h => packs_of_wellLaidOut (List.cons_ne_nil _ _) h,
    wellLaidOut_of_packs N CB (addedTypes_nodup typeId) hsize⟩

/-- The sizes and alignments of the components of a galaxy's nodes, on a 64-bit target: the header,
`spatial3d::Node`, `PartialNode`, `LocalNode`, `RemoteNode` and `galaxy::Node`. -/
def galaxyNodeTypes : Nat → Nat × Nat
  | 0 => (8, 8)
  | 1 => (168, 8)
  | 2 => (8, 8)
  | 3 => (16, 8)
  | 4 => (4, 4)
  | 6 => (24, 8)
  | _ => (0, 1)

def galaxyNodeInfo (i : Nat) : PolyTypeInfo Unit := ⟨(), (galaxyNodeTypes i).1⟩

def galaxyNodeAlignment (i : Nat) : Nat := (galaxyNodeTypes i).2

/-- The nodes without the data of the galaxy. -/
theorem wellLaidOut_iff_local :
    WellLaidOut galaxyNodeInfo galaxyNodeAlignment ([1, 2, 3, 4].foldl (addType galaxyNodeInfo)
        (newArchetype galaxyNodeInfo : Archetype 10 Unit)) (headerIndex :: [1, 2, 3, 4]) ↔
      Packs galaxyNodeInfo galaxyNodeAlignment (headerIndex :: [1, 2, 3, 4]) :=
  wellLaidOut_iff galaxyNodeInfo galaxyNodeAlignment [1, 2, 3, 4] (by decide) (by decide)

/-- The vector in `galaxy::Node` comes behind the four bytes of `RemoteNode`, at offset 204. -/
theorem galaxyNode_misaligned :
    let archetype : Archetype 10 Unit :=
      [1, 2, 3, 4, 6].foldl (addType galaxyNodeInfo) (newArchetype galaxyNodeInfo)
    (headerIndex :: [1, 2, 3, 4, 6]).Nodup ∧
    (∀ i ∈ headerIndex :: [1, 2, 3, 4, 6], 0 < (galaxyNodeInfo i).size) ∧
    archetype.typeOffsets 6 = 204 ∧ galaxyNodeAlignment 6 = 8 ∧
    ¬WellLaidOut galaxyNodeInfo galaxyNodeAlignment archetype (headerIndex :: [1, 2, 3, 4, 6]) := by
  intro archetype
  have hoffset : archetype.typeOffsets 6 = 204 := by decide
  refine ⟨by decide, by decide, hoffset, rfl, ?_⟩
  intro h
  have haligned := h.aligned 6 (by decide)
  rw [hoffset] at haligned
  exact absurd haligned (by decide)

end CosmicArchitect.Util.PolyType
