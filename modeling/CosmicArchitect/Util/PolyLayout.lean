import CosmicArchitect.Library.ObjectHeap
import CosmicArchitect.Util.PolyTables
import Mathlib.Algebra.BigOperators.Group.Finset.Basic
import Mathlib.Algebra.Order.BigOperators.Group.Finset

/-!
# Where the components of a poly lie

The components of a poly follow its header in the order of their type indexes, without gaps. The
offsets that `AddType` computes in 16 bits are those of this layout.
-/

namespace CosmicArchitect.Util
open PolyType Library

/-- `k_type_info` of a program. The first `types` of its entries are filled, and the functions of
the others are null. All the component types together fit in a poly. -/
structure TypeTable (N : Nat) (PolyID V : Type) extends Components PolyID V where
  types : Nat
  header_lt : headerIndex < types
  types_le : types ≤ N
  size_pos : ∀ i < types, 0 < (info i).size
  fits : ∑ i ∈ Finset.range N, (info i).size < kInvalidOffset.toNat

namespace TypeTable
variable {N : Nat} {PolyID V CB : Type} (T : TypeTable N PolyID V) {t : TypeID N}

/-- The bytes in front of the component `i` in polys of the type. -/
def offset (t : TypeID N) (i : Nat) : Nat :=
  ∑ j ∈ Finset.range i, if t.getLsbD j then (T.info j).size else 0

def region (t : TypeID N) (poly i : Nat) : Region := ⟨poly + T.offset t i, (T.info i).size⟩

/-- Every type of the set has an entry. -/
def Named (t : TypeID N) : Prop := ∀ i, t.getLsbD i → i < T.types

/-- The block of a poly. -/
def block (t : TypeID N) (poly : Nat) : Region := ⟨poly, T.offset t N⟩

theorem offset_succ (t : TypeID N) (i : Nat) : T.offset t (i + 1) =
    T.offset t i + if t.getLsbD i then (T.info i).size else 0 := Finset.sum_range_succ _ _

theorem offset_mono (t : TypeID N) {i j : Nat} (hij : i ≤ j) : T.offset t i ≤ T.offset t j := by
  induction hij with
  | refl => exact Nat.le_refl _
  | step _ ih =>
    rw [offset_succ]
    omega

theorem offset_lt (t : TypeID N) {i : Nat} (hi : i ≤ N) : T.offset t i < kInvalidOffset.toNat := by
  have hle : T.offset t N ≤ ∑ i ∈ Finset.range N, (T.info i).size := by
    refine Finset.sum_le_sum fun j _ => ?_
    split
    · exact Nat.le_refl _
    · exact Nat.zero_le _
  have := T.offset_mono t hi
  have := T.fits
  omega

theorem offset_next {i j : Nat} (hi : t.getLsbD i) (hij : i < j) :
    T.offset t i + (T.info i).size ≤ T.offset t j := by
  have hle := T.offset_mono t (show i + 1 ≤ j from hij)
  rw [offset_succ, if_pos hi] at hle
  exact hle

theorem region_within {poly i : Nat} (hi : t.getLsbD i) :
    (T.region t poly i).Within (T.block t poly) := by
  have hlt : i < N := BitVec.lt_of_getLsbD hi
  have hle := T.offset_next hi hlt
  simp only [Region.Within, region, block]
  omega

theorem region_apart {poly i j : Nat} (hi : t.getLsbD i) (hj : t.getLsbD j) (hij : i ≠ j) :
    (T.region t poly i).Apart (T.region t poly j) := by
  simp only [Region.Apart, region]
  rcases Nat.lt_or_gt_of_ne hij with hlt | hgt
  · have := T.offset_next hi hlt
    omega
  · have := T.offset_next hj hgt
    omega

theorem region_pos {T : TypeTable N PolyID V} (ht : T.Named t) (poly : Nat) {i : Nat}
    (hi : t.getLsbD i) : 0 < (T.region t poly i).size := T.size_pos i (ht i hi)

theorem headerIndex_lt (T : TypeTable N PolyID V) : headerIndex < N :=
  Nat.lt_of_lt_of_le T.header_lt T.types_le

/-! ### The archetypes that `InitType` builds -/

/-- The archetype has the layout of the type. -/
structure LaidOut (archetype : Archetype N CB) (t : TypeID N) : Prop where
  hasOffset : ∀ i ∈ typeIndexes N, archetype.HasOffset i ↔ t.getLsbD i
  offset : ∀ i ∈ typeIndexes N, t.getLsbD i → (archetype.typeOffsets i).toNat = T.offset t i
  totalSize : archetype.totalSize.toNat = T.offset t N

variable {T}

/-- After the types up to `k`. -/
theorem addTypes_prefix (T : TypeTable N PolyID V) (CB : Type) (h0 : t.getLsbD headerIndex) : ∀ k, k < N →
    ∃ archetype : Archetype N CB, (List.range' 1 k).foldl (fun archetype i =>
      if t.getLsbD i then addType T.info archetype i else archetype) (newArchetype T.info) =
        archetype ∧ archetype.totalSize.toNat = T.offset t (k + 1) ∧
      (∀ i, 1 ≤ i → i ≤ k → t.getLsbD i → (archetype.typeOffsets i).toNat = T.offset t i) ∧
      ∀ i, 1 ≤ i → (k < i ∨ ¬ t.getLsbD i) → archetype.typeOffsets i = kInvalidOffset := by
  have hinvalid : kInvalidOffset.toNat = 65535 := rfl
  intro k
  induction k with
  | zero =>
    intro hk
    have h0' : t.getLsbD 0 := h0
    have hlt := T.offset_lt t hk
    have hzero : T.offset t 0 = 0 := rfl
    rw [offset_succ, if_pos h0', hzero, Nat.zero_add, hinvalid] at hlt
    refine ⟨newArchetype T.info, rfl, ?_, ?_, ?_⟩
    · rw [offset_succ, if_pos h0', hzero]
      simp only [newArchetype, addType, UInt16.toNat_add, UInt16.toNat_ofNat', UInt16.toNat_zero,
        headerIndex]
      omega
    · intro i hi hik
      omega
    · intro i hi _
      simp only [newArchetype, addType, headerIndex]
      rw [Function.update_of_ne (by omega)]
  | succ k ih =>
    intro hk
    obtain ⟨archetype, hfold, hsize, hoffset, hnone⟩ := ih (by omega)
    have hlt := T.offset_lt t hk
    rw [List.range'_concat, List.foldl_append, hfold, List.foldl_cons, List.foldl_nil, Nat.one_mul,
      Nat.add_comm 1 k]
    rw [offset_succ] at hlt
    by_cases hbit : t.getLsbD (k + 1)
    · rw [if_pos hbit]
      rw [if_pos hbit] at hlt
      refine ⟨_, rfl, ?_, ?_, ?_⟩
      · rw [offset_succ, if_pos hbit]
        simp only [addType, UInt16.toNat_add, UInt16.toNat_ofNat', hsize]
        omega
      · intro i hi hik hti
        simp only [addType]
        by_cases hlast : i = k + 1
        · rw [hlast, Function.update_self, hsize]
        · rw [Function.update_of_ne hlast]
          exact hoffset i hi (by omega) hti
      · intro i hi hout
        have hne : i ≠ k + 1 := by
          intro hc
          rcases hout with hgt | hbit'
          · omega
          · exact hbit' (hc ▸ hbit)
        simp only [addType, Function.update_of_ne hne]
        exact hnone i hi (hout.imp (fun h => by omega) id)
    · rw [if_neg hbit]
      refine ⟨archetype, rfl, ?_, ?_, ?_⟩
      · rw [offset_succ, if_neg hbit, hsize]
        omega
      · intro i hi hik hti
        have hne : i ≠ k + 1 := fun hc => hbit (hc ▸ hti)
        exact hoffset i hi (by omega) hti
      · intro i hi hout
        by_cases hlast : i = k + 1
        · exact hnone i hi (Or.inl (by omega))
        · exact hnone i hi (hout.imp (fun h => by omega) id)

theorem initType_laidOut (callbacks : AList (fun _ : TypeID N => List (PolyEvent × CB)))
    (h0 : t.getLsbD headerIndex) :
    T.LaidOut (PolyFactory.initType T.toComponents callbacks t) t := by
  obtain ⟨archetype, hfold, hsize, hoffset, hnone⟩ :=
    addTypes_prefix T CB h0 (N - 1) (by have := T.headerIndex_lt; omega)
  have hsucc : N - 1 + 1 = N := by have := T.headerIndex_lt; omega
  have hoffsets : (PolyFactory.initType T.toComponents callbacks t).typeOffsets =
      archetype.typeOffsets := by
    rw [PolyFactory.initType, PolyFactory.callbacks_fold (fun archetype => archetype.typeOffsets)
      fun _ _ _ => rfl, ← hfold]
    rfl
  have htotal : (PolyFactory.initType T.toComponents callbacks t).totalSize = archetype.totalSize := by
    rw [PolyFactory.initType, PolyFactory.callbacks_fold (fun archetype => archetype.totalSize)
      fun _ _ _ => rfl, ← hfold]
    rfl
  refine ⟨?_, ?_, by rw [htotal, hsize, hsucc]⟩
  · intro i hi
    obtain ⟨h1, hN⟩ := List.mem_range'_1.mp hi
    rw [Archetype.HasOffset, hoffsets]
    constructor
    · intro hvalid
      by_contra hbit
      exact hvalid (hnone i h1 (Or.inr hbit))
    · intro hbit hc
      have hlt := T.offset_lt t (Nat.le_of_lt (BitVec.lt_of_getLsbD hbit))
      rw [← hoffset i h1 (by omega) hbit, hc] at hlt
      exact absurd hlt (Nat.lt_irrefl _)
  · intro i hi hbit
    obtain ⟨h1, hN⟩ := List.mem_range'_1.mp hi
    rw [hoffsets]
    exact hoffset i h1 (by omega) hbit

end TypeTable
end CosmicArchitect.Util
