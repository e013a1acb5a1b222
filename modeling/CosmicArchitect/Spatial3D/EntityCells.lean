import CosmicArchitect.Spatial3D.Traverse

/-!
# The node an entity belongs to (Spatial3D/SpatialWorld.cpp)

Entities are filed under the node their position requires, whose components have 32 bits. Loading
takes a node to hold the positions of its cell, `(1 << index) * node_size` long on every axis.
-/

namespace CosmicArchitect

namespace Vector3

def int32Min : ℤ := -2 ^ 31

def int32Max : ℤ := 2 ^ 31 - 1

/-- A component divided by an `int` in floating point: over zero it is infinite or not a number. -/
def divide (q : ℚ) (n : Nat) : Option ℚ := if n = 0 then none else some (q / n)

/-- The conversion to `int32_t`; what does not fit becomes the least one. -/
def toInt32 : Option ℚ → ℤ
  | none => int32Min
  | some q => if int32Min ≤ trunc q ∧ trunc q ≤ int32Max then trunc q else int32Min

/-- A vector over an `int`, converted to a `Vector3i`. -/
def dividedBy (v : Vector3) (n : Nat) : Vector3i :=
  ⟨toInt32 (divide v.x n), toInt32 (divide v.y n), toInt32 (divide v.z n)⟩

/-- What the conversion makes of an integer. -/
def wrapped (n : ℤ) : ℤ := if int32Min ≤ n ∧ n ≤ int32Max then n else int32Min

theorem trunc_intCast (n : ℤ) : trunc n = n := by
  rw [trunc, Int.floor_intCast, Int.ceil_intCast, ite_self]

theorem toInt32_divide_one (q : ℚ) : toInt32 (divide q 1) = wrapped (trunc q) := by
  rw [divide, if_neg (by decide), Nat.cast_one, div_one]
  rfl

theorem wrapped_of_fits {n : ℤ} (h : int32Min ≤ n ∧ n ≤ int32Max) : wrapped n = n := if_pos h

end Vector3

namespace Spatial3D
open Vector3 (int32Min int32Max wrapped)

structure CPosition where
  position : Vector3
  scale : Nat := 0

/-- `required_node_pos` in `ScaleUpdateEntityNodes` (line 759). -/
def scaleRequiredNodePos (index : Nat) (entity : CPosition) : Vector3i :=
  entity.position.dividedBy (1 >>> index)

/-- `required_node_pos` in `WorldUpdateEntityScales` (line 728). -/
def worldRequiredNodePos (entity : CPosition) : Vector3i :=
  entity.position.dividedBy (1 >>> entity.scale)

/-- `scale_node_step` (lines 667-668 of SpatialWorld.cpp, 28-29 of UniverseModule.cpp). -/
def scaleNodeStep (nodeSize index : Nat) : Nat := (1 <<< index) * nodeSize

/-- The position lies in the cell of the node at `p`. -/
def InCell (nodeSize index : Nat) (p : Vector3i) (position : Vector3) : Prop :=
  let step : ℚ := scaleNodeStep nodeSize index
  (p.x * step ≤ position.x ∧ position.x < (p.x + 1) * step) ∧
  (p.y * step ≤ position.y ∧ position.y < (p.y + 1) * step) ∧
  (p.z * step ≤ position.z ∧ position.z < (p.z + 1) * step)

/-- Without a division by zero both functions compute the node in whose cell the entity lies. -/
def FiledInCell (nodeSize index : Nat) (position : Vector3) : Prop :=
  1 >>> index ≠ 0 ∧
  InCell nodeSize index (scaleRequiredNodePos index ⟨position, index⟩) position ∧
  InCell nodeSize index (worldRequiredNodePos ⟨position, index⟩) position

theorem divisor_zero_iff (index : Nat) : 1 >>> index = 0 ↔ index ≠ 0 := by
  rw [Nat.shiftRight_eq_div_pow, Nat.div_eq_zero_iff]
  rcases Nat.eq_zero_or_pos index with rfl | hpos
  · decide
  · have hlt : 1 < 2 ^ index := Nat.one_lt_two_pow (by omega)
    omega

/-- At the first scale an integer position is its own node, as far as it fits. -/
theorem required_zero (v : Vector3i) :
    scaleRequiredNodePos 0 ⟨.ofVector3i v, 0⟩ = ⟨wrapped v.x, wrapped v.y, wrapped v.z⟩ := by
  have hone : (1 : Nat) >>> 0 = 1 := rfl
  simp only [scaleRequiredNodePos, hone, Vector3.dividedBy, Vector3.toInt32_divide_one,
    Vector3.ofVector3i, Vector3.trunc_intCast]

/-- The component lies in the cell of its own node: the cell of a node of size 1, or one next to
the origin; or it is so small that it is converted to the least integer, in whose cell it lies. -/
def ComponentInCell (nodeSize : Nat) (n : ℤ) : Prop :=
  n = -1 ∨ n = 0 ∨ (nodeSize = 1 ∧ int32Min ≤ n ∧ n ≤ int32Max) ∨
    (n < int32Min ∧ int32Min * nodeSize ≤ n ∧ n < (int32Min + 1) * nodeSize)

theorem component_fits {nodeSize : Nat} (h : 1 ≤ nodeSize) (n : ℤ) :
    (n * nodeSize ≤ n ∧ n < (n + 1) * nodeSize) ↔ nodeSize = 1 ∨ n = -1 ∨ n = 0 := by
  constructor
  · rintro ⟨hle, hlt⟩
    by_contra hnot
    simp only [not_or] at hnot
    have htwo : (2 : ℤ) ≤ nodeSize := by omega
    rcases lt_or_ge n 0 with hneg | hpos
    · have hn : n + 2 ≤ 0 := by omega
      nlinarith
    · have hn : 1 ≤ n := by omega
      nlinarith
  · rintro (hone | rfl | rfl)
    · rw [hone]
      omega
    · omega
    · omega

theorem component_iff {nodeSize : Nat} (h : 1 ≤ nodeSize) (n : ℤ) :
    (((wrapped n : ℤ) : ℚ) * scaleNodeStep nodeSize 0 ≤ n ∧
      (n : ℚ) < ((wrapped n : ℤ) + 1) * scaleNodeStep nodeSize 0) ↔
      ComponentInCell nodeSize n := by
  have hstep : scaleNodeStep nodeSize 0 = nodeSize := by simp [scaleNodeStep]
  have hcast : (((wrapped n : ℤ) : ℚ) * scaleNodeStep nodeSize 0 ≤ n ∧
      (n : ℚ) < ((wrapped n : ℤ) + 1) * scaleNodeStep nodeSize 0) ↔
      (wrapped n * nodeSize ≤ n ∧ n < (wrapped n + 1) * nodeSize) := by
    rw [hstep]
    exact_mod_cast Iff.rfl
  have hmin : int32Min = -2147483648 := rfl
  have hmax : int32Max = 2147483647 := rfl
  rw [hcast, ComponentInCell]
  by_cases hfits : int32Min ≤ n ∧ n ≤ int32Max
  · rw [Vector3.wrapped_of_fits hfits, component_fits h n]
    omega
  · have hleast : wrapped n = int32Min := if_neg hfits
    rw [hleast]
    rcases lt_or_ge n int32Min with hlt | hge
    · omega
    · -- above the range no cell of a negative node is right
      have hnot : ¬n < (int32Min + 1) * nodeSize := by
        have hone : (1 : ℤ) ≤ nodeSize := by omega
        have hneg : (int32Min + 1) * nodeSize ≤ int32Min + 1 := by
          rw [hmin]
          omega
        omega
      omega

/-- An entity at an integer position is filed under the node whose cell it lies in exactly at the
first scale, with each component in its cell. -/
theorem filedInCell_iff {nodeSize : Nat} (h : 1 ≤ nodeSize) (index : Nat) (v : Vector3i) :
    FiledInCell nodeSize index (.ofVector3i v) ↔
      index = 0 ∧ ComponentInCell nodeSize v.x ∧ ComponentInCell nodeSize v.y ∧
        ComponentInCell nodeSize v.z := by
  rw [FiledInCell, ne_eq, divisor_zero_iff, not_not]
  refine and_congr_right fun hindex => ?_
  subst hindex
  have hworld : worldRequiredNodePos ⟨.ofVector3i v, 0⟩ = ⟨wrapped v.x, wrapped v.y, wrapped v.z⟩ :=
    required_zero v
  rw [required_zero, hworld, and_self]
  simp only [InCell, Vector3.ofVector3i, component_iff h]

/-- With nodes of size 16, as those of the universe. -/
theorem filedInCell_corner : FiledInCell 16 0 (.ofVector3i ⟨-1, 0, 0⟩) :=
  (filedInCell_iff (by decide) 0 ⟨-1, 0, 0⟩).mpr
    ⟨rfl, Or.inl rfl, Or.inr (Or.inl rfl), Or.inr (Or.inl rfl)⟩

/-- The second scale divides by zero, at the first the node size is left out, and a position that
is too large is sought at the least node. -/
theorem required_wrong :
    scaleRequiredNodePos 1 ⟨.ofVector3i ⟨0, 0, 0⟩, 1⟩ = ⟨int32Min, int32Min, int32Min⟩ ∧
    scaleRequiredNodePos 0 ⟨.ofVector3i ⟨16, 0, 0⟩, 0⟩ = ⟨16, 0, 0⟩ ∧
    scaleRequiredNodePos 0 ⟨.ofVector3i ⟨3000000000, 0, 0⟩, 0⟩ = ⟨int32Min, 0, 0⟩ ∧
    ¬FiledInCell 16 1 (.ofVector3i ⟨0, 0, 0⟩) ∧ ¬FiledInCell 16 0 (.ofVector3i ⟨16, 0, 0⟩) ∧
    ¬FiledInCell 1 0 (.ofVector3i ⟨3000000000, 0, 0⟩) := by
  have hlarge := required_zero ⟨3000000000, 0, 0⟩
  have hsixteen := required_zero ⟨16, 0, 0⟩
  have hleast : wrapped 3000000000 = int32Min := by decide
  have hfits : wrapped 16 = 16 ∧ wrapped 0 = 0 := by decide
  simp only [hleast, hfits.1, hfits.2] at hlarge hsixteen
  refine ⟨rfl, hsixteen, hlarge, fun h => h.1 rfl, fun h => ?_, fun h => ?_⟩
  · obtain ⟨-, ⟨⟨hle, -⟩, -⟩, -⟩ := h
    rw [hsixteen] at hle
    norm_num [scaleNodeStep, Vector3.ofVector3i] at hle
  · obtain ⟨-, ⟨⟨-, hlt⟩, -⟩, -⟩ := h
    rw [hlarge] at hlt
    norm_num [scaleNodeStep, Vector3.ofVector3i, int32Min] at hlt

end Spatial3D
end CosmicArchitect
