import CosmicArchitect.Spatial3D.FailedOpen
import CosmicArchitect.Spatial3D.LinksAgree

/-!
# Voxels by position (Voxel/VoxelModule.cpp, Voxel/VoxelWorld.h)

A node holds 16 voxels along each axis. The lookups divide and take remainders as C++ does, rounding
towards zero; the voxel a position names lies in the node at the quotient rounded down.
-/

namespace CosmicArchitect.VoxelModule
open Spatial3D
open Spatial3D.Registration.FailedOpen (kMaxWorldScale)

structure Voxel where
  type : UInt16 := 0
  data : UInt16 := 0
deriving DecidableEq, Repr

/-- The voxels of `voxel::Node`. -/
structure VoxelNode where
  voxels : Fin 16 → Fin 16 → Fin 16 → Voxel := fun _ _ _ => {}

/-- What ends a lookup: an assertion of `GetNode` or `GetScale` (without assertions a null scale or
one past the array), a null or freed node, an index outside of the voxels. -/
inductive Fault
  | scaleRange
  | nullNode
  | freedNode
  | voxelIndex
deriving DecidableEq, Repr

/-- `GetNode` (SpatialWorld.cpp:75-89) in a world of `maxScale` scales. -/
def getNode (w : World VoxelNode) (maxScale : Nat) (position : Vector3i) (scaleIndex : UInt8) :
    Except Fault NodePtr :=
  if scaleIndex.toNat < kMaxWorldScale ∧ scaleIndex.toNat < maxScale then
    .ok (w.find scaleIndex.toNat position).join
  else .error .scaleRange

/-- `node->*&...` -/
def deref (w : World VoxelNode) : NodePtr → Except Fault (Node VoxelNode)
  | none => .error .nullNode
  | some a => match w.heap a with
    | some n => .ok n
    | none => .error .freedNode

/-- `pos / 16` -/
def nodePosition (pos : Vector3i) : Vector3i := ⟨pos.x.tdiv 16, pos.y.tdiv 16, pos.z.tdiv 16⟩

/-- An index into one dimension of `voxels`. -/
def voxelIndex (i : Int) : Except Fault (Fin 16) :=
  if h : 0 ≤ i ∧ i < 16 then .ok ⟨i.toNat, by omega⟩ else .error .voxelIndex

/-- `(node->*&Node::voxels)[pos.x % 16][pos.y % 16][pos.z % 16]` -/
def readVoxel (w : World VoxelNode) (node : NodePtr) (pos : Vector3i) : Except Fault Voxel := do
  let n ← deref w node
  let x ← voxelIndex (pos.x.tmod 16)
  let y ← voxelIndex (pos.y.tmod 16)
  let z ← voxelIndex (pos.z.tmod 16)
  return n.body.voxels x y z

def getVoxelAtScale (w : World VoxelNode) (maxScale : Nat) (pos : Vector3i) (scale : UInt32) :
    Except Fault Voxel := do
  let node ← getNode w maxScale (nodePosition pos) scale.toUInt8
  if node.isSome then return {} else readVoxel w node pos

/-- The recursion goes up to `k_max_world_scale` and wraps in 32 bits. -/
def getVoxelDepthFirst (w : World VoxelNode) (maxScale : Nat) (pos : Vector3i)
    (startScale : UInt32) : Except Fault Voxel :=
  if startScale = 16 then .ok {} else do
    let node ← getNode w maxScale (nodePosition pos) startScale.toUInt8
    if node.isSome then getVoxelDepthFirst w maxScale pos (startScale + 1)
    else readVoxel w node pos
termination_by (16 - startScale).toNat
decreasing_by
  have hne : startScale.toNat ≠ 16 := fun heq => ‹¬startScale = 16› (UInt32.toNat_inj.mp heq)
  have hlt := startScale.toNat_lt
  simp only [UInt32.toNat_sub, UInt32.toNat_add, UInt32.reduceToNat]
  omega

/-! ### The voxel a position names -/

/-- The position of the node around `pos`. -/
def floorPosition (pos : Vector3i) : Vector3i := ⟨pos.x / 16, pos.y / 16, pos.z / 16⟩

def floorIndex (i : Int) : Fin 16 := ⟨(i % 16).toNat, by omega⟩

/-- The node stored in a scale of the world, a null pointer where there is none. -/
def storedNode (w : World VoxelNode) (maxScale s : Nat) (position : Vector3i) : NodePtr :=
  if s < kMaxWorldScale ∧ s < maxScale then (w.find s position).join else none

/-- The voxel of the node around `pos` in scale `s`. -/
def voxelAtScale (w : World VoxelNode) (maxScale : Nat) (pos : Vector3i) (s : Nat) : Voxel :=
  match (storedNode w maxScale s (floorPosition pos)).bind w.heap with
  | some n => n.body.voxels (floorIndex pos.x) (floorIndex pos.y) (floorIndex pos.z)
  | none => {}

/-- The first scale from `start` on that stores a node around `pos`. -/
def firstScale (w : World VoxelNode) (maxScale : Nat) (pos : Vector3i) (start : Nat) : Option Nat :=
  (List.range' start (kMaxWorldScale - start)).find? fun s =>
    (storedNode w maxScale s (floorPosition pos)).isSome

def voxelDepthFirst (w : World VoxelNode) (maxScale : Nat) (pos : Vector3i) (start : Nat) : Voxel :=
  match firstScale w maxScale pos start with
  | some s => voxelAtScale w maxScale pos s
  | none => {}

/-! ### What the lookups do -/

section
variable {w : World VoxelNode} {maxScale : Nat} {pos : Vector3i} {scale : UInt32}

theorem toNat_toUInt8 (h : scale.toNat ≤ kMaxWorldScale) : scale.toUInt8.toNat = scale.toNat := by
  have hmax : kMaxWorldScale = 16 := rfl
  rw [UInt32.toNat_toUInt8]
  omega

theorem getNode_eq (h : scale.toNat ≤ kMaxWorldScale) (position : Vector3i) :
    getNode w maxScale position scale.toUInt8 =
      if scale.toNat < kMaxWorldScale ∧ scale.toNat < maxScale then
        .ok (storedNode w maxScale scale.toNat position)
      else .error .scaleRange := by
  unfold getNode storedNode
  rw [toNat_toUInt8 h]
  split <;> rfl

/-- A stored node, and nothing else, makes the test pass. -/
theorem getNode_cases (w : World VoxelNode) (maxScale : Nat) (h : scale.toNat ≤ kMaxWorldScale)
    (position : Vector3i) :
    (∃ a, getNode w maxScale position scale.toUInt8 = .ok (some a) ∧
      (storedNode w maxScale scale.toNat position).isSome) ∨
    (getNode w maxScale position scale.toUInt8 = .ok none ∨
      getNode w maxScale position scale.toUInt8 = .error .scaleRange) ∧
      ¬(storedNode w maxScale scale.toNat position).isSome := by
  rw [getNode_eq h]
  by_cases hrange : scale.toNat < kMaxWorldScale ∧ scale.toNat < maxScale
  · rw [if_pos hrange]
    cases hnode : storedNode w maxScale scale.toNat position with
    | some a => exact Or.inl ⟨a, rfl, rfl⟩
    | none => exact Or.inr ⟨Or.inl rfl, Bool.false_ne_true⟩
  · rw [if_neg hrange]
    right
    refine ⟨Or.inr rfl, ?_⟩
    rw [storedNode, if_neg hrange]
    exact Bool.false_ne_true

/-- What comes behind the look at a node: a stored node goes on with `found`, anything else ends
in a fault. -/
theorem getNode_bind_ok (h : scale.toNat ≤ kMaxWorldScale) (position : Vector3i)
    (found : Except Fault Voxel) (v : Voxel) :
    (do
      let node ← getNode w maxScale position scale.toUInt8
      if node.isSome then found else readVoxel w node pos) = .ok v ↔
    (storedNode w maxScale scale.toNat position).isSome ∧ found = .ok v := by
  rcases getNode_cases w maxScale h position with
    ⟨a, hget, hstored⟩ | ⟨hget | hget, hstored⟩
  · rw [hget]
    exact ⟨fun hfound => ⟨hstored, hfound⟩, fun hfound => hfound.2⟩
  · rw [hget]
    refine iff_of_false (fun hc => ?_) fun hc => hstored hc.1
    cases (show Except.error Fault.nullNode = Except.ok v from hc)
  · rw [hget]
    refine iff_of_false (fun hc => ?_) fun hc => hstored hc.1
    cases (show Except.error Fault.scaleRange = Except.ok v from hc)

/-- The lookup ends well only where a node is stored at the quotient rounded towards zero, and
then with the default voxel. -/
theorem getVoxelAtScale_ok (h : scale.toNat ≤ kMaxWorldScale) (v : Voxel) :
    getVoxelAtScale w maxScale pos scale = .ok v ↔
      (storedNode w maxScale scale.toNat (nodePosition pos)).isSome ∧ v = {} := by
  unfold getVoxelAtScale
  rw [getNode_bind_ok h]
  apply and_congr_right
  intro _
  constructor
  · exact fun hv => (Except.ok.inj hv).symm
  · exact fun hv => congrArg Except.ok hv.symm

theorem toNat_succ (h : scale.toNat < kMaxWorldScale) : (scale + 1).toNat = scale.toNat + 1 := by
  have hmax : kMaxWorldScale = 16 := rfl
  rw [UInt32.toNat_add, UInt32.toNat_one]
  omega

/-- So does the recursion when each scale up to the last stores one. -/
theorem getVoxelDepthFirst_ok (v : Voxel) (remaining : Nat) : ∀ scale : UInt32,
    scale.toNat + remaining = kMaxWorldScale →
    (getVoxelDepthFirst w maxScale pos scale = .ok v ↔
      (∀ s, scale.toNat ≤ s → s < kMaxWorldScale →
        (storedNode w maxScale s (nodePosition pos)).isSome) ∧ v = {}) := by
  induction remaining with
  | zero =>
    intro scale hremaining
    have hlast : scale = 16 := UInt32.toNat_inj.mp hremaining
    rw [getVoxelDepthFirst, if_pos hlast]
    constructor
    · exact fun hv => ⟨fun s hs hlt => by omega, (Except.ok.inj hv).symm⟩
    · exact fun hv => congrArg Except.ok hv.2.symm
  | succ remaining ih =>
    intro scale hremaining
    have hmax : kMaxWorldScale = 16 := rfl
    have hne : scale ≠ 16 := by
      intro heq
      have : (16 : UInt32).toNat = 16 := rfl
      rw [heq] at hremaining
      omega
    have hsucc : (scale + 1).toNat = scale.toNat + 1 := toNat_succ (by omega)
    rw [getVoxelDepthFirst, if_neg hne, getNode_bind_ok (by omega), ih (scale + 1) (by omega), hsucc,
      ← and_assoc]
    apply and_congr_left
    intro _
    constructor
    · intro h s hs hlt
      rcases Nat.eq_or_lt_of_le hs with heq | hgt
      · exact heq ▸ h.1
      · exact h.2 s hgt hlt
    · intro h
      exact ⟨h _ (Nat.le_refl _) (by omega), fun s hs hlt => h s (by omega) hlt⟩

end

/-- The lookups find the voxel the position names exactly when a node is stored at the quotient
rounded towards zero (in the given scale, or in all scales from it on) and that voxel is the
default one. -/
theorem lookups_iff (w : World VoxelNode) (maxScale : Nat) (pos : Vector3i) (scale : UInt32)
    (hscale : scale.toNat ≤ kMaxWorldScale) :
    (getVoxelAtScale w maxScale pos scale = .ok (voxelAtScale w maxScale pos scale.toNat) ↔
      (storedNode w maxScale scale.toNat (nodePosition pos)).isSome ∧
        voxelAtScale w maxScale pos scale.toNat = {}) ∧
    (getVoxelDepthFirst w maxScale pos scale = .ok (voxelDepthFirst w maxScale pos scale.toNat) ↔
      (∀ s, scale.toNat ≤ s → s < kMaxWorldScale →
        (storedNode w maxScale s (nodePosition pos)).isSome) ∧
        voxelDepthFirst w maxScale pos scale.toNat = {}) := by
  have hremaining : scale.toNat + (kMaxWorldScale - scale.toNat) = kMaxWorldScale :=
    Nat.add_sub_cancel' hscale
  exact ⟨getVoxelAtScale_ok hscale _, getVoxelDepthFirst_ok _ _ scale hremaining⟩

/-- A world of one node full of the given voxel. -/
def oneNode (position : Vector3i) (s : Nat) (voxel : Voxel) : World VoxelNode where
  scales k := if k = s then { nodes := AList.insert position (some 0) ∅ } else {}
  heap a := if a = 0 then
      some { position := position, scaleIndex := s, body := { voxels := fun _ _ _ => voxel } }
    else none

theorem lookups_iff_oneNode :
    let w := oneNode ⟨0, -1, 2⟩ 3 { type := 7 }
    let pos : Vector3i := ⟨3, -5, 40⟩
    (getVoxelAtScale w 16 pos 3 = .ok (voxelAtScale w 16 pos 3) ↔
      (storedNode w 16 3 (nodePosition pos)).isSome ∧ voxelAtScale w 16 pos 3 = {}) ∧
    (getVoxelDepthFirst w 16 pos 3 = .ok (voxelDepthFirst w 16 pos 3) ↔
      (∀ s, 3 ≤ s → s < kMaxWorldScale → (storedNode w 16 s (nodePosition pos)).isSome) ∧
        voxelDepthFirst w 16 pos 3 = {}) :=
  lookups_iff (oneNode ⟨0, -1, 2⟩ 3 { type := 7 }) 16 ⟨3, -5, 40⟩ 3 (by decide)

/-- Where a node is stored its voxels are not read, and where none is the null pointer is. -/
theorem lookups_inverted :
    let w := oneNode ⟨0, 0, 0⟩ 0 { type := 1 }
    let pos : Vector3i := ⟨5, 0, 0⟩
    getVoxelAtScale w 16 pos 0 = .ok {} ∧ voxelAtScale w 16 pos 0 = { type := 1 } ∧
    getVoxelAtScale {} 16 pos 0 = .error .nullNode ∧
    getVoxelDepthFirst {} 16 pos 0 = .error .nullNode ∧
    ¬(getVoxelAtScale w 16 pos 0 = .ok (voxelAtScale w 16 pos 0)) ∧
    ¬(getVoxelDepthFirst w 16 pos 0 = .ok (voxelDepthFirst w 16 pos 0)) := by
  intro w pos
  refine ⟨rfl, rfl, rfl, ?_, ?_, ?_⟩
  · rw [getVoxelDepthFirst]
    rfl
  · intro hc
    have hvoxel := ((getVoxelAtScale_ok (by decide) _).mp hc).2
    exact absurd hvoxel (by decide)
  · intro hc
    have hvoxel := ((getVoxelDepthFirst_ok _ 16 0 rfl).mp hc).2
    exact absurd hvoxel (by decide)

end CosmicArchitect.VoxelModule
