import CosmicArchitect.Voxel.VoxelModule

/-!
# The octree search for a voxel (VoxelModule.cpp:79-107)

The search starts at a node and means to follow the links to ever smaller nodes around the position,
which counts voxels of the start scale.
-/

namespace CosmicArchitect.VoxelModule
open Spatial3D
open Spatial3D.Registration.FailedOpen (kMaxWorldScale)

/-- The slot the loop reads: its bits go the other way round than in `GetNodeParentIndex`. -/
def childSlot (nodePos : Vector3i) : Nat :=
  (nodePos.x % 2 * 4 + nodePos.y % 2 * 2 + nodePos.z % 2).toNat

/-- The slots agree where the first and the last coordinate have the same parity. -/
theorem childSlot_eq_iff (p : Vector3i) :
    childSlot p = getNodeParentIndex p ↔ p.x % 2 = p.z % 2 := by
  unfold childSlot getNodeParentIndex
  omega

/-- The loop, of which `turns` bounds the turns, with the slots it read: it ends at a node that has
a child in the slot. -/
def octreeLoop (w : World VoxelNode) : Nat → List Nat → NodePtr → Vector3i →
    Option (List Nat × Except Fault NodePtr)
  | 0, _, _, _ => none
  | turns + 1, slots, node, nodePos =>
    match deref w node with
    | .error fault => some (slots, .error fault)
    | .ok n =>
      let slot := childSlot nodePos
      let childNode := n.children slot
      if childNode.isSome then some (slots ++ [slot], .ok node)
      else octreeLoop w turns (slots ++ [slot]) childNode (nodePos.shr 2)

def getVoxelOctreeSearch (w : World VoxelNode) (maxScale : Nat) (pos : Vector3i)
    (startScale : UInt32) (turns : Nat) : Option (List Nat × Except Fault Voxel) :=
  match getNode w maxScale (nodePosition pos) startScale.toUInt8 with
  | .error fault => some ([], .error fault)
  | .ok node =>
    if node.isSome then some ([], .ok {})
    else (octreeLoop w turns [] node (nodePosition pos)).map fun (slots, node) =>
      (slots, node.bind fun node => readVoxel w node pos)

/-! ### The way down that the links make -/

/-- The node around `pos` that lies `depth` scales below the start. -/
def containing (pos : Vector3i) (depth : Nat) : Vector3i := floorPosition (pos.shl depth)

/-- The deepest linked descendant around `pos` of the node `a` in scale `s`. -/
def descend (w : World VoxelNode) (pos : Vector3i) : Nat → Nat → Nat → Nat
  | 0, _, a => a
  | s + 1, depth, a =>
    match (w.heap a).bind (·.children (getNodeParentIndex (containing pos (depth + 1)))) with
    | some b => descend w pos s (depth + 1) b
    | none => a

/-- The node `a` of scale `s` is the last on the way: it lies around `pos`, and no child that
does is linked to it. -/
structure Deepest (w : World VoxelNode) (pos : Vector3i) (s depth a : Nat)
    (n : Node VoxelNode) : Prop where
  stored : w.At s (containing pos depth) a n
  leaf : s = 0 ∨ n.children (getNodeParentIndex (containing pos (depth + 1))) = none

variable {w : World VoxelNode} {pos : Vector3i}

/-- Half of a node around the position is the node one scale up. -/
theorem containing_succ (pos : Vector3i) (depth : Nat) :
    (containing pos depth).shl 1 + nodeChildOffsets (getNodeParentIndex (containing pos (depth + 1))) =
      containing pos (depth + 1) := by
  have hup : (containing pos (depth + 1)).shr 1 = containing pos depth := by
    rw [Vector3i.shr_one, Vector3i.ext_iff']
    simp only [containing, floorPosition, Vector3i.shl, Int.pow_succ, ← Int.mul_assoc]
    omega
  rw [← hup]
  exact child_of_parent _

theorem descend_deepest (h : w.LinksAgree) (s : Nat) : ∀ depth a n,
    w.At s (containing pos depth) a n → ∃ e l, e ≤ s ∧
      Deepest w pos (s - e) (depth + e) (descend w pos s depth a) l := by
  induction s with
  | zero => exact fun depth a n hat => ⟨0, n, Nat.le_refl _, hat, Or.inl rfl⟩
  | succ s ih =>
    intro depth a n hat
    cases hchild : n.children (getNodeParentIndex (containing pos (depth + 1))) with
    | none =>
      have hstay : descend w pos (s + 1) depth a = a := by
        simp only [descend, hat.heap, Option.bind_some, hchild]
      rw [hstay]
      exact ⟨0, n, Nat.zero_le _, hat, Or.inr hchild⟩
    | some b =>
      obtain ⟨_, _, l, hlat⟩ := h.child _ _ _ _ _ _ hat hchild
      rw [containing_succ] at hlat
      obtain ⟨e, l', he, hdeepest⟩ := ih (depth + 1) b l hlat
      have hdown : descend w pos (s + 1) depth a = descend w pos s (depth + 1) b := by
        simp only [descend, hat.heap, Option.bind_some, hchild]
      rw [hdown]
      have hscale : s + 1 - (e + 1) = s - e := by omega
      have hdepth : depth + (e + 1) = depth + 1 + e := by omega
      refine ⟨e + 1, l', by omega, ?_⟩
      rw [hscale, hdepth]
      exact hdeepest

/-! ### What the search returns -/

/-- The search ends without a fault, reads the slots of the children around the position, and
returns a voxel of the deepest linked descendant of the start node `a`. -/
def FollowsLinks (w : World VoxelNode) (maxScale : Nat) (pos : Vector3i) (startScale : UInt32)
    (a : Nat) : Prop :=
  ∃ turns slots v, getVoxelOctreeSearch w maxScale pos startScale turns = some (slots, .ok v) ∧
    (∀ k slot, slots[k]? = some slot →
      slot = getNodeParentIndex (containing pos (k + 1))) ∧
    ∃ l x y z, w.heap (descend w pos startScale.toNat 0 a) = some l ∧ v = l.body.voxels x y z

theorem octreeLoop_null (turns : Nat) (slots : List Nat) (nodePos : Vector3i) :
    octreeLoop w turns slots none nodePos = none ∨
      octreeLoop w turns slots none nodePos = some (slots, .error .nullNode) := by
  cases turns with
  | zero => exact Or.inl rfl
  | succ turns => exact Or.inr rfl

/-- From a stored node, too, the loop goes no deeper: it ends at a node with a child, and a node
without one takes it to the null pointer. -/
theorem octreeLoop_stored {a : Nat} {n : Node VoxelNode} (hn : w.heap a = some n) (turns : Nat)
    (slots : List Nat) (nodePos : Vector3i) :
    octreeLoop w (turns + 2) slots (some a) nodePos =
      some (slots ++ [childSlot nodePos],
        if (n.children (childSlot nodePos)).isSome then .ok (some a) else .error .nullNode) := by
  have hderef : deref w (some a) = .ok n := by
    simp only [deref, hn]
  simp only [octreeLoop, hderef]
  cases n.children (childSlot nodePos) with
  | some b => rfl
  | none => rfl

/-- The search returns only what it returns for a stored node, the default voxel. -/
theorem getVoxelOctreeSearch_ok {maxScale : Nat} {scale : UInt32}
    (h : scale.toNat ≤ kMaxWorldScale) (turns : Nat) (slots : List Nat) (v : Voxel) :
    getVoxelOctreeSearch w maxScale pos scale turns = some (slots, .ok v) ↔
      (storedNode w maxScale scale.toNat (nodePosition pos)).isSome ∧ slots = [] ∧ v = {} := by
  unfold getVoxelOctreeSearch
  rcases getNode_cases w maxScale h (nodePosition pos) with
    ⟨b, hget, hstored⟩ | ⟨hget | hget, hstored⟩
  · rw [hget]
    constructor
    · intro hv
      cases (show some ([], Except.ok {}) = some (slots, Except.ok v) from hv)
      exact ⟨hstored, rfl, rfl⟩
    · intro hv
      rw [hv.2.1, hv.2.2]
      rfl
  · rw [hget]
    refine iff_of_false (fun hv => ?_) fun hc => hstored hc.1
    have hloop : (octreeLoop w turns [] none (nodePosition pos)).map (fun (slots, node) =>
        (slots, node.bind fun node => readVoxel w node pos)) = some (slots, .ok v) := hv
    rcases octreeLoop_null (w := w) turns [] (nodePosition pos) with hnone | hnull
    · rw [hnone] at hloop
      cases hloop
    · rw [hnull] at hloop
      cases hloop
  · rw [hget]
    refine iff_of_false (fun hv => ?_) fun hc => hstored hc.1
    cases (show some ([], Except.error Fault.scaleRange) = some (slots, Except.ok v) from hv)

/-- The search follows the links exactly when a node is stored at the quotient rounded towards
zero and the deepest linked descendant of the start node holds a default voxel. -/
theorem followsLinks_iff (w : World VoxelNode) (maxScale : Nat) (pos : Vector3i) (scale : UInt32)
    (a : Nat) (n : Node VoxelNode) (hlinks : w.LinksAgree) (hscale : scale.toNat < kMaxWorldScale)
    (hstart : w.At scale.toNat (floorPosition pos) a n) :
    ∃ e l, e ≤ scale.toNat ∧
      Deepest w pos (scale.toNat - e) e (descend w pos scale.toNat 0 a) l ∧
      (FollowsLinks w maxScale pos scale a ↔
        (storedNode w maxScale scale.toNat (nodePosition pos)).isSome ∧
          ∃ x y z, l.body.voxels x y z = {}) := by
  have hzero : containing pos 0 = floorPosition pos := by
    simp only [containing, Vector3i.shl, Int.pow_zero, Int.mul_one]
  rw [← hzero] at hstart
  obtain ⟨e, l, he, hdeepest⟩ := descend_deepest hlinks scale.toNat 0 a n hstart
  rw [Nat.zero_add] at hdeepest
  refine ⟨e, l, he, hdeepest, ?_⟩
  have hle := Nat.le_of_lt hscale
  constructor
  · intro h
    obtain ⟨turns, slots, v, hsearch, _, l', x, y, z, hheap, hv⟩ := h
    obtain ⟨hstored, _, hdefault⟩ := (getVoxelOctreeSearch_ok hle turns slots v).mp hsearch
    cases hdeepest.stored.heap.symm.trans hheap
    exact ⟨hstored, x, y, z, hv.symm.trans hdefault⟩
  · intro h
    obtain ⟨hstored, x, y, z, hvoxel⟩ := h
    refine ⟨0, [], {}, (getVoxelOctreeSearch_ok hle 0 [] {}).mpr ⟨hstored, rfl, rfl⟩, ?_, ?_⟩
    · intro k slot hslot
      cases hslot
    · exact ⟨l, x, y, z, hdeepest.stored.heap, hvoxel.symm⟩

/-- A world type for voxel nodes, without callbacks. -/
def plainType : TypeData VoxelNode where
  maxScale := 16
  nodeKeepalive := 20000
  localNode := true
  newBody := {}
  serializeCallbacks := []
  deserializeCallbacks := []
  generateCallbacks := []

/-- A node in scale 1 and its child at the origin are loaded, then the larger one is filled. -/
def nestedRun : List (Label VoxelNode) :=
  [.touchNode 0 ⟨0, 0, 0⟩ 0 0] ++ loadAlone 0 0 ++ [.touchNode 1 ⟨0, 0, 0⟩ 0 1] ++
    loadAlone 1 1 ++ [.editNode 1 ⟨0, 0, 0⟩ { voxels := fun _ _ _ => { type := 1 } }]

/-- The search returns the default voxel, which the child holds and the start node does not. -/
theorem followsLinks_iff_nestedRun :
    ∃ m, (worldMachine plainType fun _ => none).exec (initial _ fun _ => none) nestedRun = some m ∧
      descend m.world ⟨5, 3, 0⟩ 1 0 1 = 0 ∧ FollowsLinks m.world 16 ⟨5, 3, 0⟩ 1 1 := by
  have hrun : ((worldMachine plainType fun _ => none).exec (initial _ fun _ => none)
      nestedRun).map (fun m => (m.world.find 1 ⟨0, 0, 0⟩, (m.world.heap 1).isSome,
        descend m.world ⟨5, 3, 0⟩ 1 0 1, (m.world.heap 0).map fun l => l.body.voxels 0 0 0)) =
        some (some (some 1), true, 0, some {}) := by decide +kernel
  obtain ⟨m, hm, hall⟩ := Option.map_eq_some_iff.mp hrun
  obtain ⟨hfind, hrest⟩ := Prod.mk.inj hall
  obtain ⟨hheap, hrest⟩ := Prod.mk.inj hrest
  obtain ⟨hdescend, hvoxel⟩ := Prod.mk.inj hrest
  obtain ⟨n, hn⟩ := Option.isSome_iff_exists.mp hheap
  have hlinks := (reach_linked (Library.Machine.reachable_of_exec
    (M := worldMachine plainType fun _ => none) rfl hm)).linksAgree
  obtain ⟨e, l, -, hdeepest, hiff⟩ :=
    followsLinks_iff m.world 16 ⟨5, 3, 0⟩ 1 1 n hlinks (by decide) ⟨hfind, hn⟩
  refine ⟨m, hm, hdescend, hiff.mpr ⟨?_, 0, 0, 0, ?_⟩⟩
  · show (storedNode m.world 16 1 ⟨0, 0, 0⟩).isSome = true
    rw [storedNode, if_pos (by decide), hfind]
    rfl
  · have hl : m.world.heap (descend m.world ⟨5, 3, 0⟩ 1 0 1) = some l := hdeepest.stored.heap
    rw [hdescend] at hl
    rw [hl] at hvoxel
    exact Option.some.inj hvoxel

section
variable {position : Vector3i} {s : Nat} {voxel : Voxel}

theorem oneNode_find (pos' : Vector3i) : (oneNode position s voxel).find s pos' =
    if pos' = position then some (some 0) else none := by
  simp only [World.find, oneNode, if_pos]
  split
  case isTrue h =>
    rw [h]
    exact AList.lookup_insert _
  case isFalse h =>
    rw [AList.lookup_insert_ne h]
    exact AList.lookup_empty _

theorem oneNode_at {s' : Nat} {pos' : Vector3i} {a : Nat} {n : Node VoxelNode}
    (h : (oneNode position s voxel).At s' pos' a n) : s' = s ∧ pos' = position ∧
      n = { position := position, scaleIndex := s, body := { voxels := fun _ _ _ => voxel } } := by
  obtain ⟨hfind, hheap⟩ := h
  have hscale : s' = s := by
    by_contra hne
    simp only [World.find, oneNode, if_neg hne] at hfind
    cases hfind
  have hpos : pos' = position := by
    by_contra hne
    rw [hscale, oneNode_find, if_neg hne] at hfind
    cases hfind
  refine ⟨hscale, hpos, ?_⟩
  simp only [oneNode] at hheap
  split at hheap
  · exact (Option.some.inj hheap).symm
  · cases hheap

theorem oneNode_stored : (oneNode position s voxel).At s position 0
    { position := position, scaleIndex := s, body := { voxels := fun _ _ _ => voxel } } where
  find := by rw [oneNode_find, if_pos rfl]
  heap := rfl

/-- One node has no links. -/
theorem oneNode_linksAgree : (oneNode position s voxel).LinksAgree where
  parent s' pos' a n b hat hp := by
    rw [(oneNode_at hat).2.2] at hp
    cases hp
  child s' pos' a n i b hat hc := by
    rw [(oneNode_at hat).2.2] at hc
    cases hc
  neighbour s' pos' a n i b hat hn := by
    rw [(oneNode_at hat).2.2] at hn
    cases hn
  neighbourSymm s' pos' a n s'' pos'' b l i hat hat' _ := by
    rw [(oneNode_at hat).2.2, (oneNode_at hat').2.2]
    exact iff_of_false (fun h => by cases h) (fun h => by cases h)
  childSymm s' pos' a n s'' pos'' b l i hat hat' := by
    rw [(oneNode_at hat).2.2, (oneNode_at hat').2.2]
    exact iff_of_false (fun h => by cases h) (fun h => by cases h.1)
  childrenMask s' pos' a n i hat _ := by
    rw [(oneNode_at hat).2.2]
    exact iff_of_false (by simp) (fun h => h rfl)
  neighbourMask s' pos' a n i hat _ := by
    rw [(oneNode_at hat).2.2]
    exact iff_of_false (by simp) (fun h => h rfl)
  parentIndex s' pos' a n hat := by
    rw [(oneNode_at hat).2.2]
    exact iff_of_true rfl rfl
  adjacent s' pos' a n b l i hat hi hat' _ _ := by
    have hne := neighbourOffset_ne pos' hi
    rw [(oneNode_at hat').2.1, (oneNode_at hat).2.1] at hne
    exact absurd rfl hne
  nested s' pos' a n b l i hat _ hat' _ _ := by
    have hup := (oneNode_at hat).1
    have hdown := (oneNode_at hat').1
    omega

end

/-- The search returns the default voxel for a node that holds none. -/
theorem search_default :
    let w := oneNode ⟨0, 0, 0⟩ 0 { type := 1 }
    let pos : Vector3i := ⟨5, 0, 0⟩
    w.LinksAgree ∧ (∃ n, w.At 0 (floorPosition pos) 0 n) ∧
    getVoxelOctreeSearch w 16 pos 0 1 = some ([], .ok {}) ∧ ¬FollowsLinks w 16 pos 0 0 := by
  intro w pos
  refine ⟨oneNode_linksAgree, ⟨_, oneNode_stored⟩, rfl, fun h => ?_⟩
  obtain ⟨turns, slots, v, hsearch, _, l, x, y, z, hheap, hv⟩ := h
  have hdefault := ((getVoxelOctreeSearch_ok (by decide) turns slots v).mp hsearch).2.2
  have hvoxel : l.body.voxels x y z = { type := 1 } := by
    cases hheap
    rfl
  rw [hvoxel, hdefault] at hv
  exact absurd hv (by decide)

end CosmicArchitect.VoxelModule
