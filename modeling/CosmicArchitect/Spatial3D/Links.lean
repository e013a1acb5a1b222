import CosmicArchitect.Spatial3D.World

/-!
# Octree and neighbour links (SpatialWorld.cpp:16-61, 141-245)

`LinkNode` writes the pointers between a node and the nodes stored around it,
`UnlinkNode` clears the pointers of those nodes to it.
-/

namespace CosmicArchitect.Spatial3D

def nodeNeighbourOffsets : Nat → Vector3i
  | 0 => ⟨-1, 0, 0⟩
  | 1 => ⟨0, -1, 0⟩
  | 2 => ⟨0, 0, -1⟩
  | 3 => ⟨0, 0, 1⟩
  | 4 => ⟨0, 1, 0⟩
  | 5 => ⟨1, 0, 0⟩
  | _ => ⟨0, 0, 0⟩

def nodeChildOffsets : Nat → Vector3i
  | 0 => ⟨0, 0, 0⟩
  | 1 => ⟨1, 0, 0⟩
  | 2 => ⟨0, 1, 0⟩
  | 3 => ⟨1, 1, 0⟩
  | 4 => ⟨0, 0, 1⟩
  | 5 => ⟨1, 0, 1⟩
  | 6 => ⟨0, 1, 1⟩
  | 7 => ⟨1, 1, 1⟩
  | _ => ⟨0, 0, 0⟩

/-- `component & 0x1` is the remainder modulo 2, for negative components too. -/
def getNodeParentIndex (pos : Vector3i) : Nat :=
  (pos.x % 2 + pos.y % 2 * 2 + pos.z % 2 * 4).toNat

namespace Node
variable {D : Type}

def setNeighbour (n : Node D) (i : Nat) (b : Nat) : Node D :=
  { n with neighbours := Function.update n.neighbours i (some b)
           neighbourMask := n.neighbourMask ||| 1#8 <<< i }

def clearNeighbour (n : Node D) (i : Nat) : Node D :=
  { n with neighbours := Function.update n.neighbours i none
           neighbourMask := n.neighbourMask &&& ~~~(1#8 <<< i) }

def setChild (n : Node D) (i : Nat) (b : Nat) : Node D :=
  { n with children := Function.update n.children i (some b)
           childrenMask := n.childrenMask ||| 1#8 <<< i }

def clearChild (n : Node D) (i : Nat) : Node D :=
  { n with children := Function.update n.children i none
           childrenMask := n.childrenMask &&& ~~~(1#8 <<< i) }

def setParent (n : Node D) (b : Nat) (i : Nat) : Node D :=
  { n with parent := some b, parentIndex := i }

def clearParent (n : Node D) : Node D :=
  { n with parent := none, parentIndex := kNodeNoParent }

end Node

variable {D : Type}

def linkNeighbour (s a : Nat) (pos : Vector3i) (w : World D) (i : Nat) : World D :=
  match w.find s (pos + nodeNeighbourOffsets i) with
  | some (some b) => (w.modify a (·.setNeighbour i b)).modify b (·.setNeighbour (5 - i) a)
  | _ => w

def linkParent (s a : Nat) (pos : Vector3i) (w : World D) : World D :=
  match w.find (s + 1) (pos.shr 1) with
  | some (some b) =>
    let i := getNodeParentIndex pos
    (w.modify a (·.setParent b i)).modify b (·.setChild i a)
  | _ => w

def linkChild (s a : Nat) (pos : Vector3i) (w : World D) (i : Nat) : World D :=
  match w.find (s - 1) (pos.shl 1 + nodeChildOffsets i) with
  | some (some b) => (w.modify a (·.setChild i b)).modify b (·.setParent a i)
  | _ => w

/-- `LinkNode` for the node `a` at `pos` in scale `s`. -/
def linkNode (maxScale : Nat) (w : World D) (a s : Nat) (pos : Vector3i) : World D :=
  let w := (List.range 6).foldl (linkNeighbour s a pos) w
  let w := if s + 1 < maxScale then linkParent s a pos w else w
  if 0 < s then (List.range 8).foldl (linkChild s a pos) w else w

def unlinkNeighbour (a : Nat) (w : World D) (i : Nat) : World D :=
  match (w.heap a).bind (·.neighbours i) with
  | some b => w.modify b (·.clearNeighbour (5 - i))
  | none => w

def unlinkParent (a : Nat) (w : World D) : World D :=
  match w.heap a with
  | some n =>
    match n.parent with
    | some b => w.modify b (·.clearChild n.parentIndex)
    | none => w
  | none => w

def unlinkChild (a : Nat) (w : World D) (i : Nat) : World D :=
  match (w.heap a).bind (·.children i) with
  | some b => w.modify b (·.clearParent)
  | none => w

/-- `UnlinkNode` for the node `a` of scale `s`. -/
def unlinkNode (maxScale : Nat) (w : World D) (a s : Nat) : World D :=
  let w := (List.range 6).foldl (unlinkNeighbour a) w
  let w := if s + 1 < maxScale then unlinkParent a w else w
  if 0 < s then (List.range 8).foldl (unlinkChild a) w else w

end CosmicArchitect.Spatial3D
