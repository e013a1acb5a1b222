import CosmicArchitect.Library.Blocks
import CosmicArchitect.Util.GodotOperators
import Mathlib.Logic.Function.Basic

/-!
# The octree in one block of memory (Util/TinyOctree.h)

`m_data` is the list of the nodes that were constructed in it, addressed by bytes. An access
that does not meet a node of the expected type at its address is `none`. Sizes are those of
8-byte items. Offsets are `uint16_t` and wrap around.
-/

namespace CosmicArchitect.Util
open Library.Blocks

namespace TinyOctree

abbrev Offset := UInt16

def kInvalidOffset : Offset := 0xFFFF

/-- The indexes `[x][y][z]` of the arrays in a node. -/
abbrev Octant := Bool × Bool × Bool

inductive Node (Item : Type)
  | offsetNode (offsets : Octant → Offset)
  | itemNode (items : Octant → Item)

def sizeofOffsetNode : Nat := 16

def Node.sizeof {Item : Type} : Node Item → Nat
  | .offsetNode _ => sizeofOffsetNode
  | .itemNode _ => 64

/-- A position or mask without negative components. -/
structure Cell where
  x : Nat := 0
  y : Nat := 0
  z : Nat := 0
deriving DecidableEq, Repr

def Cell.ofPos (pos : Vector3i) : Cell := ⟨pos.x.toNat, pos.y.toNat, pos.z.toNat⟩

end TinyOctree

open TinyOctree in
/-- `mask` holds `m_x_mask`, `m_y_mask` and `m_z_mask`. -/
structure TinyOctree (Item : Type) where
  startDepth : Nat
  mask : Cell := {}
  singleItem : Item
  data : List (Node Item) := []

namespace TinyOctree
variable {Item : Type} (kDepth : Nat) (kInvalidItem : Item)

def empty : TinyOctree Item := { startDepth := kDepth, singleItem := kInvalidItem }

def PosInOctree (pos : Vector3i) : Prop :=
  (0 ≤ pos.x ∧ pos.x < 2 ^ kDepth) ∧ (0 ≤ pos.y ∧ pos.y < 2 ^ kDepth) ∧
    (0 ≤ pos.z ∧ pos.z < 2 ^ kDepth)

instance (pos : Vector3i) : Decidable (PosInOctree kDepth pos) :=
  inferInstanceAs (Decidable (_ ∧ _))

/-- `(v >> bits) << bits` -/
def cutOff (v bits : Nat) : Nat := (v >>> bits) <<< bits

def PosInBounds (o : TinyOctree Item) (p : Cell) : Prop :=
  cutOff p.x (kDepth - o.startDepth) = o.mask.x ∧ cutOff p.y (kDepth - o.startDepth) = o.mask.y ∧
    cutOff p.z (kDepth - o.startDepth) = o.mask.z

instance (o : TinyOctree Item) (p : Cell) : Decidable (PosInBounds kDepth o p) :=
  inferInstanceAs (Decidable (_ ∧ _))

/-- `!!(pos.x & bit)` and so on. -/
def octant (p : Cell) (bit : Nat) : Octant := (p.x &&& bit != 0, p.y &&& bit != 0, p.z &&& bit != 0)

def getOffsetNode (data : List (Node Item)) (a : Nat) : Option (Octant → Offset) :=
  match blockAt Node.sizeof data a with
  | some (.offsetNode offsets) => some offsets
  | _ => none

def getItemNode (data : List (Node Item)) (a : Nat) : Option (Octant → Item) :=
  match blockAt Node.sizeof data a with
  | some (.itemNode items) => some items
  | _ => none

/-- `GetOffsetNode(a).offsets[x][y][z] = v` -/
def setOffset (data : List (Node Item)) (a : Nat) (c : Octant) (v : Offset) :
    Option (List (Node Item)) :=
  (getOffsetNode data a).map fun offsets =>
    write Node.sizeof data a (.offsetNode (Function.update offsets c v))

/-- `GetItemNode(a).items[x][y][z] = v` -/
def setItem (data : List (Node Item)) (a : Nat) (c : Octant) (v : Item) :
    Option (List (Node Item)) :=
  (getItemNode data a).map fun items =>
    write Node.sizeof data a (.itemNode (Function.update items c v))

def newOffsetNode : Node Item := .offsetNode fun _ => kInvalidOffset

def newItemNode : Node Item := .itemNode fun _ => kInvalidItem

/-- `EmplaceNode`: construct a node behind the others and return its offset. -/
def emplaceNode (data : List (Node Item)) (node : Node Item) : List (Node Item) × Offset :=
  (data ++ [node], UInt16.ofNat (bytes Node.sizeof data))

/-- `AddNewRoot` (lines 267-298) -/
def addNewRoot (o : TinyOctree Item) : Option (TinyOctree Item) :=
  let startDepth := o.startDepth - 1
  let data :=
    if startDepth = kDepth - 1 then
      setItem (emplaceNode o.data (newItemNode kInvalidItem)).1 0 (octant o.mask 1) o.singleItem
    else
      setOffset (newOffsetNode :: o.data) 0 (octant o.mask (1 <<< (kDepth - startDepth - 1)))
        (UInt16.ofNat sizeofOffsetNode)
  data.map fun data =>
    { o with
      startDepth := startDepth
      mask := ⟨cutOff o.mask.x (kDepth - startDepth), cutOff o.mask.y (kDepth - startDepth),
        cutOff o.mask.z (kDepth - startDepth)⟩
      data := data }

/- The loop around `AddNewRoot` (lines 75-78). The first argument is `m_start_depth`; `none`
   at 0 is the assertion that the bounds were expanded too many times. -/
def addRoots (p : Cell) : Nat → TinyOctree Item → Option (TinyOctree Item)
  | 0, o => if PosInBounds kDepth o p then some o else none
  | depth + 1, o =>
    if PosInBounds kDepth o p then some o
    else (addNewRoot kDepth kInvalidItem o).bind (addRoots p depth)

/-- `Get` (lines 129-175); `levels` counts the iterations that are left. -/
def getLoop (p : Cell) (data : List (Node Item)) : Nat → Nat → Nat → Option Item
  | 0, bit, a => (getItemNode data a).map fun items => items (octant p bit)
  | levels + 1, bit, a =>
    match getOffsetNode data a with
    | none => none
    | some offsets =>
      let offset := offsets (octant p bit)
      if offset = kInvalidOffset then some kInvalidItem
      else getLoop p data levels (bit >>> 1) (a + offset.toNat)

def get (o : TinyOctree Item) (pos : Vector3i) : Option Item :=
  if PosInOctree kDepth pos then
    let p := Cell.ofPos pos
    if PosInBounds kDepth o p then
      if o.startDepth = kDepth then some o.singleItem
      else getLoop kInvalidItem p o.data (kDepth - 1 - o.startDepth)
        (1 <<< (kDepth - o.startDepth - 1)) 0
    else some kInvalidItem
  else some kInvalidItem

variable [DecidableEq Item]

/-- The descent of `Set` (lines 87-125). -/
def setLoop (p : Cell) (value : Item) :
    Nat → Nat → Offset → List (Node Item) → Option (List (Node Item))
  | 0, bit, offset, data => setItem data offset.toNat (octant p bit) value
  | levels + 1, bit, offset, data =>
    match getOffsetNode data offset.toNat with
    | none => none
    | some offsets =>
      let childOffset := offsets (octant p bit)
      if childOffset = kInvalidOffset then
        if value = kInvalidItem then some data
        else
          -- `depth == k_depth - 2` in the iteration before the last
          let emplaced := emplaceNode data
            (if levels = 0 then newItemNode kInvalidItem else newOffsetNode)
          let childOffset := emplaced.2 - offset
          (setOffset emplaced.1 offset.toNat (octant p bit) childOffset).bind
            (setLoop p value levels (bit >>> 1) (offset + childOffset))
      else setLoop p value levels (bit >>> 1) (offset + childOffset) data

/-- `Set` (lines 41-126) -/
def set (o : TinyOctree Item) (pos : Vector3i) (value : Item) : Option (TinyOctree Item) :=
  if PosInOctree kDepth pos then
    let p := Cell.ofPos pos
    if o.startDepth = kDepth ∧ o.singleItem = kInvalidItem then
      some { o with singleItem := value, mask := p }
    else if o.startDepth = kDepth ∧ value = kInvalidItem ∧ PosInBounds kDepth o p then
      some { o with singleItem := kInvalidItem, mask := {} }
    else
      (addRoots kDepth kInvalidItem p o.startDepth o).bind fun o =>
        if o.startDepth = kDepth then some { o with singleItem := value }
        else
          (setLoop kInvalidItem p value (kDepth - 1 - o.startDepth)
            (1 <<< (kDepth - o.startDepth - 1)) 0 o.data).map fun data => { o with data := data }
  else some o

/-- A sequence of `Set` calls. -/
def setAll (o : TinyOctree Item) : List (Vector3i × Item) → Option (TinyOctree Item)
  | [] => some o
  | (pos, value) :: calls => (set kDepth kInvalidItem o pos value).bind fun o => setAll o calls

end TinyOctree
end CosmicArchitect.Util
