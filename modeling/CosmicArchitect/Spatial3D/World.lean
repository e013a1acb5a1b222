import CosmicArchitect.Util.GodotOperators
import CosmicArchitect.Util.Serialize
import Mathlib.Data.List.AList
import Mathlib.Logic.Function.Basic

/-!
# Spatial worlds (Spatial3D/SpatialWorld.h)

The data of one partial spatial world: the scales with their node maps and command lists,
the nodes behind their addresses, the IO tasks of the nodes and the background work that
was handed to the worker pool. `D` stands for the components a concrete world type adds to
its nodes (entity list, galaxies, ...), which the spatial code passes to callbacks only.
-/

namespace CosmicArchitect.Spatial3D
open Serialize

/-- Address of a poly; `none` is `nullptr`. -/
abbrev NodePtr := Option Nat

def kNodeNoParent : Nat := 255

structure NodeCoord where
  position : Vector3i
  scaleIndex : Nat := 0
deriving DecidableEq, Repr

inductive TaskState
  | idle
  | readInProgress
  | writeInProgress
  | readDone
  | writeDone
deriving DecidableEq, Repr

inductive NodeState
  | invalid
  | loading
  | loaded
  | saving
  | unloading
deriving DecidableEq, Repr

/-- `tkrzw::Status::Code` (tkrzw_lib_common.h:292-321). -/
inductive Status
  | success
  | unknownError
  | systemError
  | notImplementedError
  | preconditionError
  | invalidArgumentError
  | canceledError
  | notFoundError
  | permissionError
  | infeasibleError
  | duplicationError
  | brokenDataError
  | networkError
  | applicationError
deriving DecidableEq, Repr

/-- `IOTask`; the database it names is the one of its world. -/
structure IOTask where
  coord : NodeCoord
  data : Bytes := []
  status : Status := .success
  finished : Bool := false
deriving DecidableEq, Repr

/-- `Node` with the components `PartialNode` (`lastUpdateTime`) and `LocalNode`
(`taskState`, `task`) of its archetype and the further components `body`. -/
structure Node (D : Type) where
  position : Vector3i
  scaleIndex : Nat
  parentIndex : Nat := kNodeNoParent
  childrenMask : BitVec 8 := 0
  neighbourMask : BitVec 8 := 0
  parent : NodePtr := none
  children : Nat → NodePtr := fun _ => none
  neighbours : Nat → NodePtr := fun _ => none
  state : NodeState := .invalid
  lastUpdateTime : Int := 0
  taskState : TaskState := .idle
  task : Option Nat := none
  body : D

/-- `Scale` with the component `PartialScale`. -/
structure Scale where
  nodes : AList (fun _ : Vector3i => NodePtr) := ∅
  loadingNodes : List Vector3i := []
  unloadingNodes : List Vector3i := []

inductive IOKind
  | read
  | write
deriving DecidableEq, Repr

/-- A native task in the worker pool: which function runs on which `IOTask`, and whether
its database call has returned. -/
structure PoolTask where
  kind : IOKind
  task : Nat
  performed : Bool := false
deriving DecidableEq, Repr

/-- What a callback may rewrite in a node. -/
structure NodeBody (D : Type) where
  scaleIndex : Nat
  body : D
deriving DecidableEq, Repr

/-- `TypeData`; `localNode` says whether the node archetype has `LocalNode`, `newBody` is
the default constructed rest of a node. A generate callback may draw random numbers, here
its seed. -/
structure TypeData (D : Type) where
  maxScale : Nat
  nodeKeepalive : Int
  localNode : Bool
  newBody : D
  serializeCallbacks : List (Vector3i → NodeBody D → Writer → Writer)
  deserializeCallbacks : List (Vector3i → NodeBody D → Reader → NodeBody D × Reader)
  generateCallbacks : List (Nat → Vector3i → NodeBody D → NodeBody D)

/-- `World` with the components `PartialWorld` and `LocalWorld`: its scales, the node
blocks and IO tasks that are allocated, the outstanding background work, the database. -/
structure World (D : Type) where
  unloading : Bool := false
  scales : Nat → Scale := fun _ => {}
  heap : Nat → Option (Node D) := fun _ => none
  tasks : Nat → Option IOTask := fun _ => none
  pool : List PoolTask := []
  database : NodeCoord → Option Bytes := fun _ => none

/-- What happened in a run, for statements about histories. -/
inductive Event
  | created (a : Nat) (coord : NodeCoord)
  | readStarted (a task : Nat)
  | deserialize (a : Nat) (coord : NodeCoord) (callback : Nat) (data : Bytes)
  | generate (a : Nat) (coord : NodeCoord) (callback : Nat)
  | loaded (a : Nat)
  | serialized (a : Nat) (coord : NodeCoord) (data : Bytes)
  | destroyed (a : Nat) (coord : NodeCoord)
  | stored (coord : NodeCoord) (data : Bytes)
  | finished (task : Nat) (status : Status) (data : Bytes)
deriving DecidableEq, Repr

namespace World
variable {D : Type}

/-- Apply `f` to the node block at address `a`. -/
def modify (w : World D) (a : Nat) (f : Node D → Node D) : World D :=
  { w with heap := Function.update w.heap a ((w.heap a).map f) }

def setScale (w : World D) (s : Nat) (f : Scale → Scale) : World D :=
  { w with scales := Function.update w.scales s (f (w.scales s)) }

/-- `nodes.find(position)` on the map of one scale, `none` for the end iterator. -/
def find (w : World D) (s : Nat) (p : Vector3i) : Option NodePtr :=
  (w.scales s).nodes.lookup p

end World

/-- `WorldGetNodeCount` -/
def worldGetNodeCount {D : Type} (t : TypeData D) (w : World D) : Nat :=
  ((List.range t.maxScale).map fun s => (w.scales s).nodes.entries.length).sum

end CosmicArchitect.Spatial3D
