import CosmicArchitect.Library.Machine
import Mathlib.Logic.Function.Basic

/-!
# The render id allocator (Render/RenderAllocator.cpp)

Simulation threads take ids from the pools of the server and request new ones, which the
render thread creates. `call_on_render_thread` puts a call at the end of the queue of the
render thread; a call that runs at once is one that the render thread has finished before the
caller goes on. A region under `m_mutex` is one step where no other thread can tell the
difference.
-/

namespace CosmicArchitect.Render

inductive RIDType
  | texture2D | texture3D | shader | material | mesh | multiMesh | skeleton | directionalLight
  | omniLight | spotLight | reflectionProbe | decal | voxelGI | lightmap | particles
  | particlesCollision | fogVolume | visibilityNotifier | occluder | camera | viewport | sky
  | compositorEffect | compositor | environment | cameraAttributes | scenario | renderInstance
  | canvas | canvasTexture | canvasItem | canvasLight | canvasLightOccluder
  | canvasOccluderPolygon
deriving DecidableEq, Repr

def RIDType.all : List RIDType :=
  [.texture2D, .texture3D, .shader, .material, .mesh, .multiMesh, .skeleton, .directionalLight,
    .omniLight, .spotLight, .reflectionProbe, .decal, .voxelGI, .lightmap, .particles,
    .particlesCollision, .fogVolume, .visibilityNotifier, .occluder, .camera, .viewport, .sky,
    .compositorEffect, .compositor, .environment, .cameraAttributes, .scenario, .renderInstance,
    .canvas, .canvasTexture, .canvasItem, .canvasLight, .canvasLightOccluder,
    .canvasOccluderPolygon]

theorem RIDType.mem_all (type : RIDType) : type ∈ RIDType.all := by
  cases type <;> decide

def maxPreallocated : RIDType → Nat
  | .material => 64
  | .mesh => 128
  | .renderInstance => 512
  | _ => 16

/-- A `godot::RID`; 0 is the invalid one. -/
abbrev RID := UInt64

/-- One list of ids for each type. -/
abbrev RIDLists := RIDType → List RID

abbrev AllocatorId := Nat

/-! ### Giving and freeing ids -/

/-- The variables of `GetRIDs`. -/
structure Giving where
  pools : RIDLists
  ridsOut : RIDLists
  totalGiven : Nat := 0

/-- `needed` of `GetRIDs`, in the arithmetic of `size_t`. -/
def needed (required : UInt16) (size : Nat) : Nat :=
  (required.toNat + UInt64.size - size) % UInt64.size

def giving (type : RIDType) (needed available : Nat) : Nat :=
  min (if available < needed then available else needed) (maxPreallocated type / 16)

/-- The body of the loop of `GetRIDs` (lines 160-189). -/
def giveRIDs (requested : RIDType → UInt16) (g : Giving) (type : RIDType) : Giving :=
  let rids := g.pools type
  let out := g.ridsOut type
  let needed := needed (requested type) out.length
  if needed = 0 then g
  else
    let count := giving type needed rids.length
    { pools := Function.update g.pools type (rids.take (rids.length - count))
      ridsOut := Function.update g.ridsOut type (out ++ rids.drop (rids.length - count))
      totalGiven := g.totalGiven + count }

/-- `GetRIDs` up to its request (lines 147-192). -/
def getRIDs (requested : RIDType → UInt16) (pools ridsOut : RIDLists) : Giving :=
  if RIDType.all.any (requested · > 0) then
    RIDType.all.foldl (giveRIDs requested) { pools := pools, ridsOut := ridsOut }
  else { pools := pools, ridsOut := ridsOut }

/-- The body of the loop of `FreeRIDs`, on the pools and the lists of the allocator. -/
def freeRIDs₁ (s : RIDLists × RIDLists) (type : RIDType) : RIDLists × RIDLists :=
  if s.2 type = [] then s
  else (Function.update s.1 type (s.1 type ++ s.2 type), Function.update s.2 type [])

/-- `FreeRIDs` (lines 200-217) -/
def freeRIDs (pools ridsIn : RIDLists) : RIDLists × RIDLists :=
  RIDType.all.foldl freeRIDs₁ (pools, ridsIn)

/-! ### The server and its callers -/

/-- What a caller of `RequestRIDs` does next. -/
inductive Requester
  | load
  | schedule
  | count
deriving DecidableEq, Repr

inductive RenderCall
  | allocateRIDsInternal
  | deallocateRIDsInternal
deriving DecidableEq, Repr

/- What the render thread does next in a call. `anyRequired` and `fill` are the loops of
   `AnyRequired` and `AllocateRIDsInternal` with the types that are left. -/
inductive RenderPlace
  | anyRequired (types : List RIDType)
  | fill (types : List RIDType)
  | allocated
  | free
  | deallocated
deriving DecidableEq, Repr

/-- Where the destructor of the server is. -/
inductive Destructor
  | alive
  | count
  | wait
  | destroyed
deriving DecidableEq, Repr

/- `renderQueue` are the calls that the render thread has not yet begun. No step reads
   `created` and `handedOut`. -/
structure AllocatorServer where
  requests : UInt64 := 0
  pools : RIDLists := fun _ => []
  allocators : AllocatorId → Option RIDLists := fun _ => none
  requesters : List Requester := []
  renderQueue : List RenderCall := []
  rendering : Option RenderPlace := none
  destructor : Destructor := .alive
  created : List (RIDType × RID) := []
  handedOut : RIDLists := fun _ => []

namespace AllocatorServer

inductive Label
  | requestRIDs
  | allocator (a : AllocatorId)
  | process (a : AllocatorId)
  | getRID (a : AllocatorId) (type : RIDType)
  | destroyAllocator (a : AllocatorId)
  | requester (i : Nat)
  | renderBegin
  | render (rid : RID)
  | destructor
deriving DecidableEq, Repr

/-- The render thread holds `m_mutex`. -/
def Locked (m : AllocatorServer) : Prop :=
  match m.rendering with
  | some (.fill _) | some .allocated | some .deallocated => True
  | _ => False

instance (m : AllocatorServer) : Decidable m.Locked := by
  unfold Locked
  split <;> infer_instance

/-- A caller enters `RequestRIDs`. -/
def requestRIDs (m : AllocatorServer) : AllocatorServer :=
  { m with requesters := m.requesters ++ [.load] }

/-- `Process` of an allocator with the given lists (lines 289-299). -/
def process (m : AllocatorServer) (a : AllocatorId) (rids : RIDLists) : AllocatorServer :=
  let g := getRIDs (fun type => UInt16.ofNat (maxPreallocated type)) m.pools rids
  let m' := { m with pools := g.pools, allocators := Function.update m.allocators a (some g.ridsOut) }
  if g.totalGiven > 0 then m'.requestRIDs else m'

/-- `GetRID`; the invalid id is handed out when the list is empty. -/
def getRID (m : AllocatorServer) (a : AllocatorId) (type : RIDType) (rids : RIDLists) :
    AllocatorServer :=
  match (rids type).getLast? with
  | none => m
  | some rid =>
    { m with
      allocators := Function.update m.allocators a
        (some (Function.update rids type (rids type).dropLast))
      handedOut := Function.update m.handedOut type (m.handedOut type ++ [rid]) }

/-- `~Allocator` -/
def destroyAllocator (m : AllocatorServer) (a : AllocatorId) (rids : RIDLists) :
    AllocatorServer :=
  { m with
    pools := (freeRIDs m.pools rids).1
    allocators := Function.update m.allocators a none }

/-- The next step of the caller of `RequestRIDs` at index `i` (lines 133-145). -/
def requesterNext (m : AllocatorServer) (i : Nat) : Requester → AllocatorServer
  | .load =>
    if m.requests = 0 then { m with requesters := m.requesters.set i .schedule }
    else { m with requesters := m.requesters.eraseIdx i }
  | .schedule =>
    { m with
      renderQueue := m.renderQueue ++ [.allocateRIDsInternal]
      requesters := m.requesters.set i .count }
  | .count => { m with requests := m.requests + 1, requesters := m.requesters.eraseIdx i }

/-- The render thread begins its next call. -/
def renderBegin (m : AllocatorServer) : Option AllocatorServer :=
  match m.rendering, m.renderQueue with
  | none, .allocateRIDsInternal :: rest => some
    { m with renderQueue := rest, rendering := some (.anyRequired RIDType.all) }
  | none, .deallocateRIDsInternal :: rest => some
    { m with renderQueue := rest, rendering := some .free }
  | _, _ => none

/-- The next step of a call on the render thread; a created id is `rid` (lines 219-277). -/
def renderNext (m : AllocatorServer) (rid : RID) : RenderPlace → AllocatorServer
  | .anyRequired [] => { m with rendering := none }
  | .anyRequired (type :: types) =>
    if (m.pools type).length < maxPreallocated type then
      { m with rendering := some (.fill RIDType.all) }
    else { m with rendering := some (.anyRequired types) }
  | .fill [] => { m with rendering := some .allocated }
  | .fill (type :: types) =>
    if (m.pools type).length < maxPreallocated type then
      { m with
        pools := Function.update m.pools type (m.pools type ++ [rid])
        created := (type, rid) :: m.created }
    else { m with rendering := some (.fill types) }
  | .allocated => { m with requests := m.requests - 1, rendering := none }
  | .free => { m with rendering := some .deallocated }
  | .deallocated => { m with requests := m.requests - 1, rendering := none }

/-- The next step of `~AllocatorServer` (lines 122-131), which nobody else uses any more. -/
def destructorNext (m : AllocatorServer) : Option AllocatorServer :=
  match m.destructor with
  | .alive =>
    if m.requesters = [] then some
      { m with
        renderQueue := m.renderQueue ++ [.deallocateRIDsInternal]
        destructor := .count }
    else none
  | .count => some { m with requests := m.requests + 1, destructor := .wait }
  | .wait => some (if m.requests = 0 then { m with destructor := .destroyed } else m)
  | .destroyed => none

/-- A call of another object, which needs the server alive and `m_mutex` free. -/
def call (m : AllocatorServer) (m' : Option AllocatorServer) : Option AllocatorServer :=
  if m.destructor = .alive ∧ ¬ m.Locked then m' else none

def step (m : AllocatorServer) : Label → Option AllocatorServer
  | .requestRIDs => if m.destructor = .alive then some m.requestRIDs else none
  | .allocator a => m.call (if m.allocators a = none then m.process a fun _ => [] else none)
  | .process a => m.call ((m.allocators a).map (m.process a))
  | .getRID a type =>
    if m.destructor = .alive then (m.allocators a).map (m.getRID a type) else none
  | .destroyAllocator a => m.call ((m.allocators a).map (m.destroyAllocator a))
  | .requester i => m.requesters[i]?.map (m.requesterNext i)
  | .renderBegin => m.renderBegin
  | .render rid => m.rendering.map (m.renderNext rid)
  | .destructor => m.destructorNext

def allocatorMachine : Library.Machine AllocatorServer Label where
  init m := m = {}
  step := step

end AllocatorServer
end CosmicArchitect.Render
