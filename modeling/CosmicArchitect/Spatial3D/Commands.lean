import CosmicArchitect.Spatial3D.Links

/-!
# Loading and unloading nodes (SpatialWorld.cpp:39-55, 398-707)

One call of a load or unload callback returns a `Poll`: the boolean that tells
`ScaleDoNodeCommands` to erase the command, the world it leaves, and what it did, oldest
first. `none` stands for a call that dereferences a null or freed pointer.

The release build is modelled: `DEBUG_CRASH` expands to nothing.
-/

namespace CosmicArchitect.Spatial3D
open Serialize

variable {D : Type}

structure Poll (D : Type) where
  done : Bool
  world : World D
  events : List Event := []

namespace Node

def toBody (n : Node D) : NodeBody D := ⟨n.scaleIndex, n.body⟩

def withBody (n : Node D) (b : NodeBody D) : Node D :=
  { n with scaleIndex := b.scaleIndex, body := b.body }

end Node

namespace TypeData

/-- Run the serialize callbacks into one empty buffer. -/
def serializeAll (t : TypeData D) (pos : Vector3i) (b : NodeBody D) : Bytes :=
  (t.serializeCallbacks.foldl (fun writer callback => callback pos b writer) ({} : Writer)).buffer

/-- Run the deserialize callbacks with one reader over `data`. -/
def deserializeAll (t : TypeData D) (pos : Vector3i) (data : Bytes) (b : NodeBody D) :
    NodeBody D :=
  (t.deserializeCallbacks.foldl (fun st callback => callback pos st.1 st.2)
    (b, (⟨data, 0⟩ : Reader))).1

def generateAll (t : TypeData D) (seed : Nat) (pos : Vector3i) (b : NodeBody D) : NodeBody D :=
  t.generateCallbacks.foldl (fun b callback => callback seed pos b) b

/-- The history of one loop over the deserialize callbacks. -/
def deserializeEvents (t : TypeData D) (a : Nat) (c : NodeCoord) (data : Bytes) : List Event :=
  (List.range t.deserializeCallbacks.length).map (.deserialize a c · data)

/-- The history of one loop over the generate callbacks. -/
def generateEvents (t : TypeData D) (a : Nat) (c : NodeCoord) : List Event :=
  (List.range t.generateCallbacks.length).map (.generate a c ·)

end TypeData

namespace World

/-- Allocate an `IOTask` and hand it to the worker pool (`add_native_task`). -/
def addNativeTask (w : World D) (kind : IOKind) (τ : Nat) (io : IOTask) : World D :=
  { w with tasks := Function.update w.tasks τ (some io), pool := w.pool ++ [⟨kind, τ, false⟩] }

/-- `task.reset()` -/
def freeTask (w : World D) (τ : Nat) : World D :=
  { w with tasks := Function.update w.tasks τ none }

end World

/- `ProgressNodeReadTask` (lines 398-458) on the node `n` at address `a`, stored at `c`.
   The branch for an unfinished read returns true, as in the source. -/
def progressNodeReadTask (t : TypeData D) (fresh seed : Nat) (c : NodeCoord) (w : World D)
    (a : Nat) (n : Node D) : Option (Poll D) :=
  match n.taskState with
  | .idle =>
    match n.task with
    | none => some
      { done := false
        world := (w.addNativeTask .read fresh { coord := ⟨n.position, n.scaleIndex⟩ }).modify a
          fun n => { n with task := some fresh, taskState := .readInProgress }
        events := [.readStarted a fresh] }
    | some _ => some { done := false, world := w }
  | .readInProgress =>
    match n.task.bind fun τ => (w.tasks τ).map fun io => (τ, io) with
    | none => none
    | some (τ, io) =>
      if io.finished then
        let out : NodeBody D × List Event :=
          match io.status with
          | .success => (t.deserializeAll n.position io.data n.toBody,
              t.deserializeEvents a c io.data)
          | .notFoundError => (t.generateAll seed n.position n.toBody, t.generateEvents a c)
          | _ => (n.toBody, [])
        some
          { done := false
            world := (w.freeTask τ).modify a
              fun n => { n.withBody out.1 with taskState := .readDone, task := none }
            events := out.2 }
      else some { done := true, world := w }
  | .readDone => some { done := true, world := w }
  | _ => some { done := false, world := w }

/-- `ProgressNodeWriteTask` (lines 460-511). -/
def progressNodeWriteTask (t : TypeData D) (fresh : Nat) (c : NodeCoord) (w : World D)
    (a : Nat) (n : Node D) : Option (Poll D) :=
  match n.taskState with
  | .idle =>
    match n.task with
    | none =>
      let data := t.serializeAll n.position n.toBody
      some
        { done := false
          world := (w.addNativeTask .write fresh
              { coord := ⟨n.position, n.scaleIndex⟩, data := data }).modify a
            fun n => { n with task := some fresh, taskState := .writeInProgress }
          events := [.serialized a c data] }
    | some _ => some { done := false, world := w }
  | .writeInProgress =>
    match n.task.bind fun τ => (w.tasks τ).map fun io => (τ, io) with
    | none => none
    | some (τ, io) =>
      if io.finished then some
        { done := true
          world := (w.freeTask τ).modify a
            fun n => { n with taskState := .writeDone, task := none } }
      else some { done := false, world := w }
  | .writeDone => some { done := true, world := w }
  | _ => some { done := false, world := w }

/-- The rest of the load callback once `ProgressNodeReadTask` returned true
(lines 542-559). -/
def finishLoad (t : TypeData D) (s : Nat) (now : Int) (w : World D) (a : Nat)
    (pos : Vector3i) : World D :=
  let w := w.modify a fun n =>
    { n with taskState := if t.localNode then .idle else n.taskState
             state := .loaded, lastUpdateTime := now }
  let w := w.setScale s fun scale => { scale with nodes := scale.nodes.insert pos (some a) }
  linkNode t.maxScale w a s pos

/-- The callback of `WorldDoNodeLoadCommands` (lines 523-560). -/
def loadNode (t : TypeData D) (s : Nat) (now : Int) (fresh seed : Nat) (w : World D)
    (a : Nat) (n : Node D) : Option (Poll D) :=
  if t.localNode then
    match progressNodeReadTask t fresh seed ⟨n.position, s⟩ w a n with
    | none => none
    | some poll =>
      if poll.done then some { poll with
        world := finishLoad t s now poll.world a n.position
        events := poll.events ++ [.loaded a] }
      else some poll
  else some { done := true, world := finishLoad t s now w a n.position, events := [.loaded a] }

/-- `DestroyPoly` on a node; the destructor of `LocalNode` frees a task it still owns. -/
def destroyPoly (w : World D) (a : Nat) : World D :=
  let w := match (w.heap a).bind (·.task) with
    | some τ => w.freeTask τ
    | none => w
  { w with heap := Function.update w.heap a none }

/-- The rest of the unload callback once `ProgressNodeWriteTask` returned true
(lines 593-608). -/
def finishUnload (t : TypeData D) (s : Nat) (w : World D) (a : Nat) (pos : Vector3i) :
    World D :=
  let w := unlinkNode t.maxScale w a s
  let w := w.modify a fun n =>
    { n with state := .invalid, taskState := if t.localNode then .idle else n.taskState }
  let w := w.setScale s fun scale => { scale with nodes := scale.nodes.erase pos }
  destroyPoly w a

/-- The callback of `WorldDoNodeUnloadCommands` (lines 574-609). -/
def unloadNode (t : TypeData D) (s : Nat) (fresh : Nat) (w : World D) (a : Nat) (n : Node D) :
    Option (Poll D) :=
  if t.localNode then
    match progressNodeWriteTask t fresh ⟨n.position, s⟩ w a n with
    | none => none
    | some poll =>
      if poll.done then some { poll with
        world := finishUnload t s poll.world a n.position
        events := poll.events ++ [.destroyed a ⟨n.position, s⟩] }
      else some poll
  else some
    { done := true, world := finishUnload t s w a n.position
      events := [.destroyed a ⟨n.position, s⟩] }

/-- A node as `TouchNode` creates it (lines 630-634). -/
def newNode (t : TypeData D) (s : Nat) (pos : Vector3i) (now : Int) : Node D :=
  { position := pos, scaleIndex := s, state := .loading, lastUpdateTime := now
    body := t.newBody }

/- `TouchNode` (lines 613-641). `fresh` is the address `CreatePoly` returns if the node does
   not exist yet. `none`: the map holds a null or dangling pointer. -/
def touchNode (t : TypeData D) (s : Nat) (pos : Vector3i) (now : Int) (fresh : Nat)
    (w : World D) : Option (World D × List Event) :=
  match w.find s pos with
  | none => some
    (({ w with heap := Function.update w.heap fresh (some (newNode t s pos now)) }).setScale s
        fun scale => { scale with
          nodes := scale.nodes.insert pos (some fresh)
          loadingNodes := scale.loadingNodes ++ [pos] },
      [.created fresh ⟨pos, s⟩])
  | some none => none
  | some (some a) =>
    if (w.heap a).isSome then
      some (w.modify a fun n => { n with lastUpdateTime := now }, [])
    else none

/-- One iteration of `ScaleUnloadUnutilizedNodes` (lines 685-706). -/
def unloadUnutilized (t : TypeData D) (s : Nat) (now : Int) (w : World D) (pos : Vector3i) :
    World D :=
  match w.find s pos with
  | some (some a) =>
    match w.heap a with
    | some n =>
      if w.unloading ∨ t.nodeKeepalive < now - n.lastUpdateTime then
        match n.state with
        | .loaded => (w.modify a fun n => { n with state := .unloading }).setScale s
            fun scale => { scale with unloadingNodes := scale.unloadingNodes ++ [n.position] }
        | _ => w
      else w
    | none => w
  | _ => w

/-- `ScaleUnloadUnutilizedNodes`, visiting the nodes of the map in the given order. -/
def scaleUnloadUnutilizedNodes (t : TypeData D) (s : Nat) (now : Int) (order : List Vector3i)
    (w : World D) : World D :=
  order.foldl (unloadUnutilized t s now) w

/-- How a database call ends: as the map semantics says, or with an error of the store. -/
inductive Outcome
  | ok
  | error (status : Status)
deriving DecidableEq, Repr

/-- An error other than NOT_FOUND. -/
def Outcome.Legal : Outcome → Prop
  | .ok => True
  | .error status => status ≠ .success ∧ status ≠ .notFoundError

instance : DecidablePred Outcome.Legal
  | .ok => inferInstanceAs (Decidable True)
  | .error _ => inferInstanceAs (Decidable (_ ∧ _))

/-- The database call of `NodeReadIOTask` (line 43). -/
def nodeReadIOTask (database : NodeCoord → Option Bytes) (io : IOTask) : Outcome → IOTask
  | .ok =>
    match database io.coord with
    | some data => { io with status := .success, data := data }
    | none => { io with status := .notFoundError }
  | .error status => { io with status := status }

/-- The database call of `NodeWriteIOTask` (line 52). -/
def nodeWriteIOTask (database : NodeCoord → Option Bytes) (io : IOTask) :
    Outcome → (NodeCoord → Option Bytes) × IOTask × List Event
  | .ok => (Function.update database io.coord (some io.data), { io with status := .success },
      [.stored io.coord io.data])
  | .error status => (database, { io with status := status }, [])

end CosmicArchitect.Spatial3D
