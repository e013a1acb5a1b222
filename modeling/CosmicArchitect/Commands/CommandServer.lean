import CosmicArchitect.Library.Machine
import CosmicArchitect.Commands.TypedCommandBuffer

/-!
# The command server (Commands/CommandServer.cpp)

One `State` of the server, with buffers of typed commands. A step is what `FlushState` does
under the lock or between two of its decisions, or one command that it executes; buffers are
added, objects deleted and nested flushes called between any two steps. Object ids are never
used again, so an object that is created later counts as alive from the start.
-/

namespace CosmicArchitect.Commands
open Library

abbrev ObjectID := UInt64

/-- A time in nanoseconds. -/
abbrev Time := Int

def processAllCommands : Nat := 0

def maxCommandsPerIter : Nat := 64

/-- After 5 s commands are executed regardless of the time. -/
def forceTime : Time := 5000000000

variable {κ : Type}

structure Entry (κ : Type) where
  objectId : ObjectID
  addedTime : Time
  buffer : TCommandBuffer κ
deriving DecidableEq, Repr

/-- A command with the object it was added for. -/
structure Issued (κ : Type) where
  objectId : ObjectID
  command : Command κ
deriving DecidableEq, Repr

inductive Fate
  | executed
  | dropped
deriving DecidableEq, Repr

/- Where `FlushState` is. In `commands` it is in the loop of `ProcessCommandsUntyped` with its
   variables `max`, `buffer_pos` and `num_processed`. -/
inductive FlushPlace
  | buffers
  | time
  | object (iterCommands : Nat)
  | commands (max bufferPos numProcessed : Nat)
  | numCommands
  | flushed
  | processed
deriving DecidableEq, Repr

/-- The variables of `FlushState`. -/
structure Flush where
  objectOverride : Bool
  endTime : Time
  processedCommands : UInt64 := 0
  place : FlushPlace := .buffers
deriving DecidableEq, Repr

/- A `State` of the server with the flush on its thread and the objects of the `ObjectDB`. No
   step reads `added` and `consumed`, the commands so far. -/
structure State (κ : Type) where
  commandBuffers : List (Entry κ) := []
  numCommands : UInt64 := 0
  lifetimeCommands : UInt64 := 0
  flushingInProgress : Bool := false
  bufferInProgress : Bool := false
  currentBuffer : Option (Entry κ) := none
  flush : Option Flush := none
  alive : ObjectID → Bool
  added : List (Issued κ) := []
  consumed : List (Issued κ × Fate) := []

/-- The commands of an entry that are not yet processed. -/
def Entry.remaining (e : Entry κ) : List (Issued κ) := e.buffer.remaining.map (⟨e.objectId, ·⟩)

namespace State

inductive Label (κ : Type)
  | addCommandBuffer (objectId : ObjectID) (now : Time)
      (buffer : { b : TCommandBuffer κ // b.WellFormed })
  | flushState (objectOverride : Bool) (maxFlushTime now : Time)
  | flush (now : Time)
  | deleteObject (objectId : ObjectID)

/-- `AddCommandBuffer` (lines 44-65) -/
def addCommandBuffer (m : State κ) (objectId : ObjectID) (now : Time)
    (buffer : TCommandBuffer κ) : State κ :=
  if buffer.numCommands = 0 then m
  else
    { m with
      commandBuffers := m.commandBuffers ++ [⟨objectId, now, buffer⟩]
      numCommands := m.numCommands + UInt64.ofNat buffer.numCommands
      lifetimeCommands := m.lifetimeCommands + UInt64.ofNat buffer.numCommands
      added := m.added ++ Entry.remaining ⟨objectId, now, buffer⟩ }

/-- `FlushState` up to its loop; a nested call returns at once. -/
def flushState (m : State κ) (objectOverride : Bool) (maxFlushTime now : Time) :
    Option (State κ) :=
  if m.flushingInProgress then some m
  else if m.flush = none then
    some
      { m with
        flushingInProgress := true
        flush := some { objectOverride := objectOverride, endTime := now + maxFlushTime } }
  else none

def goto (m : State κ) (f : Flush) (place : FlushPlace) : State κ :=
  { m with flush := some { f with place := place } }

/-- The next buffer is taken when none is in progress (lines 130-143). -/
def fetch (m : State κ) (f : Flush) : State κ :=
  if m.bufferInProgress then m.goto f .time
  else
    match m.commandBuffers with
    | [] => m.goto f .flushed
    | e :: rest =>
      { m with commandBuffers := rest, currentBuffer := some e, bufferInProgress := true }.goto
        f .time

/-- The time decides how many commands may be processed (lines 145-155). -/
def checkTime (m : State κ) (f : Flush) (e : Entry κ) (currentTime : Time) : State κ :=
  let forceCommands := currentTime - e.addedTime > forceTime
  if ¬ forceCommands ∧ currentTime ≥ f.endTime then m.goto f .flushed
  else m.goto f (.object (if forceCommands then processAllCommands else maxCommandsPerIter))

/-- The object of the buffer (lines 158-187); without it the commands are dropped. -/
def lookupObject (m : State κ) (f : Flush) (e : Entry κ) (iterCommands : Nat) : State κ :=
  if f.objectOverride || m.alive e.objectId then
    if e.buffer.numCommands = 0 then m.goto f .numCommands
    else m.goto f (.commands iterCommands e.buffer.start 0)
  else
    { m with
      currentBuffer := some { e with buffer := e.buffer.clear }
      bufferInProgress := false
      consumed := m.consumed ++ e.remaining.map (·, Fate.dropped) }.goto f .numCommands

/-- `ProcessCommandsUntyped` returns to the flush. -/
def finishBatch (m : State κ) (f : Flush) (e : Entry κ) (bufferPos numProcessed : Nat) :
    State κ :=
  { m with
    currentBuffer := some { e with buffer := e.buffer.processed bufferPos numProcessed } }.goto
      { f with processedCommands := f.processedCommands + UInt64.ofNat numProcessed } .numCommands

/-- One round of the loop of `ProcessCommandsUntyped` (lines 61-71). -/
def processCommand (m : State κ) (f : Flush) (e : Entry κ) (max bufferPos numProcessed : Nat) :
    Option (State κ) :=
  (e.buffer.nextRound bufferPos).map fun
    | .bufferEnd => m.finishBatch f e bufferPos numProcessed
    | .command c bufferPos' =>
      let m' := { m with consumed := m.consumed ++ [(Issued.mk e.objectId c, Fate.executed)] }
      if numProcessed + 1 = max then m'.finishBatch f e bufferPos' (numProcessed + 1)
      else m'.goto f (.commands max bufferPos' (numProcessed + 1))

/-- The next step of `FlushState` (lines 126-202). -/
def flushNext (m : State κ) (f : Flush) (now : Time) : Option (State κ) :=
  match f.place with
  | .buffers => some (m.fetch f)
  | .time => m.currentBuffer.map fun e => m.checkTime f e now
  | .object iterCommands => m.currentBuffer.map fun e => m.lookupObject f e iterCommands
  | .commands max bufferPos numProcessed =>
    m.currentBuffer.bind fun e => m.processCommand f e max bufferPos numProcessed
  | .numCommands => m.currentBuffer.map fun e =>
    { m with
      bufferInProgress := if e.buffer.numCommands = 0 then false else m.bufferInProgress }.goto
        f .buffers
  | .flushed => some ({ m with flushingInProgress := false }.goto f .processed)
  | .processed => some
    { m with numCommands := m.numCommands - f.processedCommands, flush := none }

def step (m : State κ) : Label κ → Option (State κ)
  | .addCommandBuffer objectId now buffer => some (m.addCommandBuffer objectId now buffer)
  | .flushState objectOverride maxFlushTime now => m.flushState objectOverride maxFlushTime now
  | .flush now => m.flush.bind fun f => m.flushNext f now
  | .deleteObject objectId => some { m with alive := fun o => o ≠ objectId && m.alive o }

/-- A server over the objects that are alive. -/
def serverMachine (alive : ObjectID → Bool) : Machine (State κ) (Label κ) where
  init m := m = { alive := alive }
  step := step

end State
end CosmicArchitect.Commands
