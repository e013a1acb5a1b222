import CosmicArchitect.Library.Machine
import CosmicArchitect.Spatial3D.Commands

/-!
# Runs of one spatial world

The owner of a world calls `TouchNode`, `ScaleUnloadUnutilizedNodes`, `UnloadWorld`,
`WorldDoNodeLoadCommands` and `WorldDoNodeUnloadCommands` in any order, and the game edits
the components of stored nodes between the calls. The last two run one callback per step,
so that background work may proceed between any two callbacks; a background task makes its
database call in one step and sets `finished` in another.
-/

namespace CosmicArchitect.Spatial3D
open Serialize

variable {D : Type}

/-- Ways in which a call leaves the defined behaviour of the source. -/
inductive Fault
  | nullNode
  | danglingNode
  | assertion
  | danglingTask
deriving DecidableEq, Repr

/- The position inside `WorldForEachScale` and `ScaleDoNodeCommands` (lines 91-139): the
   scale and the index of the command iterator. -/
inductive Control
  | idle
  | loading (now : Int) (s it : Nat)
  | unloading (s it : Nat)
  | fault (f : Fault)
deriving DecidableEq, Repr

structure State (D : Type) where
  world : World D
  control : Control := .idle
  /-- The history, newest event first. -/
  trace : List Event := []

inductive Label (D : Type)
  | touchNode (s : Nat) (pos : Vector3i) (now : Int) (fresh : Nat)
  | editNode (s : Nat) (pos : Vector3i) (body : D)
  | scaleUnloadUnutilizedNodes (s : Nat) (now : Int) (order : List Vector3i)
  | unloadWorld
  | worldDoNodeLoadCommands (now : Int)
  | worldDoNodeUnloadCommands
  | next (fresh seed : Nat)
  | perform (i : Nat) (outcome : Outcome)
  | finish (i : Nat)

namespace State

def failed (m : State D) (f : Fault) : State D := { m with control := .fault f }

/-- Add what a call did to the history. -/
def record (m : State D) (w : World D) (events : List Event) (control : Control) : State D :=
  ⟨w, control, events.reverse ++ m.trace⟩

end State

/-- The next iteration of `ScaleDoNodeCommands` for `NodeState::Loading`, or of the loop
over the scales around it. -/
def nextLoad (t : TypeData D) (fresh seed : Nat) (m : State D) (now : Int) (s it : Nat) :
    State D :=
  if s < t.maxScale then
    match (m.world.scales s).loadingNodes[it]? with
    | none => { m with control := .loading now (s + 1) 0 }
    | some pos =>
      match m.world.find s pos with
      | some (some a) =>
        match m.world.heap a with
        | none => m.failed .danglingNode
        | some n =>
          if n.state = .loading then
            match loadNode t s now fresh seed m.world a n with
            | none => m.failed .danglingTask
            | some poll =>
              if poll.done then
                m.record (poll.world.setScale s fun scale =>
                  { scale with loadingNodes := scale.loadingNodes.eraseIdx it })
                  poll.events (.loading now s it)
              else m.record poll.world poll.events (.loading now s (it + 1))
          else m.failed .assertion
      | _ => m.failed .nullNode
  else { m with control := .idle }

/-- The same for `NodeState::Unloading`. -/
def nextUnload (t : TypeData D) (fresh : Nat) (m : State D) (s it : Nat) : State D :=
  if s < t.maxScale then
    match (m.world.scales s).unloadingNodes[it]? with
    | none => { m with control := .unloading (s + 1) 0 }
    | some pos =>
      match m.world.find s pos with
      | some (some a) =>
        match m.world.heap a with
        | none => m.failed .danglingNode
        | some n =>
          if n.state = .unloading then
            match unloadNode t s fresh m.world a n with
            | none => m.failed .danglingTask
            | some poll =>
              if poll.done then
                m.record (poll.world.setScale s fun scale =>
                  { scale with unloadingNodes := scale.unloadingNodes.eraseIdx it })
                  poll.events (.unloading s it)
              else m.record poll.world poll.events (.unloading s (it + 1))
          else m.failed .assertion
      | _ => m.failed .nullNode
  else { m with control := .idle }

/-- The database call of the outstanding task `e` at index `i` of the pool. -/
def perform (m : State D) (i : Nat) (e : PoolTask) (outcome : Outcome) : State D :=
  match m.world.tasks e.task with
  | none => m.failed .danglingTask
  | some io =>
    let out : (NodeCoord → Option Bytes) × IOTask × List Event :=
      match e.kind with
      | .read => (m.world.database, nodeReadIOTask m.world.database io outcome, [])
      | .write => nodeWriteIOTask m.world.database io outcome
    m.record { m.world with
      database := out.1
      tasks := Function.update m.world.tasks e.task (some out.2.1)
      pool := m.world.pool.set i { e with performed := true } } out.2.2 m.control

/-- The background task `e` sets `finished` and leaves the pool. -/
def finish (m : State D) (i : Nat) (e : PoolTask) : State D :=
  match m.world.tasks e.task with
  | none => m.failed .danglingTask
  | some io => m.record { m.world with
      tasks := Function.update m.world.tasks e.task (some { io with finished := true })
      pool := m.world.pool.eraseIdx i } [.finished e.task io.status io.data] m.control

/-- One step of a run; `none` when the label is not enabled. -/
def step (t : TypeData D) (m : State D) : Label D → Option (State D)
  | .touchNode s pos now fresh =>
    if m.control = .idle ∧ s < t.maxScale ∧ (m.world.heap fresh).isNone then
      match touchNode t s pos now fresh m.world with
      | none => some (m.failed .nullNode)
      | some (w, events) => some (m.record w events .idle)
    else none
  | .editNode s pos body =>
    if m.control = .idle then
      (m.world.find s pos).join.map fun a =>
        { m with world := m.world.modify a fun n => { n with body := body } }
    else none
  | .scaleUnloadUnutilizedNodes s now order =>
    if m.control = .idle ∧ s < t.maxScale ∧ order.Perm (m.world.scales s).nodes.keys then
      some { m with world := scaleUnloadUnutilizedNodes t s now order m.world }
    else none
  | .unloadWorld =>
    if m.control = .idle then some { m with world := { m.world with unloading := true } }
    else none
  | .worldDoNodeLoadCommands now =>
    if m.control = .idle then some { m with control := .loading now 0 0 } else none
  | .worldDoNodeUnloadCommands =>
    if m.control = .idle then some { m with control := .unloading 0 0 } else none
  | .next fresh seed =>
    if (m.world.tasks fresh).isNone then
      match m.control with
      | .loading now s it => some (nextLoad t fresh seed m now s it)
      | .unloading s it => some (nextUnload t fresh m s it)
      | _ => none
    else none
  | .perform i outcome =>
    match m.world.pool[i]? with
    | some e => if !e.performed ∧ outcome.Legal then some (perform m i e outcome) else none
    | none => none
  | .finish i =>
    match m.world.pool[i]? with
    | some e => if e.performed then some (finish m i e) else none
    | none => none

/-- The state of a world right after `CreateWorld` opened a database with the content `db`. -/
def initial (D : Type) (db : NodeCoord → Option Bytes) : State D :=
  { world := { database := db } }

/-- All runs of one world of type `t` over a database with initial content `db`. -/
def worldMachine (t : TypeData D) (db : NodeCoord → Option Bytes) :
    Library.Machine (State D) (Label D) where
  init m := m = initial D db
  step := step t

end CosmicArchitect.Spatial3D
