import CosmicArchitect.Commands.CommandOrder
import CosmicArchitect.Simulation.DeferredCommands
import Mathlib.Data.List.Basic

/-!
# Deferred signals (Simulation/SimulationServer.h, SimulationServer.cpp)

In a method of the simulation the worker queues signals, and at the end of each pass of its loop it
hands them to the command server, which emits them on the main thread. Others hand their buffers to
the server too, and the steps of all of them interleave. A command carries the signal it emits, and
none when it is somebody else's. Without a thread a signal is emitted on the spot.
-/

namespace CosmicArchitect.Simulation
open Library Commands

variable {κ : Type}

/-- The simulation server with its signals, and the command server. No step reads `queued`, the
signals so far, and `outside`, those since the last pass that were not queued in one. -/
structure Signaling (κ : Type) where
  server : Server := {}
  deferredSignals : TCommandBuffer (Option κ) := {}
  commands : Commands.State (Option κ)
  queued : List κ := []
  outside : List κ := []

/-- The worker is in a method of the simulation. -/
def Worker.inMethod : Worker → Bool
  | .doLoad | .doProgress | .doUnload => true
  | _ => false

namespace Signaling

inductive Label (κ : Type)
  | server (l : Simulation.Label)
  | queueSignal (signal : κ) (argStorage : Nat)
  | pass (now : Time)
  | commands (l : Commands.State.Label (Option κ))

/-- `QueueSignal` on the worker. -/
def queueSignal (m : Signaling κ) (signal : κ) (argStorage : Nat) : Signaling κ :=
  { m with
    deferredSignals := m.deferredSignals.addCommand ⟨some signal, argStorage⟩
    queued := m.queued ++ [signal]
    outside := if m.server.thread = some .doProgress then m.outside else m.outside ++ [signal] }

/-- The end of the body of the loop (lines 115-120). -/
def pass (instanceId : ObjectID) (m : Signaling κ) (now : Time) : Option (Signaling κ) :=
  (workerNext m.server).map fun server =>
    { m with
      server := server
      commands := if m.deferredSignals.numCommands > 0 then
          m.commands.addCommandBuffer instanceId now m.deferredSignals
        else m.commands
      deferredSignals := if m.deferredSignals.numCommands > 0 then {} else m.deferredSignals
      outside := [] }

/-- Somebody else's buffers have no signals of this simulation. -/
def foreign : Commands.State.Label (Option κ) → Bool
  | .addCommandBuffer _ _ buffer => buffer.1.remaining.all fun c => c.call.isNone
  | _ => true

def step (instanceId : ObjectID) (m : Signaling κ) : Label κ → Option (Signaling κ)
  | .server l =>
    if l = .worker ∧ m.server.thread = some .doProgress then none
    else (Simulation.step m.server l).map fun server => { m with server := server }
  | .queueSignal signal argStorage =>
    if m.server.thread.any Worker.inMethod then some (m.queueSignal signal argStorage) else none
  | .pass now => if m.server.thread = some .doProgress then m.pass instanceId now else none
  | .commands l =>
    if foreign l then (m.commands.step l).map fun commands => { m with commands := commands }
    else none

def machine (κ : Type) (instanceId : ObjectID) : Machine (Signaling κ) (Label κ) where
  init m := ∃ alive, m = { commands := { alive := alive } }
  step := step instanceId

/-- The signals that commands of the server emit. -/
def signalsOf (commands : List (Issued (Option κ))) : List κ :=
  commands.filterMap fun c => c.command.call

@[simp] theorem signalsOf_append (l l' : List (Issued (Option κ))) :
    signalsOf (l ++ l') = signalsOf l ++ signalsOf l' := List.filterMap_append

/-- The signals that are not yet handed over. -/
def waiting (m : Signaling κ) : List κ := m.deferredSignals.remaining.filterMap fun c => c.call

theorem signalsOf_remaining (objectId : ObjectID) (now : Time) (buffer : TCommandBuffer (Option κ)) :
    signalsOf (Entry.remaining ⟨objectId, now, buffer⟩) =
      buffer.remaining.filterMap fun c => c.call := by
  unfold signalsOf Entry.remaining
  rw [List.filterMap_map]
  rfl

structure Consistent (instanceId : ObjectID) (m : Signaling κ) : Prop where
  placed : m.server.Placed
  ordered : State.Ordered m.commands
  wellFormed : m.deferredSignals.WellFormed
  start : m.deferredSignals.start = 0
  queued : m.queued = signalsOf m.commands.added ++ m.waiting
  addressed : ∀ c ∈ m.commands.added, c.command.call ≠ none → c.objectId = instanceId
  outside : m.server.thread ≠ some .doProgress → m.waiting = m.outside

section
variable {instanceId : ObjectID} {m m' : Signaling κ}

theorem consistent_init (h : (machine κ instanceId).init m) : Consistent instanceId m := by
  obtain ⟨alive, rfl⟩ := h
  exact ⟨placed_initial, State.ordered_init alive, TCommandBuffer.wellFormed_empty, rfl, rfl,
    (fun _ hc => by cases hc), fun _ => rfl⟩

namespace Consistent
variable (h : Consistent instanceId m)
include h

/-- The worker leaves the body of its loop in `pass` only. -/
theorem server {l : Simulation.Label} {server : Server}
    (hnot : ¬(l = .worker ∧ m.server.thread = some .doProgress))
    (hs : Simulation.step m.server l = some server) :
    Consistent instanceId { m with server := server } := by
  refine ⟨placed_step h.placed hs, h.ordered, h.wellFormed, h.start, h.queued, h.addressed,
    fun hthread => h.outside fun hold => hthread ?_⟩
  have hl : l ≠ .worker := fun hl => hnot ⟨hl, hold⟩
  have hmoved := thread_step hl hs
  split at hmoved
  · next howner =>
    obtain ⟨-, hnone⟩ := h.placed.ownerAt howner
    cases hold.symm.trans hnone
  · rcases hmoved with hsame | ⟨hreturned, -⟩
    · exact hsame.trans hold
    · cases hold.symm.trans hreturned

theorem queueSignal (signal : κ) (argStorage : Nat) :
    Consistent instanceId (m.queueSignal signal argStorage) := by
  obtain ⟨hwf, hremaining⟩ := h.wellFormed.addCommand ⟨some signal, argStorage⟩
  have hwaiting : (m.queueSignal signal argStorage).waiting = m.waiting ++ [signal] := by
    show (m.deferredSignals.addCommand _).remaining.filterMap _ = _
    rw [hremaining, List.filterMap_append]
    rfl
  refine ⟨h.placed, h.ordered, hwf, h.start, ?_, h.addressed, fun hthread => ?_⟩
  · show m.queued ++ [signal] = signalsOf m.commands.added ++ _
    rw [hwaiting, h.queued, List.append_assoc]
  · show _ = if m.server.thread = some .doProgress then m.outside else m.outside ++ [signal]
    have hnot : m.server.thread ≠ some .doProgress := hthread
    rw [hwaiting, if_neg hnot, h.outside hnot]

theorem pass {now : Time} (hs : m.pass instanceId now = some m') :
    Consistent instanceId m' ∧ m'.waiting = [] := by
  obtain ⟨server, hserver, rfl⟩ := Option.map_eq_some_iff.mp hs
  have hplaced := placed_worker h.placed hserver
  by_cases hsome : m.deferredSignals.numCommands > 0
  · rw [if_pos hsome, if_pos hsome]
    refine ⟨⟨hplaced, State.ordered_addCommandBuffer h.ordered _ now h.wellFormed,
      TCommandBuffer.wellFormed_empty, rfl, ?_, fun c hc hcall => ?_, fun _ => rfl⟩, rfl⟩
    · show m.queued = signalsOf (m.commands.addCommandBuffer instanceId now _).added ++ []
      rw [State.added_addCommandBuffer _ h.wellFormed, signalsOf_append, signalsOf_remaining,
        List.append_nil]
      exact h.queued
    · rw [State.added_addCommandBuffer _ h.wellFormed] at hc
      rcases List.mem_append.mp hc with hc | hc
      · exact h.addressed c hc hcall
      · obtain ⟨_, -, rfl⟩ := List.mem_map.mp hc
        rfl
  · rw [if_neg hsome, if_neg hsome]
    have hempty : m.waiting = [] := by
      have hremaining : m.deferredSignals.remaining = [] := by
        rw [← List.length_eq_zero_iff, ← h.wellFormed.numCommands]
        exact Nat.eq_zero_of_not_pos hsome
      unfold waiting
      rw [hremaining]
      rfl
    exact ⟨⟨hplaced, h.ordered, h.wellFormed, h.start, h.queued, h.addressed, fun _ => hempty⟩,
      hempty⟩

/-- What the command server does apart from the worker leaves the signals in its buffers. -/
theorem commands {commands : Commands.State (Option κ)} (hordered : State.Ordered commands)
    (hadded : ∃ others : List (Issued (Option κ)), commands.added = m.commands.added ++ others ∧
      ∀ c ∈ others, c.command.call = none) :
    Consistent instanceId { m with commands := commands } := by
  obtain ⟨others, hadded, hothers⟩ := hadded
  refine ⟨h.placed, hordered, h.wellFormed, h.start, ?_, fun c hc hcall => ?_, h.outside⟩
  · show m.queued = signalsOf commands.added ++ m.waiting
    have hnone : signalsOf others = [] :=
      List.filterMap_eq_nil_iff.mpr hothers
    rw [hadded, signalsOf_append, hnone, List.append_nil]
    exact h.queued
  · rw [show commands.added = _ from hadded] at hc
    rcases List.mem_append.mp hc with hc | hc
    · exact h.addressed c hc hcall
    · exact absurd (hothers c hc) hcall

theorem commandsStep {l : Commands.State.Label (Option κ)} (hforeign : foreign l = true)
    {commands : Commands.State (Option κ)} (hs : m.commands.step l = some commands) :
    Consistent instanceId { m with commands := commands } := by
  refine h.commands (State.ordered_step h.ordered hs) ?_
  cases l with
  | addCommandBuffer objectId now buffer =>
    cases hs
    refine ⟨_, State.added_addCommandBuffer objectId buffer.2, fun c hc => ?_⟩
    obtain ⟨command, hcommand, rfl⟩ := List.mem_map.mp hc
    exact Option.isNone_iff_eq_none.mp (List.all_eq_true.mp hforeign command hcommand)
  | flushState objectOverride maxFlushTime now =>
    exact ⟨[], (State.added_flushState hs).trans (List.append_nil _).symm, fun _ hc => by cases hc⟩
  | flush now =>
    obtain ⟨f, -, hs⟩ := Option.bind_eq_some_iff.mp hs
    exact ⟨[], (State.added_flushNext hs).trans (List.append_nil _).symm, fun _ hc => by cases hc⟩
  | deleteObject objectId =>
    cases hs
    exact ⟨[], (List.append_nil _).symm, fun _ hc => by cases hc⟩

theorem step {l : Label κ} (hs : Signaling.step instanceId m l = some m') :
    Consistent instanceId m' := by
  cases l with
  | server l =>
    obtain ⟨hnot, heq⟩ := Option.ite_none_left_eq_some.mp hs
    obtain ⟨server, hserver, rfl⟩ := Option.map_eq_some_iff.mp heq
    exact h.server hnot hserver
  | queueSignal signal argStorage =>
    obtain ⟨-, heq⟩ := Option.ite_none_right_eq_some.mp hs
    cases heq
    exact h.queueSignal signal argStorage
  | pass now =>
    obtain ⟨-, heq⟩ := Option.ite_none_right_eq_some.mp hs
    exact (h.pass heq).1
  | commands l =>
    obtain ⟨hforeign, heq⟩ := Option.ite_none_right_eq_some.mp hs
    obtain ⟨commands, hcommands, rfl⟩ := Option.map_eq_some_iff.mp heq
    exact h.commandsStep hforeign hcommands

end Consistent

theorem consistent_of_reach (h : (machine κ instanceId).Reachable m) : Consistent instanceId m :=
  h.invariant (I := Consistent instanceId) (fun _ hinit => consistent_init hinit)
    fun _ _ _ _ hm _ hs => hm.step hs

/-! ### The worker hands its signals over -/

/-- A step of the worker that queues nothing. -/
def Works (instanceId : ObjectID) (m m' : Signaling κ) : Prop :=
  step instanceId m (.server .worker) = some m' ∨ ∃ now, step instanceId m (.pass now) = some m'

/-- The worker comes to the end of a pass by its own steps. -/
def HandsOver (instanceId : ObjectID) (m : Signaling κ) : Prop :=
  ∃ m', Relation.ReflTransGen (Works instanceId) m m' ∧ m'.queued = m.queued ∧ m'.waiting = []

theorem handsOver_doProgress (h : Consistent instanceId m) (hth : m.server.thread = some .doProgress) :
    HandsOver instanceId m := by
  have hserver : workerNext m.server = some { m.server with thread := some .loadState } := by
    simp only [workerNext, hth, Option.bind_some]
  have hs : m.pass instanceId 0 = some _ := congrArg (Option.map _) hserver
  refine ⟨_, .single (Or.inr ⟨0, (if_pos hth).trans hs⟩), rfl, (h.pass hs).2⟩

theorem handsOver_worker {server : Server} (hth : m.server.thread ≠ some .doProgress)
    (hserver : workerNext m.server = some server)
    (hnext : HandsOver instanceId { m with server := server }) : HandsOver instanceId m := by
  obtain ⟨m', hsteps, hqueued, hwaiting⟩ := hnext
  have hs : step instanceId m (.server .worker) = some { m with server := server } :=
    (if_neg fun hc => hth hc.2).trans (congrArg (Option.map _) hserver)
  exact ⟨m', .head (Or.inl hs) hsteps, hqueued, hwaiting⟩

theorem handsOver_loadState (h : Consistent instanceId m) (hth : m.server.thread = some .loadState)
    (hst : m.server.state = .loaded) : HandsOver instanceId m := by
  have hserver : Simulation.step m.server .worker =
      some { m.server with thread := some .doProgress } := by
    show workerNext m.server = _
    simp only [workerNext, hth, Option.bind_some, hst, if_true]
  have hne : m.server.thread ≠ some .doProgress := by simp [hth]
  exact handsOver_worker hne hserver
    (handsOver_doProgress (h.server (fun hc => hne hc.2) hserver) rfl)

theorem handsOver_storeLoaded (h : Consistent instanceId m)
    (hth : m.server.thread = some .storeLoaded) : HandsOver instanceId m := by
  have hserver : Simulation.step m.server .worker =
      some { m.server with state := .loaded, thread := some .loadState } := by
    show workerNext m.server = _
    simp only [workerNext, hth, Option.bind_some]
  have hne : m.server.thread ≠ some .doProgress := by simp [hth]
  exact handsOver_worker hne hserver
    (handsOver_loadState (h.server (fun hc => hne hc.2) hserver) rfl rfl)

theorem handsOver_inLoop (h : Consistent instanceId m) (hin : m.server.inLoop = true)
    (hst : m.server.state ≠ .unloading) : HandsOver instanceId m := by
  unfold Server.inLoop at hin
  cases hth : m.server.thread with
  | none =>
    rw [hth] at hin
    cases hin
  | some p =>
    rw [hth] at hin
    have hfits := h.placed.worker p hth
    cases p with
    | doLoad =>
      have hserver : Simulation.step m.server .worker =
          some { m.server with thread := some .storeLoaded } := by
        show workerNext m.server = _
        simp only [workerNext, hth, Option.bind_some]
      have hne : m.server.thread ≠ some .doProgress := by simp [hth]
      exact handsOver_worker hne hserver
        (handsOver_storeLoaded (h.server (fun hc => hne hc.2) hserver) rfl)
    | storeLoaded => exact handsOver_storeLoaded h hth
    | loadState => exact handsOver_loadState h hth (hfits.resolve_right hst)
    | doProgress => exact handsOver_doProgress h hth
    | doUnload | storeUnloaded | returned => cases hin

/-! ### What is emitted -/

structure Delivered (instanceId : ObjectID) (m : Signaling κ) : Prop where
  split : m.queued = signalsOf (m.commands.consumed.map Prod.fst) ++
    signalsOf (m.commands.inProgress ++ m.commands.queued) ++ m.waiting
  emitted : m.commands.alive instanceId = true →
    signalsOf m.commands.executed = signalsOf (m.commands.consumed.map Prod.fst)
  start : m.deferredSignals.start = 0
  betweenPasses : m.server.thread ≠ some .doProgress → m.waiting = m.outside
  soon : m.server.inLoop = true → m.server.state ≠ .unloading → HandsOver instanceId m

/-- Signals are emitted unless their simulation is deleted. -/
theorem Consistent.emitted (h : Consistent instanceId m)
    (halive : m.commands.alive instanceId = true) :
    signalsOf m.commands.executed = signalsOf (m.commands.consumed.map Prod.fst) := by
  unfold State.executed signalsOf
  rw [List.filterMap_map, List.filterMap_map, List.filterMap_filter]
  refine List.filterMap_congr fun c hc => ?_
  split
  · rfl
  · next hnot =>
    have hdropped : c.2 = Fate.dropped := by
      cases hfate : c.2 with
      | executed => exact absurd (decide_eq_true hfate) hnot
      | dropped => rfl
    have hadded : c.1 ∈ m.commands.added := by
      rw [h.ordered.split, List.append_assoc]
      exact List.mem_append_left _ (List.mem_map_of_mem hc)
    by_contra hcall
    have haddressed := h.addressed c.1 hadded fun hnone => hcall hnone.symm
    have hdead := h.ordered.dropped c hc hdropped
    rw [haddressed, halive] at hdead
    cases hdead

/-- However the owner, the worker, the other threads and the flushes of the main thread take turns:
the signals that the worker queues are emitted in this order and none twice or lost as long as the
simulation is not deleted. Between two passes of the loop none waits but those that were not queued
in a pass, and the worker hands all of them over by its own steps until it is told to stop. -/
theorem signals_delivered (h : (machine κ instanceId).Reachable m) : Delivered instanceId m := by
  have hm := consistent_of_reach h
  refine ⟨?_, hm.emitted, hm.start, hm.outside, handsOver_inLoop hm⟩
  rw [hm.queued, hm.ordered.split, signalsOf_append, signalsOf_append, signalsOf_append,
    List.append_assoc (signalsOf (m.commands.consumed.map Prod.fst))]

end

/- The worker queues a signal while it loads and two in its first pass. One of them is emitted when
   the worker has queued a fourth one, and the owner stops the simulation. -/
def stoppedRun : List (Label Nat) :=
  [.server (.startSimulation .multiThreaded), .server (.owner true), .server (.owner true),
    .server (.owner true), .server (.owner true), .server (.owner true), .queueSignal 1 0,
    .server .worker, .server .worker, .server .worker, .queueSignal 2 8, .queueSignal 3 0,
    .commands (.addCommandBuffer 7 0 ⟨⟨[⟨none, 4⟩], 0, 1⟩, Blocks.isBoundary_zero _, rfl⟩), .pass 1,
    .commands (.flushState false 100000000 2), .commands (.flush 2), .commands (.flush 2),
    .commands (.flush 2), .commands (.flush 2), .commands (.flush 2), .commands (.flush 2),
    .commands (.flush 2), .commands (.flush 2), .server .worker, .queueSignal 4 0,
    .commands (.flush 2), .commands (.flush 2), .server .stopSimulation, .server (.owner true),
    .server (.owner true)]

theorem signals_delivered_stoppedRun : ∃ m : Signaling Nat,
    (machine Nat 7).exec { commands := { alive := fun _ => true } } stoppedRun = some m ∧
      signalsOf m.commands.executed = [1] ∧ m.waiting = [4] ∧ Delivered 7 m := by
  have hrun : ((machine Nat 7).exec { commands := { alive := fun _ => true } } stoppedRun).map
      (fun m => (signalsOf m.commands.executed, m.waiting)) = some ([1], [4]) := by decide +kernel
  obtain ⟨m, hm, hsignals⟩ := Option.map_eq_some_iff.mp hrun
  exact ⟨m, hm, congrArg Prod.fst hsignals, congrArg Prod.snd hsignals,
    signals_delivered (Machine.reachable_of_exec ⟨fun _ => true, rfl⟩ hm)⟩

end Signaling
end CosmicArchitect.Simulation
