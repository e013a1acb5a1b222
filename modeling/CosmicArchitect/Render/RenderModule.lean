import CosmicArchitect.Commands.CommandOrder

/-!
# Rendering commands of the threads (Render/RenderModule.cpp)

Each thread of the simulation adds its commands to the buffer of its context. `Update` and
`Uninitialize` move the buffers to the rendering state of the server, one by one, and the render
thread executes them; the steps of all of these may come in any order. A command carries the index
of the context it was added in, and none when somebody else handed a buffer to the server.
-/

namespace CosmicArchitect.Render
open Library Commands

variable {κ : Type}

/-- The rendering state of the server and the contexts of the threads. `issued` are the commands
added so far, which no step reads. -/
structure RenderModule (κ : Type) where
  contexts : List (TCommandBuffer (Option Nat × κ))
  handing : Option Nat := none
  server : State (Option Nat × κ)
  issued : List (Nat × κ) := []

namespace RenderModule

/-- 10 ms -/
def maxTimePerRenderFlush : Time := 10000000

inductive Label (κ : Type)
  | addCommand (context : Nat) (call : κ) (argStorage : Nat)
  | update
  | handNext (now : Time)
  | addCommands (now : Time)
      (buffer : { b : TCommandBuffer (Option Nat × κ) //
        b.WellFormed ∧ ∀ c ∈ b.remaining, c.call.1 = none })
  | renderingFlush (now : Time)
  | flush (now : Time)

/-- The next round of the loop over the contexts; the buffer moved from is empty. -/
def handNext (renderingServer : ObjectID) (m : RenderModule κ) (k : Nat) (now : Time) :
    RenderModule κ :=
  match m.contexts[k]? with
  | none => { m with handing := none }
  | some commands =>
    { m with
      server := m.server.addCommandBuffer renderingServer now commands
      contexts := m.contexts.set k {}
      handing := some (k + 1) }

def step (renderingServer : ObjectID) (m : RenderModule κ) : Label κ → Option (RenderModule κ)
  | .addCommand context call argStorage => (m.contexts[context]?).map fun commands =>
    { m with
      contexts := m.contexts.set context (commands.addCommand ⟨(some context, call), argStorage⟩)
      issued := m.issued ++ [(context, call)] }
  | .update => if m.handing = none then some { m with handing := some 0 } else none
  | .handNext now => m.handing.map fun k => m.handNext renderingServer k now
  | .addCommands now buffer =>
    some { m with server := m.server.addCommandBuffer renderingServer now buffer }
  | .renderingFlush now => (m.server.flushState true maxTimePerRenderFlush now).map fun server =>
    { m with server := server }
  | .flush now => (m.server.step (.flush now)).map fun server => { m with server := server }

/-- All runs with so many threads. -/
def machine (κ : Type) (renderingServer : ObjectID) (workerCount : Nat) :
    Machine (RenderModule κ) (Label κ) where
  init m := ∃ alive, m =
    { contexts := List.replicate workerCount {}, server := { alive := alive } }
  step := step renderingServer

/-- The calls that a thread has issued. -/
def issuedBy (m : RenderModule κ) (context : Nat) : List κ :=
  (m.issued.filter fun c => c.1 = context).map Prod.snd

/-- The calls of a thread among commands. -/
def callsOf (context : Nat) (commands : List (Issued (Option Nat × κ))) : List κ :=
  (commands.filter fun c => c.command.call.1 = some context).map fun c => c.command.call.2

theorem issuedBy_append (m : RenderModule κ) (contexts : List (TCommandBuffer (Option Nat × κ)))
    (context i : Nat) (call : κ) :
    issuedBy { m with contexts := contexts, issued := m.issued ++ [(context, call)] } i =
      m.issuedBy i ++ if context = i then [call] else [] := by
  unfold issuedBy
  rw [List.filter_append, List.map_append]
  split <;> simp [*]

@[simp] theorem callsOf_append (context : Nat) (l l' : List (Issued (Option Nat × κ))) :
    callsOf context (l ++ l') = callsOf context l ++ callsOf context l' := by
  simp [callsOf]

/-! ### The rendering flush -/

/-- A flush of the render thread never looks for an object, and drops nothing. -/
structure Rendered (server : State κ) : Prop where
  override : ∀ f, server.flush = some f → f.objectOverride = true
  executed : ∀ c ∈ server.consumed, c.2 = Fate.executed

section
variable {server server' : State κ} {f : Flush} {e : Entry κ} {now : Time}

theorem rendered_of_override (hflush : server.flush = some f) (hf : f.objectOverride = true)
    (hexecuted : ∀ c ∈ server.consumed, c.2 = Fate.executed) : Rendered server where
  override f' hf' := by
    cases hflush.symm.trans hf'
    exact hf
  executed := hexecuted

theorem rendered_processCommand (h : Rendered server) (hf : f.objectOverride = true)
    {max bufferPos numProcessed : Nat}
    (hs : server.processCommand f e max bufferPos numProcessed = some server') :
    Rendered server' := by
  obtain ⟨round, -, rfl⟩ := Option.map_eq_some_iff.mp hs
  cases round with
  | bufferEnd => exact rendered_of_override rfl hf h.executed
  | command c bufferPos' =>
    have hexecuted : ∀ c' ∈ server.consumed ++ [(Issued.mk e.objectId c, Fate.executed)],
        c'.2 = Fate.executed := by
      intro c' hc'
      rcases List.mem_append.mp hc' with hc' | hc'
      · exact h.executed c' hc'
      · rw [List.mem_singleton.mp hc']
    dsimp only
    split <;> exact rendered_of_override rfl hf hexecuted

theorem rendered_flushNext (h : Rendered server) (hflush : server.flush = some f)
    (hs : server.flushNext f now = some server') : Rendered server' := by
  have hf := h.override f hflush
  rw [State.flushNext] at hs
  split at hs
  · cases hs
    unfold State.fetch
    split
    · exact rendered_of_override rfl hf h.executed
    · split
      · exact rendered_of_override rfl hf h.executed
      · exact rendered_of_override rfl hf h.executed
  · obtain ⟨e, -, rfl⟩ := Option.map_eq_some_iff.mp hs
    unfold State.checkTime
    dsimp only
    split <;> exact rendered_of_override rfl hf h.executed
  · obtain ⟨e, -, rfl⟩ := Option.map_eq_some_iff.mp hs
    unfold State.lookupObject
    rw [if_pos (by rw [hf]; rfl)]
    split <;> exact rendered_of_override rfl hf h.executed
  · obtain ⟨e, -, hs⟩ := Option.bind_eq_some_iff.mp hs
    exact rendered_processCommand h hf hs
  · obtain ⟨e, -, rfl⟩ := Option.map_eq_some_iff.mp hs
    exact rendered_of_override rfl hf h.executed
  · cases hs
    exact rendered_of_override rfl hf h.executed
  · cases hs
    refine ⟨fun f' hf' => ?_, h.executed⟩
    cases hf'

theorem rendered_flushState (h : Rendered server) {maxFlushTime : Time}
    (hs : server.flushState true maxFlushTime now = some server') : Rendered server' := by
  rw [State.flushState] at hs
  split at hs
  · cases hs
    exact h
  · obtain ⟨-, heq⟩ := Option.ite_none_right_eq_some.mp hs
    cases heq
    refine ⟨fun f' hf' => ?_, h.executed⟩
    cases hf'
    rfl

theorem rendered_addCommandBuffer (h : Rendered server) (objectId : ObjectID)
    (buffer : TCommandBuffer κ) : Rendered (server.addCommandBuffer objectId now buffer) := by
  unfold State.addCommandBuffer
  split <;> exact ⟨h.override, h.executed⟩

end

/-! ### The invariant -/

/-- What the buffer of a context holds: the last calls of the thread, from the start on. -/
structure Holds (m : RenderModule κ) (context : Nat)
    (commands : TCommandBuffer (Option Nat × κ)) : Prop where
  wellFormed : commands.WellFormed
  start : commands.start = 0
  tagged : ∀ c ∈ commands.remaining, c.call.1 = some context
  issued : m.issuedBy context =
    callsOf context m.server.added ++ commands.remaining.map fun c => c.call.2

structure Consistent (m : RenderModule κ) : Prop where
  ordered : State.Ordered m.server
  rendered : Rendered m.server
  holds : ∀ context commands, m.contexts[context]? = some commands → m.Holds context commands

theorem callsOf_remaining {context : Nat} {context' : Option Nat} {objectId : ObjectID} {now : Time}
    {commands : TCommandBuffer (Option Nat × κ)}
    (htagged : ∀ c ∈ commands.remaining, c.call.1 = context') :
    callsOf context (Entry.remaining ⟨objectId, now, commands⟩) =
      if context' = some context then commands.remaining.map fun c => c.call.2 else [] := by
  unfold callsOf Entry.remaining
  rw [List.filter_map, List.map_map]
  split
  · next heq =>
    rw [List.filter_eq_self.mpr fun c hc => by simp [htagged c hc, heq]]
    rfl
  · next hne =>
    rw [List.filter_eq_nil_iff.mpr fun c hc => by simp [htagged c hc, hne], List.map_nil]

section
variable {m m' : RenderModule κ} {renderingServer : ObjectID} {workerCount : Nat}

theorem consistent_init (h : (machine κ renderingServer workerCount).init m) : Consistent m := by
  obtain ⟨alive, rfl⟩ := h
  refine ⟨State.ordered_init alive, ⟨(fun _ hf => by cases hf), (fun _ hc => by cases hc)⟩, ?_⟩
  intro context commands hcommands
  rw [List.eq_of_mem_replicate (List.mem_of_getElem? hcommands)]
  exact ⟨TCommandBuffer.wellFormed_empty, rfl, (fun _ hc => by cases hc), rfl⟩

namespace Consistent
variable (h : Consistent m)
include h

theorem addCommand {context : Nat} (call : κ) (argStorage : Nat)
    {commands : TCommandBuffer (Option Nat × κ)} (hcommands : m.contexts[context]? = some commands) :
    Consistent { m with
      contexts := m.contexts.set context (commands.addCommand ⟨(some context, call), argStorage⟩)
      issued := m.issued ++ [(context, call)] } := by
  refine ⟨h.ordered, h.rendered, fun i b hb => ?_⟩
  by_cases hi : context = i
  · subst hi
    have hold := h.holds context commands hcommands
    rw [List.getElem?_set_self (List.getElem?_eq_some_iff.mp hcommands).1] at hb
    cases hb
    obtain ⟨hwf, hremaining⟩ := hold.wellFormed.addCommand ⟨(some context, call), argStorage⟩
    refine ⟨hwf, hold.start, fun c hc => ?_, ?_⟩
    · rw [hremaining] at hc
      rcases List.mem_append.mp hc with hc | hc
      · exact hold.tagged c hc
      · rw [List.mem_singleton.mp hc]
    · rw [issuedBy_append, if_pos rfl, hremaining, List.map_append, ← List.append_assoc]
      exact congrArg (· ++ [call]) hold.issued
  · rw [List.getElem?_set_ne hi] at hb
    have hold := h.holds i b hb
    refine ⟨hold.wellFormed, hold.start, hold.tagged, ?_⟩
    rw [issuedBy_append, if_neg hi, List.append_nil]
    exact hold.issued

/-- The server takes commands that nobody holds, or those of one context. -/
theorem flush {server : State (Option Nat × κ)} (hordered : State.Ordered server)
    (hrendered : Rendered server) (hadded : server.added = m.server.added) :
    Consistent { m with server := server } := by
  refine ⟨hordered, hrendered, fun i b hb => ?_⟩
  have hold := h.holds i b hb
  refine ⟨hold.wellFormed, hold.start, hold.tagged, ?_⟩
  show m.issuedBy i = callsOf i server.added ++ _
  rw [hadded]
  exact hold.issued

theorem addCommands (now : Time) {buffer : TCommandBuffer (Option Nat × κ)} (hwf : buffer.WellFormed)
    (htagged : ∀ c ∈ buffer.remaining, c.call.1 = none) :
    Consistent { m with server := m.server.addCommandBuffer renderingServer now buffer } := by
  refine ⟨State.ordered_addCommandBuffer h.ordered _ now hwf,
    rendered_addCommandBuffer h.rendered _ buffer, fun i b hb => ?_⟩
  have hold := h.holds i b hb
  refine ⟨hold.wellFormed, hold.start, hold.tagged, ?_⟩
  show m.issuedBy i = callsOf i (m.server.addCommandBuffer renderingServer now buffer).added ++ _
  rw [State.added_addCommandBuffer _ hwf, callsOf_append, callsOf_remaining htagged, if_neg (by simp),
    List.append_nil]
  exact hold.issued

theorem handNext (k : Nat) (now : Time) : Consistent (m.handNext renderingServer k now) := by
  unfold RenderModule.handNext
  cases hk : m.contexts[k]? with
  | none =>
    refine ⟨h.ordered, h.rendered, fun i b hb => ?_⟩
    have hold := h.holds i b hb
    exact ⟨hold.wellFormed, hold.start, hold.tagged, hold.issued⟩
  | some commands =>
    have hhanded := h.holds k commands hk
    refine ⟨State.ordered_addCommandBuffer h.ordered _ now hhanded.wellFormed,
      rendered_addCommandBuffer h.rendered _ commands, fun i b hb => ?_⟩
    have hadded : callsOf i (m.server.addCommandBuffer renderingServer now commands).added =
        callsOf i m.server.added ++
          if k = i then commands.remaining.map fun c => c.call.2 else [] := by
      rw [State.added_addCommandBuffer _ hhanded.wellFormed, callsOf_append,
        callsOf_remaining hhanded.tagged]
      simp
    by_cases hi : k = i
    · subst hi
      rw [List.getElem?_set_self (List.getElem?_eq_some_iff.mp hk).1] at hb
      cases hb
      refine ⟨TCommandBuffer.wellFormed_empty, rfl, (fun _ hc => by cases hc), ?_⟩
      show m.issuedBy k = callsOf k _ ++ []
      rw [hadded, if_pos rfl, List.append_nil]
      exact hhanded.issued
    · rw [List.getElem?_set_ne hi] at hb
      have hold := h.holds i b hb
      refine ⟨hold.wellFormed, hold.start, hold.tagged, ?_⟩
      show m.issuedBy i = callsOf i _ ++ _
      rw [hadded, if_neg hi, List.append_nil]
      exact hold.issued

end Consistent

theorem consistent_of_reach (h : (machine κ renderingServer workerCount).Reachable m) :
    Consistent m := by
  refine h.invariant (I := Consistent) (fun m hinit => consistent_init hinit) ?_
  intro m l m' _ hm _ hstep
  cases l with
  | addCommand context call argStorage =>
    obtain ⟨commands, hcommands, rfl⟩ := Option.map_eq_some_iff.mp hstep
    exact hm.addCommand call argStorage hcommands
  | update =>
    obtain ⟨-, heq⟩ := Option.ite_none_right_eq_some.mp hstep
    cases heq
    refine ⟨hm.ordered, hm.rendered, fun i b hb => ?_⟩
    have hold := hm.holds i b hb
    exact ⟨hold.wellFormed, hold.start, hold.tagged, hold.issued⟩
  | handNext now =>
    obtain ⟨k, -, rfl⟩ := Option.map_eq_some_iff.mp hstep
    exact hm.handNext k now
  | addCommands now buffer =>
    cases hstep
    exact hm.addCommands now buffer.2.1 buffer.2.2
  | renderingFlush now =>
    obtain ⟨server, hs, rfl⟩ := Option.map_eq_some_iff.mp hstep
    exact hm.flush (State.ordered_flushState hm.ordered hs) (rendered_flushState hm.rendered hs)
      (State.added_flushState hs)
  | flush now =>
    obtain ⟨server, hs, rfl⟩ := Option.map_eq_some_iff.mp hstep
    obtain ⟨f, hflush, hs⟩ := Option.bind_eq_some_iff.mp hs
    exact hm.flush (State.ordered_flushNext hm.ordered hflush hs)
      (rendered_flushNext hm.rendered hflush hs) (State.added_flushNext hs)

/-! ### What is executed -/

/-- The calls of a thread: those executed, those the server has, and those still in the context. -/
structure Delivered (m : RenderModule κ) : Prop where
  split : ∀ context commands, m.contexts[context]? = some commands → m.issuedBy context =
    callsOf context m.server.executed ++ callsOf context (m.server.inProgress ++ m.server.queued) ++
      commands.remaining.map fun c => c.call.2
  start : ∀ commands ∈ m.contexts, commands.start = 0
  kept : m.server.executed = m.server.consumed.map Prod.fst
  done : m.server.inProgress = [] → m.server.queued = [] →
    ∀ context commands, m.contexts[context]? = some commands → commands.numCommands = 0 →
      callsOf context m.server.executed = m.issuedBy context

/-- However the threads, the updates and the render thread take turns: the render thread executes the
commands of each thread in the order in which the thread added them and none twice, loses none, and
nobody adds to a buffer that is being executed. -/
theorem render_commands_delivered (h : (machine κ renderingServer workerCount).Reachable m) :
    Delivered m := by
  have hm := consistent_of_reach h
  have hkept : m.server.executed = m.server.consumed.map Prod.fst := by
    unfold State.executed
    rw [List.filter_eq_self.mpr fun c hc => decide_eq_true (hm.rendered.executed c hc)]
  have hsplit : ∀ context commands, m.contexts[context]? = some commands → m.issuedBy context =
      callsOf context m.server.executed ++ callsOf context (m.server.inProgress ++ m.server.queued) ++
        commands.remaining.map fun c => c.call.2 := by
    intro context commands hcommands
    rw [(hm.holds context commands hcommands).issued, hm.ordered.split, hkept, ← callsOf_append,
      List.append_assoc]
  refine ⟨hsplit, fun commands hcommands => ?_, hkept, fun hprogress hqueue context commands hc hn => ?_⟩
  · obtain ⟨context, hcontext⟩ := List.mem_iff_getElem?.mp hcommands
    exact (hm.holds context commands hcontext).start
  · have hempty : commands.remaining = [] :=
      List.length_eq_zero_iff.mp ((hm.holds context commands hc).wellFormed.numCommands.symm.trans hn)
    rw [hsplit context commands hc, hprogress, hqueue, hempty]
    simp [callsOf]

end

/- Two threads add commands around an update whose buffers the render thread executes in between. -/
def twoThreads : List (Label Nat) :=
  [.addCommand 0 10 4, .addCommand 1 20 0, .addCommand 0 11 8, .update, .handNext 0,
    .renderingFlush 1, .flush 1, .flush 1, .addCommand 1 21 2, .flush 1, .flush 1, .handNext 2,
    .addCommand 0 12 1, .flush 2, .flush 2, .flush 2, .flush 2, .flush 2, .flush 2, .flush 2, .flush 2]

def twoContexts : RenderModule Nat where
  contexts := List.replicate 2 {}
  server := { alive := fun _ => true }

theorem render_commands_delivered_twoThreads : ∃ m : RenderModule Nat,
    (machine Nat 7 2).exec twoContexts twoThreads = some m ∧
      callsOf 1 m.server.executed = [20, 21] ∧ Delivered m := by
  have hrun : ((machine Nat 7 2).exec twoContexts twoThreads).map
      (fun m => callsOf 1 m.server.executed) = some [20, 21] := by decide +kernel
  obtain ⟨m, hm, hcalls⟩ := Option.map_eq_some_iff.mp hrun
  exact ⟨m, hm, hcalls,
    render_commands_delivered (Machine.reachable_of_exec ⟨fun _ => true, rfl⟩ hm)⟩

end RenderModule
end CosmicArchitect.Render
