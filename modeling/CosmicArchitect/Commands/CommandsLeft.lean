import CosmicArchitect.Commands.CommandCounts

/-!
# Commands left in the server (Commands/CommandServer.cpp)

The two states of the server, each flushed on its own thread. `HasCommandsLeft` looks into the
queues; the buffer that a flush has taken out is in neither of them.
-/

namespace CosmicArchitect.CommandServer
open Commands Library

variable {κ : Type} {H : CommandHeader} {G : GodotTypes}

def maxTimePerFlush : Time := 100000000

def maxTimePerRenderFlush : Time := 10000000

namespace State
variable {m m' : State κ} {f : Flush κ} {dropped : Nat}

/-- The flush is stopped by its time while no buffer is queued behind the one in progress. -/
def StopsShort (m : State κ) (now : Time) : Prop :=
  ∃ f ∈ m.flush, ∃ e ∈ m.currentBuffer, f.place matches .time ∧ m.commandBuffers = [] ∧
    ¬ now - e.addedTime > forceTime ∧ now ≥ f.endTime

instance decidableStopsShort (m : State κ) (now : Time) : Decidable (m.StopsShort now) :=
  inferInstanceAs (Decidable (∃ f ∈ m.flush, ∃ e ∈ m.currentBuffer, f.place matches .time ∧
    m.commandBuffers = [] ∧ ¬ now - e.addedTime > forceTime ∧ now ≥ f.endTime))

/-- A buffer in progress holds commands. -/
def Interrupted (m : State κ) : Prop :=
  m.bufferInProgress = true ∧ ∃ e, m.currentBuffer = some e ∧ 0 < e.buffer.numCommands

theorem outstanding_eq_zero (h : Counted H G m dropped) :
    outstanding m = 0 ↔ m.commandBuffers = [] ∧ ¬ m.Interrupted := by
  have hqueue : total m.commandBuffers = 0 ↔ m.commandBuffers = [] := by
    cases hbuffers : m.commandBuffers with
    | nil => exact iff_of_true rfl rfl
    | cons e rest =>
      obtain ⟨-, hpos⟩ := h.queue e (by rw [hbuffers]; exact List.mem_cons_self)
      rw [total_cons]
      exact iff_of_false (by omega) (List.cons_ne_nil e rest)
  cases hprogress : m.bufferInProgress with
  | false =>
    have hnot : ¬ m.Interrupted := fun hi => by
      rw [Interrupted, hprogress] at hi
      exact absurd hi.1 Bool.false_ne_true
    rw [outstanding_queue hprogress, hqueue]
    exact (and_iff_left hnot).symm
  | true =>
    cases hcur : m.currentBuffer with
    | none =>
      have hnot : ¬ m.Interrupted := by
        intro hi
        obtain ⟨-, e, he, -⟩ := hi
        cases hcur.symm.trans he
      have hnone : outstanding m = total m.commandBuffers := by
        rw [outstanding, hcur, hprogress]
        rfl
      rw [hnone, hqueue]
      exact (and_iff_left hnot).symm
    | some e =>
      have hinterrupted : m.Interrupted ↔ 0 < e.buffer.numCommands := by
        constructor
        · intro hi
          obtain ⟨-, e', he', hpos⟩ := hi
          cases hcur.symm.trans he'
          exact hpos
        · exact fun hpos => ⟨hprogress, e, hcur, hpos⟩
      rw [outstanding_inProgress hprogress hcur, hinterrupted, ← hqueue]
      omega

/-! ### Flushes in time -/

/-- Behind the loop, a buffer in progress has others behind it. -/
def Backed (m : State κ) : Prop :=
  m.place = .flushed ∨ m.place = .processed → m.bufferInProgress = true → m.commandBuffers ≠ []

/-- At the head of the loop and inside of it nothing is asked of the queue. -/
theorem backed_goto {place : FlushPlace κ}
    (hinside : (place matches .flushed | .processed) = false) : (m.goto f place).Backed := by
  intro hplace
  have hend : place = .flushed ∨ place = .processed := hplace
  rcases hend with rfl | rfl <;> cases hinside

theorem Backed.addCommandBuffer (h : m.Backed) (objectId : ObjectID) (now : Time)
    (buffer : CommandBufferEntry κ) : (m.addCommandBuffer objectId now buffer).Backed := by
  rw [State.addCommandBuffer]
  split
  · exact h
  · intro _ _
    exact List.append_ne_nil_of_right_ne_nil _ (List.cons_ne_nil _ _)

theorem Backed.flushState (h : m.Backed) {objectOverride : Bool} {maxFlushTime now : Time}
    (hs : m.flushState objectOverride maxFlushTime now = some m') : m'.Backed := by
  rw [State.flushState] at hs
  split at hs
  · cases hs
    exact h
  · split at hs
    · cases hs
    · cases hs
      intro hplace
      rcases hplace with hplace | hplace <;> cases hplace

theorem Backed.fetch (m : State κ) (f : Flush κ) : (m.fetch f).Backed := by
  rw [State.fetch]
  split
  · exact backed_goto rfl
  · next hprogress =>
    split
    · exact fun _ hp => absurd hp hprogress
    · exact backed_goto rfl

theorem Backed.checkTime {e : Entry κ} {now : Time} (hflush : m.flush = some f)
    (hplace : f.place = .time) (hcur : m.currentBuffer = some e) (htime : ¬ m.StopsShort now) :
    (m.checkTime f e now).Backed := by
  rw [State.checkTime]
  split
  · next hlimit =>
    intro _ _ hnil
    exact htime ⟨f, hflush, e, hcur, by rw [hplace], hnil, hlimit.1, hlimit.2⟩
  · exact backed_goto rfl

theorem Backed.lookupObject (m : State κ) (f : Flush κ) (e : Entry κ) (iterCommands : Nat) :
    (m.lookupObject H G f e iterCommands).Backed := by
  rw [State.lookupObject]
  split
  · exact backed_goto rfl
  · exact backed_goto rfl

theorem Backed.flushNext (h : m.Backed) {now : Time} (hflush : m.flush = some f)
    (htime : ¬ m.StopsShort now) (hs : m.flushNext H G f now = some m') : m'.Backed := by
  rw [State.flushNext] at hs
  split at hs
  · cases hs
    exact Backed.fetch m f
  · next hplace =>
    obtain ⟨e, hcur, rfl⟩ := Option.map_eq_some_iff.mp hs
    exact Backed.checkTime hflush hplace hcur htime
  · obtain ⟨e, -, rfl⟩ := Option.map_eq_some_iff.mp hs
    exact Backed.lookupObject m f e _
  · obtain ⟨e, -, hs⟩ := Option.bind_eq_some_iff.mp hs
    obtain ⟨result, -, rfl⟩ := Option.map_eq_some_iff.mp hs
    exact backed_goto rfl
  · obtain ⟨e, -, rfl⟩ := Option.map_eq_some_iff.mp hs
    exact backed_goto rfl
  · next hplace =>
    cases hs
    intro _
    exact h (Or.inl (by rw [place_flush hflush, hplace]))
  · next hplace =>
    cases hs
    intro _
    exact h (Or.inr (by rw [place_flush hflush, hplace]))

theorem Backed.step (h : m.Backed) {l : Label κ H G}
    (htime : ∀ now, l = .flush now → ¬ m.StopsShort now) (hs : step m l = some m') :
    m'.Backed := by
  cases l with
  | addCommandBuffer objectId now buffer =>
    cases hs
    exact h.addCommandBuffer objectId now buffer.1
  | flushState objectOverride maxFlushTime now => exact h.flushState hs
  | flush now =>
    obtain ⟨f, hflush, hs⟩ := Option.bind_eq_some_iff.mp hs
    exact h.flushNext hflush (htime now rfl) hs
  | deleteObject objectId =>
    cases hs
    exact h

end State

structure Server (κ : Type) where
  renderingServer : ObjectID
  state : State κ
  renderingState : State κ

namespace Server

/-- `HasCommandsLeft` -/
def hasCommandsLeft (s : Server κ) : Bool :=
  if s.renderingState.commandBuffers.length > 0 then true
  else if s.state.commandBuffers.length > 0 then true
  else false

/-- The state that is flushed on the render thread, or the one of the main thread. -/
def part (s : Server κ) (rendering : Bool) : State κ :=
  if rendering then s.renderingState else s.state

def setPart (s : Server κ) (rendering : Bool) (m : State κ) : Server κ :=
  if rendering then { s with renderingState := m } else { s with state := m }

inductive Label (κ : Type) (H : CommandHeader) (G : GodotTypes)
  | addCommandBuffer (objectId : ObjectID) (now : Time)
      (buffer : { b : CommandBufferEntry κ // b.Valid H G })
  | flushState (rendering : Bool) (maxFlushTime now : Time)
  | flushNext (rendering : Bool) (now : Time)
  | deleteObject (objectId : ObjectID)

/-- `Flush` starts on the main thread; `RenderingFlush` follows on the render thread. -/
def Label.flush (now : Time) : Label κ H G := .flushState false maxTimePerFlush now

def Label.renderingFlush (now : Time) : Label κ H G := .flushState true maxTimePerRenderFlush now

/- The commands for the rendering server go to its state, whose flush is given that server as its
   object. -/
def step (s : Server κ) : Label κ H G → Option (Server κ)
  | .addCommandBuffer objectId now buffer =>
    let rendering := s.renderingServer == objectId
    some (s.setPart rendering ((s.part rendering).addCommandBuffer objectId now buffer))
  | .flushState rendering maxFlushTime now =>
    ((s.part rendering).flushState rendering maxFlushTime now).map (s.setPart rendering)
  | .flushNext rendering now =>
    ((s.part rendering).step (.flush now : State.Label κ H G)).map (s.setPart rendering)
  | .deleteObject objectId => some
    { s with
      state := { s.state with alive := fun o => o ≠ objectId && s.state.alive o }
      renderingState :=
        { s.renderingState with alive := fun o => o ≠ objectId && s.renderingState.alive o } }

def init (renderingServer : ObjectID) (alive : ObjectID → Bool) : Server κ where
  renderingServer := renderingServer
  state := { alive := alive }
  renderingState := { alive := alive }

def machine (κ : Type) (H : CommandHeader) (G : GodotTypes) (renderingServer : ObjectID)
    (alive : ObjectID → Bool) : Machine (Server κ) (Label κ H G) where
  init s := s = init renderingServer alive
  step := step

/-- The commands in the queues and in the buffers in progress; those of a batch count until
`ProcessCommands` returns. -/
def commandsLeft (s : Server κ) : Nat := s.state.outstanding + s.renderingState.outstanding

/-- No flush is stopped by its time with nothing queued behind its buffer. -/
def InTime (s : Server κ) : Label κ H G → Prop
  | .flushNext rendering now => ¬ (s.part rendering).StopsShort now
  | _ => True

instance decidableInTime (s : Server κ) : (l : Label κ H G) → Decidable (InTime s l)
  | .flushNext rendering now => inferInstanceAs (Decidable (¬ (s.part rendering).StopsShort now))
  | .addCommandBuffer .. => isTrue trivial
  | .flushState .. => isTrue trivial
  | .deleteObject _ => isTrue trivial

variable {s s' : Server κ}

theorem part_setPart (s : Server κ) (rendering rendering' : Bool) (m : State κ) :
    (s.setPart rendering m).part rendering' =
      if rendering' = rendering then m else s.part rendering' := by
  cases rendering <;> cases rendering' <;> rfl

/-- Each state of the server takes a step of its own or none. -/
theorem step_part {l : Label κ H G} (hs : step s l = some s') (rendering : Bool) :
    s'.part rendering = s.part rendering ∨
      ∃ l' : State.Label κ H G, (s.part rendering).step l' = some (s'.part rendering) ∧
        ∀ now, l' = .flush now → l = .flushNext rendering now := by
  cases l with
  | addCommandBuffer objectId now buffer =>
    cases hs
    rw [part_setPart]
    split
    · next hpart =>
      rw [hpart]
      exact Or.inr ⟨.addCommandBuffer objectId now buffer, rfl, fun _ hc => by cases hc⟩
    · exact Or.inl rfl
  | flushState rendering' maxFlushTime now =>
    obtain ⟨m, hm, rfl⟩ := Option.map_eq_some_iff.mp hs
    rw [part_setPart]
    split
    · next hpart =>
      rw [hpart]
      exact Or.inr ⟨.flushState rendering' maxFlushTime now, hm, fun _ hc => by cases hc⟩
    · exact Or.inl rfl
  | flushNext rendering' now =>
    obtain ⟨m, hm, rfl⟩ := Option.map_eq_some_iff.mp hs
    rw [part_setPart]
    split
    · next hpart =>
      rw [hpart]
      exact Or.inr ⟨.flush now, hm, fun _ hc => by cases hc; rfl⟩
    · exact Or.inl rfl
  | deleteObject objectId =>
    cases hs
    refine Or.inr ⟨.deleteObject objectId, ?_, fun _ hc => by cases hc⟩
    cases rendering <;> rfl

theorem counted {renderingServer : ObjectID} {alive : ObjectID → Bool}
    (h : (machine κ H G renderingServer alive).Reachable s) (rendering : Bool) :
    ∃ dropped, State.Counted H G (s.part rendering) dropped := by
  refine Machine.Reach.invariant
    (I := fun s => ∃ dropped, State.Counted H G (s.part rendering) dropped) (fun s hs => ?_)
    (fun s l s' _ ih _ hs => ?_) h
  · cases hs
    refine ⟨0, ?_⟩
    cases rendering <;> exact State.counted_init alive
  · obtain ⟨dropped, hcounted⟩ := ih
    rcases step_part hs rendering with hsame | ⟨l', hstep, -⟩
    · rw [hsame]
      exact ⟨dropped, hcounted⟩
    · obtain ⟨k, hcounted', -⟩ := hcounted.step hstep
      exact ⟨_, hcounted'⟩

theorem backed {renderingServer : ObjectID} {alive : ObjectID → Bool}
    (h : (machine κ H G renderingServer alive).Reach InTime s) (rendering : Bool) :
    (s.part rendering).Backed := by
  refine Machine.Reach.invariant (I := fun s => (s.part rendering).Backed) (fun s hs => ?_)
    (fun s l s' _ ih htime hs => ?_) h
  · cases hs
    cases rendering <;> exact fun _ hprogress => absurd hprogress Bool.false_ne_true
  · rcases step_part hs rendering with hsame | ⟨l', hstep, hlabel⟩
    · rw [hsame]
      exact ih
    · refine ih.step (fun now hl' => ?_) hstep
      rw [hlabel now hl'] at htime
      exact htime

theorem hasCommandsLeft_eq_false (s : Server κ) :
    s.hasCommandsLeft = false ↔ ∀ rendering, (s.part rendering).commandBuffers = [] := by
  rw [hasCommandsLeft, Bool.forall_bool]
  show _ ↔ s.state.commandBuffers = [] ∧ s.renderingState.commandBuffers = []
  rw [← List.length_eq_zero_iff, ← List.length_eq_zero_iff]
  split
  · exact iff_of_false (fun hc => by cases hc) (by omega)
  · split
    · exact iff_of_false (fun hc => by cases hc) (by omega)
    · exact iff_of_true rfl (by omega)

theorem commandsLeft_eq_zero
    (h : ∀ rendering, ∃ dropped, State.Counted H G (s.part rendering) dropped) :
    s.commandsLeft = 0 ↔
      ∀ rendering, (s.part rendering).commandBuffers = [] ∧ ¬ (s.part rendering).Interrupted := by
  obtain ⟨_, hmain⟩ := h false
  obtain ⟨_, hrendering⟩ := h true
  rw [Bool.forall_bool, ← State.outstanding_eq_zero hmain, ← State.outstanding_eq_zero hrendering]
  exact Nat.add_eq_zero_iff

/-- `HasCommandsLeft` is right in just the states in which a buffer is queued or no buffer in
progress holds commands; so it is between the flushes when none was stopped by its time with
nothing queued behind its buffer. -/
theorem hasCommandsLeft_iff (renderingServer : ObjectID) (alive : ObjectID → Bool)
    {ls : List (Label κ H G)}
    (hrun : (machine κ H G renderingServer alive).exec (init renderingServer alive) ls = some s) :
    ((s.hasCommandsLeft = false ↔ s.commandsLeft = 0) ↔
      (∃ rendering, (s.part rendering).commandBuffers ≠ []) ∨
        ∀ rendering, ¬ (s.part rendering).Interrupted) ∧
    ((machine κ H G renderingServer alive).Follows InTime (init renderingServer alive) ls →
      (∀ rendering, (s.part rendering).flush = none) →
        (s.hasCommandsLeft = false ↔ s.commandsLeft = 0)) := by
  have hcounted := counted (Machine.reachable_of_exec rfl hrun)
  have hexact : (s.hasCommandsLeft = false ↔ s.commandsLeft = 0) ↔
      (∃ rendering, (s.part rendering).commandBuffers ≠ []) ∨
        ∀ rendering, ¬ (s.part rendering).Interrupted := by
    rw [hasCommandsLeft_eq_false, commandsLeft_eq_zero hcounted, forall_and]
    by_cases hqueues : ∀ rendering, (s.part rendering).commandBuffers = []
    · have hnone : ¬ ∃ rendering, (s.part rendering).commandBuffers ≠ [] :=
        not_exists.mpr fun rendering => not_not.mpr (hqueues rendering)
      rw [iff_true_left hqueues, and_iff_right hqueues, or_iff_right hnone]
    · have hsome : ∃ rendering, (s.part rendering).commandBuffers ≠ [] := not_forall.mp hqueues
      exact iff_of_true (iff_of_false hqueues fun h => hqueues h.1) (Or.inl hsome)
  refine ⟨hexact, fun hfollows hidle => hexact.mpr ?_⟩
  by_cases hqueues : ∃ rendering, (s.part rendering).commandBuffers ≠ []
  · exact Or.inl hqueues
  · refine Or.inr fun rendering hinterrupted => hqueues ⟨rendering, ?_⟩
    have hbacked := backed (Machine.Reach.exec (.init rfl) hfollows hrun) rendering
    refine hbacked (Or.inr ?_) hinterrupted.1
    rw [State.place, hidle rendering]
    rfl

/-- Both states are flushed to the end, at the same time. -/
def flushBoth : List (Label Nat GodotCommandBuffer.byteHeader GodotCommandBuffer.byteTypes) :=
  [.addCommandBuffer 1 0 ⟨.typed ⟨[⟨30, 4⟩, ⟨31, 1⟩], 0, 2⟩, Library.Blocks.isBoundary_zero _, rfl⟩,
    .addCommandBuffer 7 1 ⟨.typed ⟨[⟨22, 8⟩], 0, 1⟩, Library.Blocks.isBoundary_zero _, rfl⟩,
    .flush 2, .flushNext false 3, .renderingFlush 4, .flushNext true 5, .flushNext false 6,
    .flushNext true 7, .flushNext false 8, .flushNext true 9, .flushNext false 10,
    .flushNext true 11, .flushNext false 12, .flushNext true 13, .flushNext false 14,
    .flushNext true 15, .flushNext false 16, .flushNext true 17, .flushNext false 18,
    .flushNext true 19]

theorem hasCommandsLeft_iff_flushBoth : ∃ s,
    (machine Nat GodotCommandBuffer.byteHeader GodotCommandBuffer.byteTypes 7 fun _ => true).exec
      (init 7 fun _ => true) flushBoth = some s ∧ s.hasCommandsLeft = false ∧
    s.commandsLeft = 0 := by
  obtain ⟨s, hs, hmain, hrendering, hleft⟩ : ∃ s,
      (machine Nat GodotCommandBuffer.byteHeader GodotCommandBuffer.byteTypes 7 fun _ => true).exec
        (init 7 fun _ => true) flushBoth = some s ∧ s.state.flush = none ∧
        s.renderingState.flush = none ∧ s.hasCommandsLeft = false := ⟨_, rfl, rfl, rfl, rfl⟩
  have hexact := (hasCommandsLeft_iff 7 (fun _ => true) hs).2 (by decide)
    (Bool.forall_bool.mpr ⟨hmain, hrendering⟩)
  exact ⟨s, hs, hleft, hexact.mp hleft⟩

/-- A buffer of 65 typed commands for the object 1. -/
def add65 : Label Nat GodotCommandBuffer.byteHeader GodotCommandBuffer.byteTypes :=
  .addCommandBuffer 1 0
    ⟨.typed ⟨List.replicate 65 ⟨20, 4⟩, 0, 65⟩, Library.Blocks.isBoundary_zero _, rfl⟩

/-- The first 64 take until the time of the flush is over. -/
def stopped65 : List (Label Nat GodotCommandBuffer.byteHeader GodotCommandBuffer.byteTypes) :=
  [add65, .flush 1, .flushNext false 2, .flushNext false 3, .flushNext false 4, .flushNext false 5,
    .flushNext false 6, .flushNext false 7, .flushNext false 100000001, .flushNext false 100000002,
    .flushNext false 100000003]

theorem left_stopped65 : ∃ s,
    (machine Nat GodotCommandBuffer.byteHeader GodotCommandBuffer.byteTypes 7 fun _ => true).exec
      (init 7 fun _ => true) stopped65 = some s ∧ s.state.flush = none ∧
    s.renderingState.flush = none ∧ s.hasCommandsLeft = false ∧ s.commandsLeft = 1 :=
  ⟨_, rfl, rfl, rfl, rfl, rfl⟩

end Server
end CosmicArchitect.CommandServer
