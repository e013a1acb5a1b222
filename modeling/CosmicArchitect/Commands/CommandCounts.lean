import CosmicArchitect.Commands.CommandBuffers
import CosmicArchitect.Commands.CommandServer

/-!
# Counts of commands (Commands/CommandServer.cpp)

One `State` of the server over buffers of both kinds. A batch is started by one step and returns
in another, so that buffers are added and objects deleted while commands are executed.
-/

namespace CosmicArchitect.CommandServer
open Commands Library

variable {κ : Type} {H : CommandHeader} {G : GodotTypes}

structure Entry (κ : Type) where
  objectId : ObjectID
  addedTime : Time
  buffer : CommandBufferEntry κ

/- Where `FlushState` is. In `processCommands` a batch is executed, which will leave the buffer and
   return the number of commands as given, or stop the process. -/
inductive FlushPlace (κ : Type)
  | buffers
  | time
  | object (iterCommands : Nat)
  | processCommands (result : Option (CommandBufferEntry κ × Nat))
  | numCommands
  | flushed
  | processed

structure Flush (κ : Type) where
  objectOverride : Bool
  endTime : Time
  processedCommands : UInt64 := 0
  place : FlushPlace κ := .buffers

/- A `State` of the server with the flush on its thread and the objects that are alive. No step
   reads `added`, the number of commands that were ever added. -/
structure State (κ : Type) where
  commandBuffers : List (Entry κ) := []
  numCommands : UInt64 := 0
  lifetimeCommands : UInt64 := 0
  flushingInProgress : Bool := false
  bufferInProgress : Bool := false
  currentBuffer : Option (Entry κ) := none
  flush : Option (Flush κ) := none
  alive : ObjectID → Bool
  added : Nat := 0

namespace State

inductive Label (κ : Type) (H : CommandHeader) (G : GodotTypes)
  | addCommandBuffer (objectId : ObjectID) (now : Time)
      (buffer : { b : CommandBufferEntry κ // b.Valid H G })
  | flushState (objectOverride : Bool) (maxFlushTime now : Time)
  | flush (now : Time)
  | deleteObject (objectId : ObjectID)

/-- `AddCommandBuffer` (lines 44-65) -/
def addCommandBuffer (m : State κ) (objectId : ObjectID) (now : Time)
    (buffer : CommandBufferEntry κ) : State κ :=
  if buffer.numCommands = 0 then m
  else
    { m with
      commandBuffers := m.commandBuffers ++ [⟨objectId, now, buffer⟩]
      numCommands := m.numCommands + UInt64.ofNat buffer.numCommands
      lifetimeCommands := m.lifetimeCommands + UInt64.ofNat buffer.numCommands
      added := m.added + buffer.numCommands }

/-- `FlushState` up to its loop; a nested call returns at once. -/
def flushState (m : State κ) (objectOverride : Bool) (maxFlushTime now : Time) :
    Option (State κ) :=
  if m.flushingInProgress then some m
  else
    match m.flush with
    | some _ => none
    | none => some
      { m with
        flushingInProgress := true
        flush := some { objectOverride := objectOverride, endTime := now + maxFlushTime } }

def goto (m : State κ) (f : Flush κ) (place : FlushPlace κ) : State κ :=
  { m with flush := some { f with place := place } }

/-- The next buffer is taken when none is in progress (lines 130-143). -/
def fetch (m : State κ) (f : Flush κ) : State κ :=
  if m.bufferInProgress then m.goto f .time
  else
    match m.commandBuffers with
    | [] => m.goto f .flushed
    | e :: rest =>
      { m with commandBuffers := rest, currentBuffer := some e, bufferInProgress := true }.goto
        f .time

/-- The time decides how many commands may be processed (lines 145-155). -/
def checkTime (m : State κ) (f : Flush κ) (e : Entry κ) (currentTime : Time) : State κ :=
  let forceCommands := currentTime - e.addedTime > forceTime
  if ¬ forceCommands ∧ currentTime ≥ f.endTime then m.goto f .flushed
  else m.goto f (.object (if forceCommands then processAllCommands else maxCommandsPerIter))

/-- The object of the buffer (lines 158-187); without it the buffer is cleared. -/
def lookupObject (H : CommandHeader) (G : GodotTypes) (m : State κ) (f : Flush κ) (e : Entry κ)
    (iterCommands : Nat) : State κ :=
  if f.objectOverride || m.alive e.objectId then
    m.goto f (.processCommands (e.buffer.processCommands H G iterCommands))
  else
    { m with
      currentBuffer := some { e with buffer := e.buffer.clear }
      bufferInProgress := false }.goto f .numCommands

/-- `ProcessCommands` returns. -/
def finishBatch (m : State κ) (f : Flush κ) (e : Entry κ) (buffer : CommandBufferEntry κ)
    (numProcessed : Nat) : State κ :=
  { m with currentBuffer := some { e with buffer := buffer } }.goto
    { f with processedCommands := f.processedCommands + UInt64.ofNat numProcessed } .numCommands

/-- The next step of `FlushState` (lines 126-202); a stopped process takes none. -/
def flushNext (H : CommandHeader) (G : GodotTypes) (m : State κ) (f : Flush κ) (now : Time) :
    Option (State κ) :=
  match f.place with
  | .buffers => some (m.fetch f)
  | .time => m.currentBuffer.map fun e => m.checkTime f e now
  | .object iterCommands => m.currentBuffer.map fun e => m.lookupObject H G f e iterCommands
  | .processCommands result => m.currentBuffer.bind fun e =>
    result.map fun (buffer, numProcessed) => m.finishBatch f e buffer numProcessed
  | .numCommands => m.currentBuffer.map fun e =>
    { m with
      bufferInProgress := if e.buffer.numCommands = 0 then false else m.bufferInProgress }.goto
        f .buffers
  | .flushed => some ({ m with flushingInProgress := false }.goto f .processed)
  | .processed => some
    { m with numCommands := m.numCommands - f.processedCommands, flush := none }

def step (m : State κ) : Label κ H G → Option (State κ)
  | .addCommandBuffer objectId now buffer => some (m.addCommandBuffer objectId now buffer)
  | .flushState objectOverride maxFlushTime now => m.flushState objectOverride maxFlushTime now
  | .flush now => m.flush.bind fun f => m.flushNext H G f now
  | .deleteObject objectId => some { m with alive := fun o => o ≠ objectId && m.alive o }

def serverMachine (H : CommandHeader) (G : GodotTypes) (alive : ObjectID → Bool) :
    Machine (State κ) (Label κ H G) where
  init m := m = { alive := alive }
  step := step

/-- `NumCommands` over several buffers. -/
def total (entries : List (Entry κ)) : Nat := (entries.map fun e => e.buffer.numCommands).sum

/-- `NumCommands` over the queued buffers and the buffer in progress. -/
def outstanding (m : State κ) : Nat :=
  total m.commandBuffers + if m.bufferInProgress then total m.currentBuffer.toList else 0

/-- The flush is about to look up the object of its buffer, which was deleted. -/
def FacesDeleted (m : State κ) : Prop :=
  ∃ f e iterCommands, m.flush = some f ∧ f.place = .object iterCommands ∧
    m.currentBuffer = some e ∧ f.objectOverride = false ∧ m.alive e.objectId = false

/-- The step clears no buffer of a deleted object. -/
def KeepsCommands (m : State κ) : Label κ H G → Prop
  | .flush _ => ¬ m.FacesDeleted
  | _ => True

/-! ### The accounts -/

variable {m m' : State κ} {f : Flush κ} {e : Entry κ} {dropped : Nat}

/-- The commands processed by the flush that are not yet subtracted. -/
def inHand (m : State κ) : Nat := (m.flush.map fun f => f.processedCommands.toNat).getD 0

def place (m : State κ) : FlushPlace κ := (m.flush.map Flush.place).getD .processed

/-- A buffer that is in progress has commands. -/
def Holds (H : CommandHeader) (G : GodotTypes) (e : Entry κ) : Prop :=
  e.buffer.Valid H G ∧ 0 < e.buffer.numCommands

/-- What each place of the flush knows about the current buffer. -/
def Fits (H : CommandHeader) (G : GodotTypes) (bufferInProgress : Bool)
    (currentBuffer : Option (Entry κ)) : FlushPlace κ → Prop
  | .time | .object _ => bufferInProgress = true ∧ ∃ e, currentBuffer = some e ∧ Holds H G e
  | .processCommands result => bufferInProgress = true ∧ ∃ e, currentBuffer = some e ∧
    ∀ buffer numProcessed, result = some (buffer, numProcessed) → buffer.Valid H G ∧
      buffer.numCommands + numProcessed = e.buffer.numCommands
  | .numCommands => ∃ e, currentBuffer = some e ∧ e.buffer.Valid H G
  | .buffers | .flushed | .processed => bufferInProgress = true →
    ∃ e, currentBuffer = some e ∧ Holds H G e

/-- Of the commands counted, `dropped` are nowhere. -/
structure Counted (H : CommandHeader) (G : GodotTypes) (m : State κ) (dropped : Nat) : Prop where
  fits : Fits H G m.bufferInProgress m.currentBuffer m.place
  queue : ∀ e ∈ m.commandBuffers, Holds H G e
  le : outstanding m + dropped + inHand m ≤ m.added
  numCommands : m.added < 2 ^ 64 → m.numCommands.toNat = outstanding m + dropped + inHand m
  lifetimeCommands : m.added < 2 ^ 64 → m.lifetimeCommands.toNat = m.added

theorem total_cons (e : Entry κ) (entries : List (Entry κ)) :
    total (e :: entries) = e.buffer.numCommands + total entries := by
  rw [total, List.map_cons, List.sum_cons, total]

theorem total_append (entries entries' : List (Entry κ)) :
    total (entries ++ entries') = total entries + total entries' := by
  rw [total, List.map_append, List.sum_append, total, total]

theorem outstanding_inProgress (hprogress : m.bufferInProgress = true)
    (hcur : m.currentBuffer = some e) :
    outstanding m = total m.commandBuffers + e.buffer.numCommands := by
  rw [outstanding, if_pos hprogress, hcur, Option.toList_some, total_cons]
  rfl

theorem outstanding_queue (hprogress : m.bufferInProgress = false) :
    outstanding m = total m.commandBuffers := by
  rw [outstanding, if_neg (by rw [hprogress]; exact Bool.false_ne_true), Nat.add_zero]

theorem place_flush (hflush : m.flush = some f) : m.place = f.place := by
  rw [place, hflush]
  rfl

theorem inHand_flush (hflush : m.flush = some f) : inHand m = f.processedCommands.toNat := by
  rw [inHand, hflush]
  rfl

theorem inHand_idle (hidle : m.flush = none) : inHand m = 0 := by
  rw [inHand, hidle]
  rfl

theorem Counted.fits_at (h : Counted H G m dropped) (hflush : m.flush = some f)
    {place : FlushPlace κ} (hplace : f.place = place) :
    Fits H G m.bufferInProgress m.currentBuffer place := by
  rw [← hplace, ← place_flush hflush]
  exact h.fits

theorem outstanding_fetch (m : State κ) (f : Flush κ) :
    outstanding (m.fetch f) = outstanding m := by
  rw [fetch]
  split
  · rfl
  · next hprogress =>
    split
    · rfl
    · next e rest hbuffers =>
      rw [outstanding_inProgress (e := e) rfl rfl,
        outstanding_queue (Bool.eq_false_iff.mpr hprogress), hbuffers, total_cons, Nat.add_comm]
      rfl

/-- What a flush processes is no longer in the buffer in progress. -/
theorem outstanding_finishBatch {buffer : CommandBufferEntry κ} {n : Nat}
    (hprogress : m.bufferInProgress = true) (hcur : m.currentBuffer = some e)
    (hnum : buffer.numCommands + n = e.buffer.numCommands) :
    outstanding (m.finishBatch f e buffer n) + n = outstanding m := by
  rw [outstanding_inProgress hprogress hcur,
    outstanding_inProgress (m := m.finishBatch f e buffer n) hprogress rfl, ← hnum, Nat.add_assoc]
  rfl

/-- A cleared buffer is no longer in progress. -/
theorem outstanding_cleared (hprogress : m.bufferInProgress = true)
    (hcur : m.currentBuffer = some e) (buffer : Option (Entry κ)) :
    outstanding { m with currentBuffer := buffer, bufferInProgress := false } +
      e.buffer.numCommands = outstanding m := by
  rw [outstanding_inProgress hprogress hcur, outstanding_queue rfl]

theorem outstanding_finished (hcur : m.currentBuffer = some e) :
    outstanding { m with
      bufferInProgress := if e.buffer.numCommands = 0 then false else m.bufferInProgress } =
        outstanding m := by
  split
  · next hzero =>
    rw [outstanding_queue rfl]
    cases hprogress : m.bufferInProgress with
    | false => rw [outstanding_queue hprogress]
    | true => rw [outstanding_inProgress hprogress hcur, hzero, Nat.add_zero]
  · rfl

theorem counted_init (alive : ObjectID → Bool) : Counted H G ({ alive := alive } : State κ) 0 where
  fits h := by cases h
  queue _ h := by cases h
  le := Nat.le_refl 0
  numCommands _ := rfl
  lifetimeCommands _ := rfl

theorem Counted.addCommandBuffer (h : Counted H G m dropped) (objectId : ObjectID) (now : Time)
    {buffer : CommandBufferEntry κ} (hvalid : buffer.Valid H G) :
    Counted H G (m.addCommandBuffer objectId now buffer) dropped := by
  rw [State.addCommandBuffer]
  split
  · exact h
  · next hsome =>
    obtain ⟨m', hm'⟩ : ∃ m' : State κ, m' = { m with
      commandBuffers := m.commandBuffers ++ [⟨objectId, now, buffer⟩]
      numCommands := m.numCommands + UInt64.ofNat buffer.numCommands
      lifetimeCommands := m.lifetimeCommands + UInt64.ofNat buffer.numCommands
      added := m.added + buffer.numCommands } := ⟨_, rfl⟩
    rw [← hm']
    have hadded : m'.added = m.added + buffer.numCommands := by rw [hm']
    have hin : inHand m' = inHand m := by rw [hm']; rfl
    have hout : outstanding m' = outstanding m + buffer.numCommands := by
      rw [hm', outstanding, outstanding]
      simp only [total_append, total_cons]
      have hnil : total ([] : List (Entry κ)) = 0 := rfl
      omega
    have hle := h.le
    refine ⟨by rw [hm']; exact h.fits, ?_, by omega, ?_, ?_⟩
    · intro e he
      rw [hm'] at he
      rcases List.mem_append.mp he with he | he
      · exact h.queue e he
      · rw [List.mem_singleton.mp he]
        exact ⟨hvalid, Nat.pos_of_ne_zero hsome⟩
    · intro hlt
      have hnum := h.numCommands (by omega)
      rw [hm']
      simp only [UInt64.toNat_add, UInt64.toNat_ofNat']
      rw [← hm', hnum]
      omega
    · intro hlt
      have hlife := h.lifetimeCommands (by omega)
      rw [hadded, hm']
      simp only [UInt64.toNat_add, UInt64.toNat_ofNat', hlife]
      omega

theorem Counted.goto (h : Counted H G m dropped) (hflush : m.flush = some f) {place : FlushPlace κ}
    (hfits : Fits H G m.bufferInProgress m.currentBuffer place) :
    Counted H G (m.goto f place) dropped := by
  have hin : inHand (m.goto f place) = inHand m := by
    rw [inHand, inHand, hflush]
    rfl
  refine ⟨hfits, h.queue, ?_, fun hlt => ?_, h.lifetimeCommands⟩
  · rw [hin]
    exact h.le
  · rw [hin]
    exact h.numCommands hlt

theorem Counted.fetch (h : Counted H G m dropped) (hflush : m.flush = some f)
    (hplace : f.place = .buffers) : Counted H G (m.fetch f) dropped := by
  have hfits := h.fits_at hflush hplace
  rw [State.fetch]
  split
  · next hprogress => exact h.goto hflush ⟨hprogress, hfits hprogress⟩
  · next hprogress =>
    split
    · exact h.goto hflush fun hp => absurd hp hprogress
    · next e rest hbuffers =>
      have hhead := h.queue e (by rw [hbuffers]; exact List.mem_cons_self)
      have htaken : Counted H G { m with
          commandBuffers := rest, currentBuffer := some e, bufferInProgress := true } dropped := by
        have hout : outstanding { m with
            commandBuffers := rest, currentBuffer := some e, bufferInProgress := true } =
              outstanding m := by
          rw [← outstanding_fetch m f, State.fetch, if_neg hprogress, hbuffers]
          rfl
        refine ⟨?_, fun e' he' => ?_, ?_, fun hlt => ?_, h.lifetimeCommands⟩
        · show Fits H G true (some e) ((m.flush.map Flush.place).getD .processed)
          rw [hflush, Option.map_some, Option.getD_some, hplace]
          exact fun _ => ⟨e, rfl, hhead⟩
        · exact h.queue e' (by rw [hbuffers]; exact List.mem_cons_of_mem e he')
        · rw [hout]
          exact h.le
        · rw [hout]
          exact h.numCommands hlt
      exact htaken.goto hflush ⟨rfl, e, rfl, hhead⟩

theorem Counted.checkTime (h : Counted H G m dropped) (hflush : m.flush = some f)
    (hplace : f.place = .time) (e : Entry κ) (now : Time) :
    Counted H G (m.checkTime f e now) dropped := by
  have hfits := h.fits_at hflush hplace
  rw [State.checkTime]
  split
  · exact h.goto hflush fun _ => hfits.2
  · exact h.goto hflush hfits

/-- A buffer whose object is gone takes its commands with it. -/
theorem Counted.lookupObject (h : Counted H G m dropped) (hflush : m.flush = some f)
    {iterCommands : Nat} (hplace : f.place = .object iterCommands) (hcur : m.currentBuffer = some e)
    (hs : m.lookupObject H G f e iterCommands = m') :
    ∃ k, Counted H G m' (dropped + k) ∧ (k = 0 ↔ ¬ m.FacesDeleted) := by
  have hfits := h.fits_at hflush hplace
  obtain ⟨hprogress, e', hcur', hvalid, hpos⟩ := hfits
  rw [hcur, Option.some_inj] at hcur'
  subst hcur'
  rw [State.lookupObject] at hs
  split at hs
  · next halive =>
    subst hs
    refine ⟨0, h.goto hflush ⟨hprogress, e, hcur, fun buffer n hprocess => ?_⟩,
      iff_of_true rfl ?_⟩
    · exact hvalid.processCommands hprocess
    intro hdeleted
    obtain ⟨f', e', _, hf', -, he', hoverride, hdead⟩ := hdeleted
    cases hflush.symm.trans hf'
    cases hcur.symm.trans he'
    rw [hoverride, hdead] at halive
    cases halive
  · next hdead =>
    have hgone : f.objectOverride = false ∧ m.alive e.objectId = false := by
      rwa [Bool.or_eq_true, not_or, Bool.not_eq_true, Bool.not_eq_true] at hdead
    have hout : outstanding m' + e.buffer.numCommands = outstanding m := by
      rw [← hs]
      exact outstanding_cleared hprogress hcur _
    have hin : inHand m' = inHand m := by
      rw [← hs, inHand, inHand, hflush]
      rfl
    have hadded : m'.added = m.added := by rw [← hs]; rfl
    have hle := h.le
    refine ⟨e.buffer.numCommands, ⟨?_, ?_, by omega, fun hlt => ?_, ?_⟩, iff_of_false (by omega) ?_⟩
    · rw [← hs]
      exact ⟨_, rfl, hvalid.clear⟩
    · rw [← hs]
      exact h.queue
    · have hnum := h.numCommands (by omega)
      have hsame : m'.numCommands = m.numCommands := by rw [← hs]; rfl
      rw [hsame]
      omega
    · rw [← hs]
      exact h.lifetimeCommands
    · exact not_not.mpr ⟨f, e, iterCommands, hflush, hplace, hcur, hgone⟩

theorem Counted.finishBatch (h : Counted H G m dropped) (hflush : m.flush = some f)
    {buffer : CommandBufferEntry κ} {n : Nat}
    (hplace : f.place = .processCommands (some (buffer, n)))
    (hcur : m.currentBuffer = some e) : Counted H G (m.finishBatch f e buffer n) dropped := by
  have hfits := h.fits_at hflush hplace
  obtain ⟨hprogress, e', hcur', hresult⟩ := hfits
  rw [hcur, Option.some_inj] at hcur'
  subst hcur'
  obtain ⟨hvalid, hnum⟩ := hresult buffer n rfl
  have hout := outstanding_finishBatch (f := f) hprogress hcur hnum
  have hin : inHand (m.finishBatch f e buffer n) = (f.processedCommands.toNat + n) % 2 ^ 64 := by
    show (f.processedCommands + UInt64.ofNat n).toNat = _
    rw [UInt64.toNat_add, UInt64.toNat_ofNat']
    omega
  have hin' := inHand_flush hflush
  have hle := h.le
  refine ⟨⟨_, rfl, hvalid⟩, h.queue, ?_, fun hlt => ?_, h.lifetimeCommands⟩
  · show _ ≤ m.added
    omega
  · have hlt' : m.added < 2 ^ 64 := hlt
    have hcount := h.numCommands hlt'
    show m.numCommands.toNat = _
    omega

/-- A buffer without commands is no longer in progress. -/
theorem Counted.numCommands_zero (h : Counted H G m dropped) (hflush : m.flush = some f)
    (hplace : f.place = .numCommands) (hcur : m.currentBuffer = some e) :
    Counted H G ({ m with
      bufferInProgress := if e.buffer.numCommands = 0 then false else m.bufferInProgress }.goto
        f .buffers) dropped := by
  have hfits := h.fits_at hflush hplace
  obtain ⟨e', hcur', hvalid⟩ := hfits
  rw [hcur, Option.some_inj] at hcur'
  subst hcur'
  by_cases hzero : e.buffer.numCommands = 0
  · have hstopped : Counted H G { m with bufferInProgress := false } dropped := by
      have hout : outstanding { m with bufferInProgress := false } = outstanding m := by
        have hfinished := outstanding_finished hcur
        rwa [if_pos hzero] at hfinished
      refine ⟨?_, h.queue, ?_, ?_, h.lifetimeCommands⟩
      · show Fits H G false m.currentBuffer ((m.flush.map Flush.place).getD .processed)
        rw [hflush, Option.map_some, Option.getD_some, hplace]
        exact ⟨e, hcur, hvalid⟩
      · rw [hout]
        exact h.le
      · rw [hout]
        exact h.numCommands
    rw [if_pos hzero]
    exact hstopped.goto hflush fun hc => by cases hc
  · rw [if_neg hzero]
    exact h.goto hflush fun _ => ⟨e, hcur, hvalid, Nat.pos_of_ne_zero hzero⟩

theorem Counted.flushNext (h : Counted H G m dropped) (hflush : m.flush = some f) {now : Time}
    (hs : m.flushNext H G f now = some m') :
    ∃ k, Counted H G m' (dropped + k) ∧ (k = 0 ↔ ¬ m.FacesDeleted) := by
  -- only the look-up of an object can drop commands
  have hkeep : (∀ iterCommands, f.place ≠ .object iterCommands) → Counted H G m' dropped →
      ∃ k, Counted H G m' (dropped + k) ∧ (k = 0 ↔ ¬ m.FacesDeleted) := by
    intro hplace h'
    refine ⟨0, h', iff_of_true rfl ?_⟩
    rintro ⟨f', e, iterCommands, hf', hobject, -⟩
    cases hflush.symm.trans hf'
    exact hplace iterCommands hobject
  rw [State.flushNext] at hs
  split at hs
  · next hplace =>
    cases hs
    exact hkeep (fun _ hc => by rw [hplace] at hc; cases hc) (h.fetch hflush hplace)
  · next hplace =>
    obtain ⟨e, -, rfl⟩ := Option.map_eq_some_iff.mp hs
    exact hkeep (fun _ hc => by rw [hplace] at hc; cases hc) (h.checkTime hflush hplace e now)
  · next hplace =>
    obtain ⟨e, hcur, hs⟩ := Option.map_eq_some_iff.mp hs
    exact h.lookupObject hflush hplace hcur hs
  · next result hplace =>
    obtain ⟨e, hcur, hs⟩ := Option.bind_eq_some_iff.mp hs
    obtain ⟨⟨buffer, n⟩, rfl, rfl⟩ := Option.map_eq_some_iff.mp hs
    exact hkeep (fun _ hc => by rw [hplace] at hc; cases hc) (h.finishBatch hflush hplace hcur)
  · next hplace =>
    obtain ⟨e, hcur, rfl⟩ := Option.map_eq_some_iff.mp hs
    exact hkeep (fun _ hc => by rw [hplace] at hc; cases hc)
      (h.numCommands_zero hflush hplace hcur)
  · next hplace =>
    cases hs
    have hfits := h.fits_at hflush hplace
    have hleft : Counted H G { m with flushingInProgress := false } dropped :=
      ⟨h.fits, h.queue, h.le, h.numCommands, h.lifetimeCommands⟩
    exact hkeep (fun _ hc => by rw [hplace] at hc; cases hc) (hleft.goto hflush hfits)
  · next hplace =>
    cases hs
    have hfits := h.fits_at hflush hplace
    have hin := inHand_flush hflush
    have hle := h.le
    refine hkeep (fun _ hc => by rw [hplace] at hc; cases hc)
      ⟨hfits, h.queue, ?_, fun hlt => ?_, h.lifetimeCommands⟩
    · show outstanding m + dropped + 0 ≤ m.added
      omega
    · have hnum := h.numCommands hlt
      show (m.numCommands - f.processedCommands).toNat = outstanding m + dropped + 0
      rw [UInt64.toNat_sub_of_le _ _ (UInt64.le_iff_toNat_le.mpr (by omega))]
      omega

theorem Counted.flushState (h : Counted H G m dropped) {objectOverride : Bool}
    {maxFlushTime now : Time} (hs : m.flushState objectOverride maxFlushTime now = some m') :
    Counted H G m' dropped := by
  rw [State.flushState] at hs
  split at hs
  · cases hs
    exact h
  · split at hs
    · cases hs
    · next hnone =>
      cases hs
      have hfits := h.fits
      have hin := inHand_idle hnone
      have hle := h.le
      rw [place, hnone, Option.map_none, Option.getD_none] at hfits
      refine ⟨hfits, h.queue, ?_, fun hlt => ?_, h.lifetimeCommands⟩
      · show outstanding m + dropped + 0 ≤ m.added
        omega
      · have hnum := h.numCommands hlt
        show m.numCommands.toNat = outstanding m + dropped + 0
        omega

theorem Counted.step (h : Counted H G m dropped) {l : Label κ H G} (hs : step m l = some m') :
    ∃ k, Counted H G m' (dropped + k) ∧ (k = 0 ↔ m.KeepsCommands l) := by
  cases l with
  | addCommandBuffer objectId now buffer =>
    cases hs
    exact ⟨0, h.addCommandBuffer objectId now buffer.2, iff_of_true rfl trivial⟩
  | flushState objectOverride maxFlushTime now =>
    exact ⟨0, h.flushState hs, iff_of_true rfl trivial⟩
  | flush now =>
    obtain ⟨f, hflush, hs⟩ := Option.bind_eq_some_iff.mp hs
    exact h.flushNext hflush hs
  | deleteObject objectId =>
    cases hs
    exact ⟨0, ⟨h.fits, h.queue, h.le, h.numCommands, h.lifetimeCommands⟩, iff_of_true rfl trivial⟩

theorem Counted.run {alive : ObjectID → Bool} {ls : List (Label κ H G)} :
    ∀ {m : State κ} {dropped : Nat}, Counted H G m dropped →
      (serverMachine H G alive).exec m ls = some m' →
        ∃ k, Counted H G m' (dropped + k) ∧
          (k = 0 ↔ (serverMachine H G alive).Follows KeepsCommands m ls) := by
  induction ls with
  | nil =>
    intro m dropped h hs
    cases hs
    exact ⟨0, h, iff_of_true rfl trivial⟩
  | cons l ls ih =>
    intro m dropped h hs
    obtain ⟨m₁, hstep, hrest⟩ := Option.bind_eq_some_iff.mp hs
    obtain ⟨k₁, h₁, hk₁⟩ := h.step hstep
    obtain ⟨k₂, h₂, hk₂⟩ := ih h₁ hrest
    refine ⟨k₁ + k₂, by rw [← Nat.add_assoc]; exact h₂, ?_⟩
    have hfollows : (serverMachine H G alive).Follows KeepsCommands m (l :: ls) ↔
        m.KeepsCommands l ∧ (serverMachine H G alive).Follows KeepsCommands m₁ ls := by
      refine and_congr_right fun _ => ⟨fun hall => hall m₁ hstep, fun hrest m₂ hm₂ => ?_⟩
      cases hstep.symm.trans hm₂
      exact hrest
    rw [hfollows, ← hk₁, ← hk₂]
    omega

/-- Between two flushes the count is that of the buffers if and only if no buffer of a deleted
object was cleared; all commands are in `lifetime_commands`, and no flush subtracts more than is
counted. -/
theorem command_counts_iff (H : CommandHeader) (G : GodotTypes) (alive : ObjectID → Bool)
    {ls : List (Label κ H G)} (hrun : (serverMachine H G alive).exec { alive := alive } ls = some m)
    (hadded : m.added < 2 ^ 64) :
    (m.flush = none → (m.numCommands.toNat = outstanding m ↔
      (serverMachine H G alive).Follows KeepsCommands { alive := alive } ls)) ∧
    m.lifetimeCommands.toNat = m.added ∧
    ∀ f, m.flush = some f → f.place = .processed → f.processedCommands ≤ m.numCommands := by
  obtain ⟨dropped, h, hdropped⟩ := (counted_init (H := H) (G := G) alive).run hrun
  have hnum := h.numCommands hadded
  refine ⟨fun hidle => ?_, h.lifetimeCommands hadded, fun f hflush _ => ?_⟩
  · have hin := inHand_idle hidle
    rw [← hdropped]
    omega
  · have hin := inHand_flush hflush
    exact UInt64.le_iff_toNat_le.mpr (by omega)

/-- A buffer of two typed commands for the object 1. -/
def addTwo : Label Nat GodotCommandBuffer.byteHeader GodotCommandBuffer.byteTypes :=
  .addCommandBuffer 1 0
    ⟨.typed ⟨[⟨20, 4⟩, ⟨21, 1⟩], 0, 2⟩, Library.Blocks.isBoundary_zero _, rfl⟩

def executeTwo : List (Label Nat GodotCommandBuffer.byteHeader GodotCommandBuffer.byteTypes) :=
  [addTwo, .flushState false 100000000 1, .flush 2, .flush 3, .flush 4, .flush 5, .flush 6, .flush 7,
    .flush 8, .flush 9]

theorem command_counts_executeTwo : ∃ m,
    (serverMachine GodotCommandBuffer.byteHeader GodotCommandBuffer.byteTypes fun _ => true).exec
      { alive := fun _ => true } executeTwo = some m ∧ m.numCommands = 0 ∧
    m.lifetimeCommands.toNat = m.added ∧
    (serverMachine GodotCommandBuffer.byteHeader GodotCommandBuffer.byteTypes fun _ => true).Follows
      KeepsCommands { alive := fun _ => true } executeTwo := by
  obtain ⟨m, hm, hadded, hidle, hzero, hout⟩ : ∃ m,
      (serverMachine GodotCommandBuffer.byteHeader GodotCommandBuffer.byteTypes fun _ => true).exec
        { alive := fun _ => true } executeTwo = some m ∧ m.added = 2 ∧ m.flush = none ∧
        m.numCommands = 0 ∧ outstanding m = 0 := ⟨_, rfl, rfl, rfl, rfl, rfl⟩
  obtain ⟨hcounts, hlife, -⟩ := command_counts_iff GodotCommandBuffer.byteHeader
    GodotCommandBuffer.byteTypes (fun _ => true) hm
    (by rw [hadded]; decide)
  exact ⟨m, hm, hzero, hlife, (hcounts hidle).mp (by rw [hzero, hout]; rfl)⟩

/-- The object is deleted before the flush. -/
def deletedTwo : List (Label Nat GodotCommandBuffer.byteHeader GodotCommandBuffer.byteTypes) :=
  [addTwo, .deleteObject 1, .flushState false 100000000 1, .flush 2, .flush 3, .flush 4, .flush 5,
    .flush 6, .flush 7, .flush 8]

theorem counts_deletedTwo : ∃ m,
    (serverMachine GodotCommandBuffer.byteHeader GodotCommandBuffer.byteTypes fun _ => true).exec
      { alive := fun _ => true } deletedTwo = some m ∧ m.flush = none ∧ m.numCommands = 2 ∧
    outstanding m = 0 :=
  ⟨_, rfl, rfl, rfl, rfl⟩

end State
end CosmicArchitect.CommandServer
