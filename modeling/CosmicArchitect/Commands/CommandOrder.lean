import CosmicArchitect.Commands.CommandServer

/-!
# Commands are executed in order, exactly once

The commands that were added are those consumed, those that remain in the buffer in progress
and those in the queue, in this order, wherever a flush is stopped.
-/

namespace CosmicArchitect.Commands
namespace State
open Library

variable {κ : Type} {m m' : State κ} {f : Flush} {e : Entry κ}

/-- Where the flush is; without one, behind its last step. -/
def place (m : State κ) : FlushPlace := (m.flush.map Flush.place).getD .processed

/-- The address of the first command in the current buffer that is not yet consumed. -/
def position (buffer : TCommandBuffer κ) : FlushPlace → Nat
  | .commands _ bufferPos _ => bufferPos
  | _ => buffer.start

/-- The commands of an entry from an address on. -/
def remainingAt (e : Entry κ) (bufferPos : Nat) : List (Issued κ) :=
  (Blocks.behind Command.size e.buffer.data bufferPos).map (⟨e.objectId, ·⟩)

/-- The commands in the buffer in progress that are not yet consumed. -/
def inProgress (m : State κ) : List (Issued κ) :=
  if m.bufferInProgress then
    (m.currentBuffer.map fun e => remainingAt e (position e.buffer m.place)).getD []
  else []

/-- The commands in the queue. -/
def queued (m : State κ) : List (Issued κ) := m.commandBuffers.flatMap Entry.remaining

/-- The commands executed so far. -/
def executed (m : State κ) : List (Issued κ) :=
  (m.consumed.filter fun c => c.2 = .executed).map Prod.fst

/-- What each place of the flush knows about the current buffer. -/
def Fits (bufferInProgress : Bool) (currentBuffer : Option (Entry κ)) : FlushPlace → Prop
  | .time | .object _ => bufferInProgress = true ∧
    ∃ e, currentBuffer = some e ∧ e.buffer.WellFormed
  | .commands _ bufferPos numProcessed => bufferInProgress = true ∧
    ∃ e, currentBuffer = some e ∧ e.buffer.WellFormed ∧
      ∃ passed, e.buffer.At bufferPos passed ∧ passed.length = numProcessed
  | .numCommands => ∃ e, currentBuffer = some e ∧ e.buffer.WellFormed
  | .buffers | .flushed | .processed => bufferInProgress = true →
    ∃ e, currentBuffer = some e ∧ e.buffer.WellFormed

/-- The split of the commands added. -/
structure Ordered (m : State κ) : Prop where
  split : m.added = m.consumed.map Prod.fst ++ m.inProgress ++ m.queued
  queue : ∀ e ∈ m.commandBuffers, e.buffer.WellFormed
  fits : Fits m.bufferInProgress m.currentBuffer m.place
  dropped : ∀ c ∈ m.consumed, c.2 = .dropped → m.alive c.1.objectId = false

theorem ordered_init (alive : ObjectID → Bool) : Ordered ({ alive := alive } : State κ) where
  split := rfl
  queue _ h := by cases h
  fits h := by cases h
  dropped _ h := by cases h

theorem ordered_addCommandBuffer (h : Ordered m) (objectId : ObjectID) (now : Time)
    {buffer : TCommandBuffer κ} (hwf : buffer.WellFormed) :
    Ordered (m.addCommandBuffer objectId now buffer) := by
  rw [addCommandBuffer]
  split
  · exact h
  · refine ⟨?_, ?_, h.fits, h.dropped⟩
    · show m.added ++ _ = m.consumed.map Prod.fst ++ m.inProgress ++
        (m.commandBuffers ++ [_]).flatMap Entry.remaining
      rw [h.split, queued, List.flatMap_append, List.flatMap_singleton, List.append_assoc _ _
        (Entry.remaining _)]
    · intro e he
      rcases List.mem_append.mp he with he | he
      · exact h.queue e he
      · rw [List.mem_singleton.mp he]
        exact hwf

theorem ordered_deleteObject (h : Ordered m) (objectId : ObjectID) :
    Ordered { m with alive := fun o => o ≠ objectId && m.alive o } where
  split := h.split
  queue := h.queue
  fits := h.fits
  dropped c hc hd := by
    show (_ && m.alive c.1.objectId) = false
    rw [h.dropped c hc hd, Bool.and_false]

theorem ordered_goto (h : Ordered m) {place : FlushPlace}
    (hfits : Fits m.bufferInProgress m.currentBuffer place)
    (hposition : ∀ e, m.currentBuffer = some e →
      position e.buffer place = position e.buffer m.place) : Ordered (m.goto f place) := by
  refine ⟨?_, h.queue, hfits, h.dropped⟩
  have hsame : (m.goto f place).inProgress = m.inProgress := by
    show (if m.bufferInProgress then
      (m.currentBuffer.map fun e => remainingAt e (position e.buffer place)).getD [] else []) = _
    rw [inProgress]
    cases hcur : m.currentBuffer with
    | none => rfl
    | some e => rw [Option.map_some, Option.map_some, hposition e hcur]
  rw [hsame]
  exact h.split

theorem ordered_fetch (h : Ordered m) (hflush : m.flush = some f) (hplace : f.place = .buffers) :
    Ordered (m.fetch f) := by
  have hat : m.place = .buffers := by rw [place, hflush, Option.map_some, hplace]; rfl
  have hfits := h.fits
  rw [hat] at hfits
  rw [fetch]
  split
  · next hprogress =>
    exact ordered_goto h ⟨hprogress, hfits hprogress⟩ fun e _ => by rw [hat]; rfl
  · next hprogress =>
    split
    · refine ordered_goto h (fun hp => absurd hp hprogress) fun e _ => by rw [hat]; rfl
    · next e rest hbuffers =>
      have hwf := h.queue e (by rw [hbuffers]; exact List.mem_cons_self ..)
      refine ⟨?_, fun e' he' => ?_, ⟨rfl, e, rfl, hwf⟩, h.dropped⟩
      · have hsplit := h.split
        rw [inProgress, if_neg hprogress, queued, hbuffers, List.flatMap_cons, List.append_nil,
          ← List.append_assoc] at hsplit
        exact hsplit
      · exact h.queue e' (by rw [hbuffers]; exact List.mem_cons_of_mem _ he')

theorem ordered_checkTime (h : Ordered m) (hflush : m.flush = some f) (hplace : f.place = .time)
    (e : Entry κ) (now : Time) : Ordered (m.checkTime f e now) := by
  have hat : m.place = .time := by rw [place, hflush, Option.map_some, hplace]; rfl
  have hfits := h.fits
  rw [hat] at hfits
  rw [checkTime]
  split
  · exact ordered_goto h (fun _ => hfits.2) fun e _ => by rw [hat]; rfl
  · exact ordered_goto h hfits fun e _ => by rw [hat]; rfl

theorem ordered_lookupObject (h : Ordered m) (hflush : m.flush = some f) {iterCommands : Nat}
    (hplace : f.place = .object iterCommands) (hcur : m.currentBuffer = some e) :
    Ordered (m.lookupObject f e iterCommands) := by
  have hat : m.place = .object iterCommands := by rw [place, hflush, Option.map_some, hplace]; rfl
  obtain ⟨hprogress, e', hcur', hwf⟩ : Fits m.bufferInProgress m.currentBuffer
    (.object iterCommands) := by rw [← hat]; exact h.fits
  rw [hcur, Option.some_inj] at hcur'
  rw [← hcur'] at hwf
  rw [lookupObject]
  split
  · split
    · exact ordered_goto h ⟨e, hcur, hwf⟩ fun e _ => by rw [hat]; rfl
    · refine ordered_goto h ⟨hprogress, e, hcur, hwf, [], hwf.at_start, rfl⟩ fun e₁ he₁ => ?_
      rw [hcur, Option.some_inj] at he₁
      rw [hat, ← he₁]
      rfl
  · next hdead =>
    obtain ⟨-, hdead⟩ : f.objectOverride = false ∧ m.alive e.objectId = false := by
      rwa [Bool.or_eq_true, not_or, Bool.not_eq_true, Bool.not_eq_true] at hdead
    refine ⟨?_, h.queue, ⟨_, rfl, TCommandBuffer.wellFormed_empty⟩, ?_⟩
    · have hsplit := h.split
      rw [inProgress, if_pos hprogress, hcur, hat] at hsplit
      show m.added = (m.consumed ++ _).map Prod.fst ++ [] ++ m.queued
      rw [hsplit, List.append_nil, List.map_append, List.map_map, List.map_id'']
      · rfl
      · exact fun _ => rfl
    · intro c hc hd
      rcases List.mem_append.mp hc with hc | hc
      · exact h.dropped c hc hd
      · obtain ⟨i, hi, rfl⟩ := List.mem_map.mp hc
        obtain ⟨_, _, rfl⟩ := List.mem_map.mp hi
        exact hdead

theorem ordered_finishBatch (h : Ordered m) (hprogress : m.bufferInProgress = true)
    (hcur : m.currentBuffer = some e) (hwf : e.buffer.WellFormed) {bufferPos : Nat}
    {passed : List (Command κ)} (hpos : e.buffer.At bufferPos passed)
    (hplace : position e.buffer m.place = bufferPos) :
    Ordered (m.finishBatch f e bufferPos passed.length) := by
  obtain ⟨hwf', hremaining⟩ := hpos.processed hwf
  refine ⟨?_, h.queue, ⟨_, rfl, hwf'⟩, h.dropped⟩
  have hsplit := h.split
  rw [inProgress, if_pos hprogress, hcur, Option.map_some, hplace] at hsplit
  have hrest : (m.finishBatch f e bufferPos passed.length).inProgress =
      remainingAt e bufferPos := by
    rw [inProgress]
    show (if m.bufferInProgress then _ else _) = _
    rw [if_pos hprogress]
    exact congrArg (List.map _) hremaining
  rw [hrest]
  exact hsplit

theorem ordered_processCommand (h : Ordered m) (hflush : m.flush = some f)
    {max bufferPos numProcessed : Nat} (hplace : f.place = .commands max bufferPos numProcessed)
    (hcur : m.currentBuffer = some e)
    (hs : m.processCommand f e max bufferPos numProcessed = some m') : Ordered m' := by
  have hat : m.place = .commands max bufferPos numProcessed := by
    rw [place, hflush, Option.map_some, hplace]
    rfl
  obtain ⟨hprogress, e', hcur', hwf, passed, hpos, hlen⟩ : Fits m.bufferInProgress
    m.currentBuffer (.commands max bufferPos numProcessed) := by rw [← hat]; exact h.fits
  rw [hcur, Option.some_inj] at hcur'
  subst hcur' hlen
  rcases hpos.nextRound with ⟨hround, _⟩ | ⟨c, hround, hbehind, hnext⟩
  · rw [processCommand, hround] at hs
    cases hs
    exact ordered_finishBatch h hprogress hcur hwf hpos (by rw [hat]; rfl)
  · -- the command moves from the buffer in progress to the consumed ones
    have hmoved : Ordered
        ({ m with consumed := m.consumed ++ [(Issued.mk e.objectId c, Fate.executed)] }.goto f
          (.commands max (bufferPos + c.size) (passed.length + 1))) := by
      refine ⟨?_, h.queue, ⟨hprogress, e, hcur, hwf, passed ++ [c], hnext, ?_⟩, ?_⟩
      · have hsplit := h.split
        have hfirst : remainingAt e bufferPos =
            Issued.mk e.objectId c :: remainingAt e (bufferPos + c.size) := by
          rw [remainingAt, hbehind, List.map_cons]
          rfl
        rw [inProgress, if_pos hprogress, hcur, hat] at hsplit
        rw [inProgress]
        show m.added = (m.consumed ++ [_]).map Prod.fst ++ (if m.bufferInProgress then
          (m.currentBuffer.map fun e => remainingAt e (bufferPos + c.size)).getD [] else []) ++
            m.queued
        rw [if_pos hprogress, hcur, hsplit, List.map_append]
        show _ ++ remainingAt e bufferPos ++ _ = _ ++ [_] ++ remainingAt e _ ++ _
        rw [hfirst, List.append_assoc _ [_]]
        rfl
      · exact List.length_append
      · intro c' hc hd
        rcases List.mem_append.mp hc with hc | hc
        · exact h.dropped c' hc hd
        · rw [List.mem_singleton.mp hc] at hd
          cases hd
    rw [processCommand, hround, Option.map_some] at hs
    simp only at hs
    split at hs
    · cases hs
      have hfinish := ordered_finishBatch (f := f) hmoved hprogress hcur hwf hnext rfl
      rw [List.length_append] at hfinish
      exact hfinish
    · cases hs
      exact hmoved

/-- The check behind a batch (lines 189-193). -/
theorem ordered_numCommands (h : Ordered m) (hflush : m.flush = some f)
    (hplace : f.place = .numCommands) (hcur : m.currentBuffer = some e) :
    Ordered ({ m with
      bufferInProgress := if e.buffer.numCommands = 0 then false else m.bufferInProgress }.goto
        f .buffers) := by
  have hat : m.place = .numCommands := by rw [place, hflush, Option.map_some, hplace]; rfl
  obtain ⟨e', hcur', hwf⟩ : Fits m.bufferInProgress m.currentBuffer .numCommands := by
    rw [← hat]
    exact h.fits
  rw [hcur, Option.some_inj] at hcur'
  subst hcur'
  refine ⟨?_, h.queue, fun _ => ⟨e, hcur, hwf⟩, h.dropped⟩
  have hsplit := h.split
  rw [inProgress, hcur, hat] at hsplit
  rw [inProgress]
  show m.added = _ ++ (if (if e.buffer.numCommands = 0 then false else m.bufferInProgress) = true
    then (m.currentBuffer.map fun e => e.remaining).getD [] else []) ++ m.queued
  by_cases hzero : e.buffer.numCommands = 0
  · -- a finished buffer has no commands left
    have hnil : e.remaining = [] := by
      rw [hwf.numCommands] at hzero
      rw [Entry.remaining, List.eq_nil_of_length_eq_zero hzero]
      rfl
    have hempty : (if m.bufferInProgress = true then e.remaining else []) = [] := by
      rw [hnil, ite_self]
    rw [if_pos hzero, if_neg Bool.false_ne_true]
    exact hsplit.trans (congrArg (m.consumed.map Prod.fst ++ · ++ m.queued) hempty)
  · rw [if_neg hzero, hcur]
    exact hsplit

theorem ordered_flushNext (h : Ordered m) (hflush : m.flush = some f) {now : Time}
    (hs : m.flushNext f now = some m') : Ordered m' := by
  rw [flushNext] at hs
  split at hs
  · next hplace =>
    cases hs
    exact ordered_fetch h hflush hplace
  · next hplace =>
    obtain ⟨e, _, rfl⟩ := Option.map_eq_some_iff.mp hs
    exact ordered_checkTime h hflush hplace e now
  · next hplace =>
    obtain ⟨e, hcur, rfl⟩ := Option.map_eq_some_iff.mp hs
    exact ordered_lookupObject h hflush hplace hcur
  · next hplace =>
    obtain ⟨e, hcur, hs⟩ := Option.bind_eq_some_iff.mp hs
    exact ordered_processCommand h hflush hplace hcur hs
  · next hplace =>
    obtain ⟨e, hcur, rfl⟩ := Option.map_eq_some_iff.mp hs
    exact ordered_numCommands h hflush hplace hcur
  · next hplace =>
    cases hs
    have hat : m.place = .flushed := by rw [place, hflush, Option.map_some, hplace]; rfl
    have hfits := h.fits
    have hsplit := h.split
    rw [hat] at hfits
    rw [inProgress, hat] at hsplit
    exact ⟨hsplit, h.queue, hfits, h.dropped⟩
  · next hplace =>
    cases hs
    have hat : m.place = .processed := by rw [place, hflush, Option.map_some, hplace]; rfl
    have hfits := h.fits
    have hsplit := h.split
    rw [hat] at hfits
    rw [inProgress, hat] at hsplit
    exact ⟨hsplit, h.queue, hfits, h.dropped⟩

theorem ordered_flushState (h : Ordered m) {objectOverride : Bool} {maxFlushTime now : Time}
    (hs : m.flushState objectOverride maxFlushTime now = some m') : Ordered m' := by
  rw [flushState] at hs
  split at hs
  · cases hs
    exact h
  · obtain ⟨hnone, ⟨⟩⟩ := Option.ite_none_right_eq_some.mp hs
    have hat : m.place = .processed := by rw [place, hnone]; rfl
    have hfits := h.fits
    have hsplit := h.split
    rw [hat] at hfits
    rw [inProgress, hat] at hsplit
    exact ⟨hsplit, h.queue, hfits, h.dropped⟩

theorem ordered_step {l : Label κ} (h : Ordered m) (hs : step m l = some m') : Ordered m' := by
  cases l with
  | addCommandBuffer objectId now buffer =>
    cases hs
    exact ordered_addCommandBuffer h objectId now buffer.2
  | flushState objectOverride maxFlushTime now => exact ordered_flushState h hs
  | flush now =>
    obtain ⟨f, hflush, hs⟩ := Option.bind_eq_some_iff.mp hs
    exact ordered_flushNext h hflush hs
  | deleteObject objectId =>
    cases hs
    exact ordered_deleteObject h objectId

theorem ordered_reachable {alive : ObjectID → Bool} (h : (serverMachine alive).Reachable m) :
    Ordered m := by
  refine h.invariant (I := Ordered) (fun s hi => ?_) fun _ _ _ _ ih _ hs => ordered_step ih hs
  rw [show s = _ from hi]
  exact ordered_init alive

/-! ### What is added -/

/-- A buffer without commands adds none, although the server forgets it. -/
theorem added_addCommandBuffer (objectId : ObjectID) {now : Time} {buffer : TCommandBuffer κ}
    (hwf : buffer.WellFormed) : (m.addCommandBuffer objectId now buffer).added =
      m.added ++ Entry.remaining ⟨objectId, now, buffer⟩ := by
  unfold addCommandBuffer
  split
  · next hzero =>
    rw [hwf.numCommands, List.length_eq_zero_iff] at hzero
    rw [Entry.remaining, hzero, List.map_nil, List.append_nil]
  · rfl

theorem added_flushState {objectOverride : Bool} {maxFlushTime now : Time}
    (hs : m.flushState objectOverride maxFlushTime now = some m') : m'.added = m.added := by
  rw [flushState] at hs
  split at hs
  · cases hs
    rfl
  · obtain ⟨-, heq⟩ := Option.ite_none_right_eq_some.mp hs
    cases heq
    rfl

theorem added_flushNext {now : Time} (hs : m.flushNext f now = some m') : m'.added = m.added := by
  rw [flushNext] at hs
  split at hs
  · cases hs
    unfold fetch
    split
    · rfl
    · split <;> rfl
  · obtain ⟨e, -, rfl⟩ := Option.map_eq_some_iff.mp hs
    unfold checkTime
    dsimp only
    split <;> rfl
  · obtain ⟨e, -, rfl⟩ := Option.map_eq_some_iff.mp hs
    unfold lookupObject
    split
    · split <;> rfl
    · rfl
  · obtain ⟨e, -, hs⟩ := Option.bind_eq_some_iff.mp hs
    obtain ⟨round, -, rfl⟩ := Option.map_eq_some_iff.mp hs
    cases round with
    | bufferEnd => rfl
    | command c bufferPos =>
      dsimp only
      split <;> rfl
  · obtain ⟨e, -, rfl⟩ := Option.map_eq_some_iff.mp hs
    rfl
  · cases hs
    rfl
  · cases hs
    rfl

/-! ### The flush keeps the order of the commands -/

/-- Each command added is in one place, in the order in which they were added. -/
structure InOrder (m : State κ) : Prop where
  split : m.added = m.consumed.map Prod.fst ++ m.inProgress ++ m.queued
  executed : m.executed.Sublist m.added
  dropped : ∀ c ∈ m.consumed, c.2 = .dropped → m.alive c.1.objectId = false
  enabled : m.flush.isSome → ∀ now, (m.step (.flush now)).isSome

/-- The flush can always go on: it reads no command outside of the buffer. -/
theorem flush_enabled (h : Ordered m) (hflush : m.flush.isSome) (now : Time) :
    (m.step (.flush now)).isSome := by
  obtain ⟨f, hf⟩ := Option.isSome_iff_exists.mp hflush
  have hfits := h.fits
  rw [place, hf, Option.map_some, Option.getD_some] at hfits
  rw [step, hf, Option.bind_some, flushNext]
  split
  · rfl
  · next hplace =>
    rw [hplace] at hfits
    obtain ⟨-, e, hcur, -⟩ := hfits
    rw [hcur]
    rfl
  · next hplace =>
    rw [hplace] at hfits
    obtain ⟨-, e, hcur, -⟩ := hfits
    rw [hcur]
    rfl
  · next hplace =>
    rw [hplace] at hfits
    obtain ⟨-, e, hcur, -, passed, hpos, -⟩ := hfits
    rw [hcur, Option.bind_some, processCommand, Option.isSome_map]
    rcases hpos.nextRound with ⟨hround, -⟩ | ⟨c, hround, -⟩ <;> rw [hround] <;> rfl
  · next hplace =>
    rw [hplace] at hfits
    obtain ⟨e, hcur, -⟩ := hfits
    rw [hcur]
    rfl
  · rfl
  · rfl

/-- Commands are executed in the order in which they were added, each at most once, and only
those of deleted objects are dropped. -/
theorem commands_inOrder (alive : ObjectID → Bool) (m : State κ)
    (h : (serverMachine alive).Reachable m) : InOrder m := by
  have ho := ordered_reachable h
  refine ⟨ho.split, ?_, ho.dropped, flush_enabled ho⟩
  rw [ho.split, List.append_assoc]
  exact (List.filter_sublist.map Prod.fst).trans (List.sublist_append_left ..)

/-- A buffer of two commands for a living object and one for an object that is deleted. -/
def flushRun : List (Label Nat) :=
  [.addCommandBuffer 1 0
      ⟨⟨[⟨10, 4⟩, ⟨11, 1⟩], 0, 2⟩, Blocks.isBoundary_zero _, rfl⟩,
    .addCommandBuffer 2 0 ⟨⟨[⟨12, 1⟩], 0, 1⟩, Blocks.isBoundary_zero _, rfl⟩,
    .flushState false 100000000 1, .flush 2, .flush 3, .flush 4, .flush 5, .deleteObject 2,
    .flushState false 100000000 6, .flush 7, .flush 8, .flush 9, .flush 10, .flush 11, .flush 12]

theorem flushRun_executes : ((serverMachine fun _ => true).exec
    { alive := fun _ => true } flushRun).map (fun m => m.executed.length) = some 2 := by
  decide +kernel

theorem commands_inOrder_flushRun : ∃ m, (serverMachine fun _ => true).exec
    { alive := fun _ => true } flushRun = some m ∧ InOrder m := by
  obtain ⟨m, hm, -⟩ := Option.map_eq_some_iff.mp flushRun_executes
  exact ⟨m, hm, commands_inOrder (fun _ => true) m (Machine.reachable_of_exec rfl hm)⟩

end State
end CosmicArchitect.Commands
