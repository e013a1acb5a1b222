import CosmicArchitect.Commands.TypedCommandBuffer

/-!
# Typed commands in batches (Commands/TypedCommandBuffer.cpp)

Both walks over a buffer, the one that executes the commands and the one of `Clear` that only
destroys their arguments. A buffer is filled, then processed in batches and moved, and cleared
at the end.
-/

namespace CosmicArchitect.Commands
open Library

variable {κ : Type}

/-- What becomes of a command: its method is called, its arguments are destroyed. -/
inductive Event (κ : Type)
  | call (c : Command κ)
  | destroy (c : Command κ)
deriving DecidableEq, Repr

def Command.read (c : Command κ) (execute : Bool) : List (Event κ) :=
  (if execute then [.call c] else []) ++ [.destroy c]

namespace TCommandBuffer

/-- `ProcessCommand`: the position behind the command; `none` when no command starts there. -/
def processCommand (b : TCommandBuffer κ) (bufferPos : Nat) (execute : Bool) :
    Option (Nat × List (Event κ)) :=
  (Blocks.blockAt Command.size b.data bufferPos).map fun c =>
    (bufferPos + c.size, c.read execute)

/-- The loop of `ProcessCommandsUntyped`; `turns` bounds its turns. -/
def processLoop (b : TCommandBuffer κ) (max : Nat) :
    Nat → Nat → Nat → List (Event κ) → Option (Nat × Nat × List (Event κ))
  | 0, _, _, _ => none
  | turns + 1, bufferPos, numProcessed, log =>
    if bufferPos = Blocks.bytes Command.size b.data then some (bufferPos, numProcessed, log)
    else
      (b.processCommand bufferPos true).bind fun (bufferPos, events) =>
        if numProcessed + 1 = max then some (bufferPos, numProcessed + 1, log ++ events)
        else b.processLoop max turns bufferPos (numProcessed + 1) (log ++ events)

/-- `ProcessCommandsUntyped`: the buffer behind it, the number of commands processed and what
happened to them. -/
def processCommandsUntyped (b : TCommandBuffer κ) (max : Nat) :
    Option (TCommandBuffer κ × Nat × List (Event κ)) :=
  if b.numCommands = 0 then some (b, 0, [])
  else
    (b.processLoop max (b.data.length + 1) b.start 0 []).map fun (bufferPos, numProcessed, log) =>
      (b.processed bufferPos numProcessed, numProcessed, log)

def clearLoop (b : TCommandBuffer κ) : Nat → Nat → List (Event κ) → Option (List (Event κ))
  | 0, _, _ => none
  | turns + 1, bufferPos, log =>
    if bufferPos = Blocks.bytes Command.size b.data then some log
    else
      (b.processCommand bufferPos false).bind fun (bufferPos, events) =>
        b.clearLoop turns bufferPos (log ++ events)

/-- `Clear` with what it destroys. -/
def clearCommands (b : TCommandBuffer κ) : Option (TCommandBuffer κ × List (Event κ)) :=
  (b.clearLoop (b.data.length + 1) b.start []).map fun log => (b.clear, log)

/-- `operator=`: the two buffers behind it and what the target's `Clear` destroys. The vector
moved from is empty. -/
def moveAssign (target other : TCommandBuffer κ) :
    Option (TCommandBuffer κ × TCommandBuffer κ × List (Event κ)) :=
  target.clearCommands.map fun (_, log) =>
    ({ data := other.data, start := other.start, numCommands := other.numCommands }, {}, log)

def executed (l : List (Command κ)) : List (Event κ) := l.flatMap fun c => c.read true

/-- The events of commands that are only destroyed. -/
def destroyed (l : List (Command κ)) : List (Event κ) := l.flatMap fun c => c.read false

theorem executed_append (l l' : List (Command κ)) :
    executed (l ++ l') = executed l ++ executed l' := List.flatMap_append

theorem At.processCommand {b : TCommandBuffer κ} {bufferPos : Nat} {passed : List (Command κ)}
    (h : b.At bufferPos passed) :
    (bufferPos = Blocks.bytes Command.size b.data ∧
      Blocks.behind Command.size b.data bufferPos = []) ∨
    ∃ c, bufferPos ≠ Blocks.bytes Command.size b.data ∧
      (∀ execute, b.processCommand bufferPos execute =
        some (bufferPos + c.size, c.read execute)) ∧
      Blocks.behind Command.size b.data bufferPos =
        c :: Blocks.behind Command.size b.data (bufferPos + c.size) ∧
      b.At (bufferPos + c.size) (passed ++ [c]) := by
  rcases h.boundary.cases Command.size_pos with ⟨hend, hbehind⟩ | ⟨c, hne, hblock, hbehind, hnext⟩
  · exact Or.inl ⟨hend, hbehind⟩
  · refine Or.inr ⟨c, hne, fun execute => ?_, hbehind, hnext,
      Nat.le_trans h.le (Nat.le_add_right ..), ?_⟩
    · rw [TCommandBuffer.processCommand, hblock, Option.map_some]
    · rw [h.split, hbehind, List.append_assoc, List.singleton_append]

/-- The number of commands a batch takes of those that remain. -/
def batch (max remaining : Nat) : Nat := if max = 0 then remaining else min max remaining

theorem processLoop_spec {b : TCommandBuffer κ} (max : Nat) : ∀ (turns bufferPos : Nat)
    (passed : List (Command κ)) (log : List (Event κ)), b.At bufferPos passed →
    (Blocks.behind Command.size b.data bufferPos).length < turns →
    max = 0 ∨ passed.length < max →
    ∃ bufferPos' taken rest,
      Blocks.behind Command.size b.data bufferPos = taken ++ rest ∧
      (max = 0 → rest = []) ∧ (max ≠ 0 → taken.length = min (max - passed.length)
        (Blocks.behind Command.size b.data bufferPos).length) ∧
      b.processLoop max turns bufferPos passed.length log =
        some (bufferPos', (passed ++ taken).length, log ++ executed taken) ∧
      b.At bufferPos' (passed ++ taken) := by
  intro turns
  induction turns with
  | zero =>
    intro bufferPos passed log _ hlt
    exact absurd hlt (Nat.not_lt_zero _)
  | succ turns ih =>
    intro bufferPos passed log h hlt hmax
    rcases h.processCommand with ⟨hend, hbehind⟩ | ⟨c, hne, hcommand, hbehind, hnext⟩
    · refine ⟨bufferPos, [], [], hbehind, fun _ => rfl, fun _ => ?_, ?_, ?_⟩
      · rw [hbehind, List.length_nil, Nat.min_zero]
      · rw [processLoop, if_pos hend, List.append_nil]
        simp only [executed, List.flatMap_nil, List.append_nil]
      · rwa [List.append_nil]
    · rw [hbehind, List.length_cons] at hlt
      have hlength : (passed ++ [c]).length = passed.length + 1 := List.length_append
      by_cases hstop : passed.length + 1 = max
      · refine ⟨_, [c], _, hbehind, fun h0 => by omega, fun _ => ?_, ?_, hnext⟩
        · rw [hbehind]
          simp only [List.length_cons, List.length_nil]
          omega
        · simp only [processLoop, if_neg hne, hcommand, Option.bind_some, if_pos hstop, hlength,
            executed, List.flatMap_cons, List.flatMap_nil, List.append_nil]
      · obtain ⟨bufferPos', taken, rest, hrest, hall, hlimit, hloop, hat⟩ :=
          ih _ _ (log ++ c.read true) hnext (by omega) (by omega)
        rw [hlength] at hlimit hloop
        refine ⟨bufferPos', c :: taken, rest, ?_, hall, fun h0 => ?_, ?_, ?_⟩
        · rw [hbehind, hrest, List.cons_append]
        · rw [hbehind, List.length_cons, List.length_cons, hlimit h0]
          omega
        · simp only [processLoop, if_neg hne, hcommand, Option.bind_some, if_neg hstop]
          rw [hloop, List.append_cons passed c taken, List.append_assoc log]
          rfl
        · rwa [List.append_cons passed c taken]

theorem clearLoop_spec {b : TCommandBuffer κ} : ∀ (turns bufferPos : Nat)
    (passed : List (Command κ)) (log : List (Event κ)), b.At bufferPos passed →
    (Blocks.behind Command.size b.data bufferPos).length < turns →
    b.clearLoop turns bufferPos log =
      some (log ++ destroyed (Blocks.behind Command.size b.data bufferPos)) := by
  intro turns
  induction turns with
  | zero =>
    intro bufferPos passed log _ hlt
    exact absurd hlt (Nat.not_lt_zero _)
  | succ turns ih =>
    intro bufferPos passed log h hlt
    rcases h.processCommand with ⟨hend, hbehind⟩ | ⟨c, hne, hcommand, hbehind, hnext⟩
    · rw [clearLoop, if_pos hend, hbehind]
      simp only [destroyed, List.flatMap_nil, List.append_nil]
    · rw [hbehind, List.length_cons] at hlt
      simp only [clearLoop, if_neg hne, hcommand, Option.bind_some]
      rw [ih _ _ _ hnext (by omega), hbehind, List.append_assoc]
      rfl

theorem remaining_length_le (b : TCommandBuffer κ) : b.remaining.length ≤ b.data.length :=
  Blocks.behind_length_le b.data b.start

theorem WellFormed.processCommandsUntyped {b : TCommandBuffer κ} (h : b.WellFormed)
    (max : Nat) : ∃ b' taken, b.remaining = taken ++ b'.remaining ∧
      taken.length = batch max b.remaining.length ∧
      b.processCommandsUntyped max = some (b', taken.length, executed taken) ∧
      b'.WellFormed ∧ b'.data = b.data := by
  by_cases hnone : b.numCommands = 0
  · have hlength : b.remaining.length = 0 := h.numCommands.symm.trans hnone
    refine ⟨b, [], rfl, ?_, ?_, h, rfl⟩
    · rw [hlength, batch]
      split
      · rfl
      · rw [Nat.min_zero, List.length_nil]
    · rw [TCommandBuffer.processCommandsUntyped, if_pos hnone]
      rfl
  · obtain ⟨bufferPos, taken, rest, hsplit, hall, hlimit, hloop, hat⟩ :=
      processLoop_spec max (b.data.length + 1) b.start [] [] h.at_start
        (Nat.lt_succ_of_le b.remaining_length_le) (Nat.eq_zero_or_pos max)
    rw [List.nil_append] at hat
    obtain ⟨hwf, hremaining⟩ := hat.processed h
    refine ⟨_, taken, ?_, ?_, ?_, hwf, rfl⟩
    · rw [hremaining]
      exact hat.split
    · have hlength : b.remaining.length = taken.length + rest.length := by
        rw [remaining, hsplit, List.length_append]
      unfold batch
      split
      next h0 =>
        rw [hlength, hall h0]
        rfl
      next h0 =>
        rw [hlimit h0]
        rfl
    · rw [TCommandBuffer.processCommandsUntyped, if_neg hnone]
      show Option.map _ (b.processLoop max (b.data.length + 1) b.start 0 []) = _
      rw [show (0 : Nat) = ([] : List (Command κ)).length from rfl, hloop]
      rfl

theorem WellFormed.clearCommands {b : TCommandBuffer κ} (h : b.WellFormed) :
    b.clearCommands = some ({}, destroyed b.remaining) := by
  rw [TCommandBuffer.clearCommands, clearLoop_spec _ _ _ _ h.at_start
    (Nat.lt_succ_of_le b.remaining_length_le), Option.map_some, List.nil_append]
  rfl

theorem WellFormed.moveAssign {target : TCommandBuffer κ} (h : target.WellFormed)
    (other : TCommandBuffer κ) :
    target.moveAssign other = some (other, {}, destroyed target.remaining) := by
  rw [TCommandBuffer.moveAssign, h.clearCommands]
  rfl

theorem WellFormed.numCommands_eq_zero {b : TCommandBuffer κ} (h : b.WellFormed) :
    b.numCommands = 0 ↔ b.start = Blocks.bytes Command.size b.data := by
  rw [h.numCommands, List.length_eq_zero_iff]
  rcases h.boundary.cases Command.size_pos with ⟨hend, hbehind⟩ | ⟨c, hne, _, hbehind, _⟩
  · exact ⟨fun _ => hend, fun _ => hbehind⟩
  · refine ⟨fun hnil => ?_, fun hend => absurd hend hne⟩
    rw [remaining, hbehind] at hnil
    exact absurd hnil (List.cons_ne_nil _ _)

end TCommandBuffer

/-! ### A buffer over its life -/

open TCommandBuffer

/-- What is done with a filled buffer: a batch of commands, or a move to another buffer, which
drops what that one holds; the buffer moved from is destroyed. -/
inductive BufferOp (κ : Type)
  | processCommands (max : Nat)
  | move (target : { b : TCommandBuffer κ // b.WellFormed })

/-- The buffer, what happened to its commands, and what the targets of moves dropped. -/
structure BufferLife (κ : Type) where
  buffer : TCommandBuffer κ
  log : List (Event κ) := []
  dropped : List (Event κ) := []

namespace BufferLife

def op (s : BufferLife κ) : BufferOp κ → Option (BufferLife κ)
  | .processCommands max =>
    (s.buffer.processCommandsUntyped max).map fun (buffer, _, events) =>
      { s with buffer := buffer, log := s.log ++ events }
  | .move target =>
    (target.1.moveAssign s.buffer).bind fun (buffer, moved, events) =>
      moved.clearCommands.map fun (_, destroyed) =>
        { s with buffer := buffer, log := s.log ++ destroyed, dropped := s.dropped ++ events }

def run : BufferLife κ → List (BufferOp κ) → Option (BufferLife κ)
  | s, [] => some s
  | s, o :: ops => (s.op o).bind fun s' => s'.run ops

def filled (added : List (Command κ)) : BufferLife κ where
  buffer := added.foldl TCommandBuffer.addCommand {}

/-- The number of commands executed behind an operation. -/
def executedCount (added : Nat) (count : Nat) : BufferOp κ → Nat
  | .processCommands max => count + batch max (added - count)
  | .move _ => count

/-- The first `count` of the added commands are executed, each with its own arguments, which
are destroyed behind the call; the others remain. -/
structure Executed (added : List (Command κ)) (count : Nat) (s : BufferLife κ) : Prop where
  wellFormed : s.buffer.WellFormed
  le : count ≤ added.length
  log : s.log = executed (added.take count)
  remaining : s.buffer.remaining = added.drop count

theorem filled_executed (added : List (Command κ)) : Executed added 0 (filled added) := by
  have hfill : ∀ (l : List (Command κ)) (b : TCommandBuffer κ), b.WellFormed →
      (l.foldl TCommandBuffer.addCommand b).WellFormed ∧
      (l.foldl TCommandBuffer.addCommand b).remaining = b.remaining ++ l := by
    intro l
    induction l with
    | nil => exact fun b hb => ⟨hb, (List.append_nil _).symm⟩
    | cons c l ih =>
      intro b hb
      obtain ⟨hwf, hremaining⟩ := hb.addCommand c
      obtain ⟨hwf', hremaining'⟩ := ih _ hwf
      exact ⟨hwf', by rw [List.foldl_cons, hremaining', hremaining, List.append_assoc]; rfl⟩
  obtain ⟨hwf, hremaining⟩ := hfill added {} wellFormed_empty
  exact ⟨hwf, Nat.zero_le _, rfl, hremaining⟩

theorem Executed.processCommands {added : List (Command κ)} {count : Nat} {s : BufferLife κ}
    (h : Executed added count s) (max : Nat) :
    ∃ s', s.op (.processCommands max) = some s' ∧ s'.dropped = s.dropped ∧
      Executed added (count + batch max (added.length - count)) s' := by
  obtain ⟨b, taken, hsplit, hlength, hprocess, hwf, _⟩ := h.wellFormed.processCommandsUntyped max
  rw [h.remaining] at hsplit hlength
  rw [List.length_drop] at hlength
  have hle := h.le
  have hbatch : batch max (added.length - count) ≤ added.length - count := by
    unfold batch
    split
    · exact Nat.le_refl _
    · exact Nat.min_le_right _ _
  have htaken : (added.drop count).take taken.length = taken := by
    rw [hsplit, List.take_left]
  have hrest : (added.drop count).drop taken.length = b.remaining := by
    rw [hsplit, List.drop_left]
  refine ⟨{ s with buffer := b, log := s.log ++ executed taken }, ?_, rfl, hwf, by omega, ?_, ?_⟩
  · rw [BufferLife.op, hprocess, Option.map_some]
  · rw [h.log, ← hlength, List.take_add, htaken, executed_append]
  · rw [← hlength, ← List.drop_drop, hrest]

theorem op_move (s : BufferLife κ) (target : { b : TCommandBuffer κ // b.WellFormed }) :
    s.op (.move target) = some { s with dropped := s.dropped ++ destroyed target.1.remaining } := by
  rw [BufferLife.op, target.2.moveAssign, Option.bind_some]
  show Option.map _ (TCommandBuffer.clearCommands {}) = _
  rw [wellFormed_empty.clearCommands, Option.map_some]
  show some { s with log := s.log ++ [], dropped := s.dropped ++ destroyed target.1.remaining } = _
  rw [List.append_nil]

/-- What an operation drops: the commands the target of a move held. -/
def drops : BufferOp κ → List (Event κ)
  | .processCommands _ => []
  | .move target => destroyed target.1.remaining

theorem Executed.run {added : List (Command κ)} (ops : List (BufferOp κ)) :
    ∀ {count : Nat} {s : BufferLife κ}, Executed added count s →
      ∃ s', s.run ops = some s' ∧ s'.dropped = s.dropped ++ ops.flatMap drops ∧
        Executed added (ops.foldl (executedCount added.length) count) s' := by
  induction ops with
  | nil =>
    intro count s h
    exact ⟨s, rfl, (List.append_nil _).symm, h⟩
  | cons o ops ih =>
    intro count s h
    cases o with
    | processCommands max =>
      obtain ⟨s', hop, hdropped, h'⟩ := h.processCommands max
      obtain ⟨t, hrun, ht, hfinal⟩ := ih h'
      refine ⟨t, ?_, ?_, hfinal⟩
      · rw [BufferLife.run, hop, Option.bind_some, hrun]
      · rw [ht, hdropped]
        rfl
    | move target =>
      obtain ⟨t, hrun, ht, hfinal⟩ := ih (s := { s with
        dropped := s.dropped ++ destroyed target.1.remaining })
        ⟨h.wellFormed, h.le, h.log, h.remaining⟩
      refine ⟨t, ?_, ?_, hfinal⟩
      · rw [BufferLife.run, op_move, Option.bind_some, hrun]
      · rw [ht, List.flatMap_cons, List.append_assoc]
        rfl

end BufferLife

def calls (log : List (Event κ)) : List (Command κ) :=
  log.filterMap fun
    | .call c => some c
    | .destroy _ => none

/-- The commands whose arguments are destroyed, in order. -/
def destructions (log : List (Event κ)) : List (Command κ) :=
  log.filterMap fun
    | .call _ => none
    | .destroy c => some c

theorem calls_executed (l : List (Command κ)) : calls (executed l) = l ∧
    destructions (executed l) = l := by
  induction l with
  | nil => exact ⟨rfl, rfl⟩
  | cons c l ih =>
    exact ⟨congrArg (c :: ·) ih.1, congrArg (c :: ·) ih.2⟩

theorem calls_destroyed (l : List (Command κ)) : calls (destroyed l) = [] ∧
    destructions (destroyed l) = l := by
  induction l with
  | nil => exact ⟨rfl, rfl⟩
  | cons c l ih => exact ⟨ih.1, congrArg (c :: ·) ih.2⟩

/-- However a filled buffer is processed and moved, the first of the added commands are
executed in order, as many as the limits of the batches allow; an unlimited pass executes all
of them. `NumCommands` counts the others, and `Clear` destroys the arguments of just these. -/
theorem batches_exact (added : List (Command κ)) (ops : List (BufferOp κ)) :
    ∃ s count, (BufferLife.filled added).run ops = some s ∧
      count = ops.foldl (BufferLife.executedCount added.length) 0 ∧
      s.log = executed (added.take count) ∧ calls s.log = added.take count ∧
      (∃ t, (BufferLife.filled added).run [.processCommands 0] = some t ∧
        t.log = executed added ∧ (s.buffer.numCommands = 0 → s.log = t.log)) ∧
      s.buffer.numCommands = (added.drop count).length ∧
      (s.buffer.numCommands = 0 ↔ s.buffer.start = Blocks.bytes Command.size s.buffer.data) ∧
      s.dropped = ops.flatMap BufferLife.drops ∧
      ∃ log, s.buffer.clearCommands = some ({}, log) ∧ log = destroyed (added.drop count) ∧
        destructions (s.log ++ log) = added := by
  obtain ⟨s, hrun, hdropped, h⟩ := (BufferLife.filled_executed added).run ops
  obtain ⟨t, htrun, _, ht⟩ := (BufferLife.filled_executed added).run [.processCommands 0]
  have hall : t.log = executed added := by
    rw [ht.log]
    show executed (added.take (0 + batch 0 (added.length - 0))) = _
    rw [batch, if_pos rfl, Nat.zero_add, Nat.sub_zero, List.take_length]
  have hcount : s.buffer.numCommands =
      (added.drop (ops.foldl (BufferLife.executedCount added.length) 0)).length := by
    rw [h.wellFormed.numCommands, h.remaining]
  refine ⟨s, _, hrun, rfl, h.log, ?_, ⟨t, htrun, hall, fun h0 => ?_⟩, hcount,
    h.wellFormed.numCommands_eq_zero, hdropped, _, h.wellFormed.clearCommands, ?_, ?_⟩
  · rw [h.log, (calls_executed _).1]
  · rw [hcount, List.length_drop] at h0
    rw [hall, h.log, List.take_of_length_le (by omega)]
  · rw [h.remaining]
  · have happend : ∀ l l' : List (Event κ),
        destructions (l ++ l') = destructions l ++ destructions l' :=
      fun l l' => List.filterMap_append
    rw [happend, h.log, h.remaining, (calls_executed _).2, (calls_destroyed _).2,
      List.take_append_drop]

end CosmicArchitect.Commands
