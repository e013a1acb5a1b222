import CosmicArchitect.Library.Blocks

/-!
# The typed command buffer (Commands/TypedCommandBuffer.cpp)

`m_data` holds the commands one behind the other, each as the pointer to its function and the
tuple of its arguments. The function of a command knows the size of the tuple.
-/

namespace CosmicArchitect.Commands
open Library

variable {κ : Type}

/-- A command in the buffer: the call it makes and the size of its `ArgStorage`. -/
structure Command (κ : Type) where
  call : κ
  argStorage : Nat
deriving DecidableEq, Repr

/-- The size of the pointer and of the arguments. -/
def Command.size (c : Command κ) : Nat := 8 + c.argStorage

theorem Command.size_pos (c : Command κ) : 0 < c.size := by
  rw [Command.size]
  omega

/-- `TCommandBufferBase` -/
structure TCommandBuffer (κ : Type) where
  data : List (Command κ) := []
  start : Nat := 0
  numCommands : Nat := 0
deriving DecidableEq, Repr

namespace TCommandBuffer

def addCommand (b : TCommandBuffer κ) (c : Command κ) : TCommandBuffer κ :=
  { b with data := b.data ++ [c], numCommands := b.numCommands + 1 }

/-- `Clear` after the arguments of the remaining commands were destroyed. -/
def clear (_ : TCommandBuffer κ) : TCommandBuffer κ := {}

/-- What a round of the loop of `ProcessCommandsUntyped` meets at `buffer_pos`. -/
inductive Round (κ : Type)
  | bufferEnd
  | command (c : Command κ) (bufferPos : Nat)

/-- `none` when `buffer_pos` is not at a command. -/
def nextRound (b : TCommandBuffer κ) (bufferPos : Nat) : Option (Round κ) :=
  if bufferPos = Blocks.bytes Command.size b.data then some .bufferEnd
  else (Blocks.blockAt Command.size b.data bufferPos).map fun c =>
    .command c (bufferPos + c.size)

/-- Behind the loop of `ProcessCommandsUntyped` (lines 73-75). -/
def processed (b : TCommandBuffer κ) (bufferPos numProcessed : Nat) : TCommandBuffer κ :=
  { b with
    start := b.start + (bufferPos - b.start)
    numCommands := b.numCommands - numProcessed }

def remaining (b : TCommandBuffer κ) : List (Command κ) :=
  Blocks.behind Command.size b.data b.start

/-- `m_start` is at a command or at the end, and `m_num_commands` follow. -/
structure WellFormed (b : TCommandBuffer κ) : Prop where
  boundary : Blocks.IsBoundary Command.size b.data b.start
  numCommands : b.numCommands = b.remaining.length

theorem wellFormed_empty : WellFormed ({} : TCommandBuffer κ) :=
  ⟨Blocks.isBoundary_zero [], rfl⟩

theorem WellFormed.addCommand {b : TCommandBuffer κ} (h : b.WellFormed) (c : Command κ) :
    (b.addCommand c).WellFormed ∧ (b.addCommand c).remaining = b.remaining ++ [c] := by
  obtain ⟨l₁, l₂, hdata, hstart⟩ := h.boundary
  have hsplit : (b.addCommand c).data = l₁ ++ (l₂ ++ [c]) := by
    rw [TCommandBuffer.addCommand, hdata, List.append_assoc]
  have hremaining : (b.addCommand c).remaining = b.remaining ++ [c] := by
    rw [remaining, remaining, hsplit, hdata]
    show Blocks.behind _ _ b.start = _
    rw [← hstart, Blocks.behind_append Command.size_pos, Blocks.behind_append Command.size_pos]
  refine ⟨⟨⟨l₁, l₂ ++ [c], hsplit, hstart⟩, ?_⟩, hremaining⟩
  rw [hremaining, List.length_append, ← h.numCommands]
  rfl

/-- The loop stands at `bufferPos`, after the `passed` commands from `m_start` on. -/
structure At (b : TCommandBuffer κ) (bufferPos : Nat) (passed : List (Command κ)) : Prop where
  boundary : Blocks.IsBoundary Command.size b.data bufferPos
  le : b.start ≤ bufferPos
  split : b.remaining = passed ++ Blocks.behind Command.size b.data bufferPos

theorem WellFormed.at_start {b : TCommandBuffer κ} (h : b.WellFormed) : b.At b.start [] :=
  ⟨h.boundary, Nat.le_refl _, rfl⟩

/-- A round meets the end of the buffer exactly when nothing remains, else the first of the
commands that remain. -/
theorem At.nextRound {b : TCommandBuffer κ} {bufferPos : Nat} {passed : List (Command κ)}
    (h : b.At bufferPos passed) :
    (b.nextRound bufferPos = some .bufferEnd ∧
      Blocks.behind Command.size b.data bufferPos = []) ∨
    ∃ c, b.nextRound bufferPos = some (.command c (bufferPos + c.size)) ∧
      Blocks.behind Command.size b.data bufferPos =
        c :: Blocks.behind Command.size b.data (bufferPos + c.size) ∧
      b.At (bufferPos + c.size) (passed ++ [c]) := by
  rcases h.boundary.cases Command.size_pos with ⟨hend, hbehind⟩ | ⟨c, hne, hblock, hbehind, hnext⟩
  · exact Or.inl ⟨by rw [TCommandBuffer.nextRound, if_pos hend], hbehind⟩
  · refine Or.inr ⟨c, ?_, hbehind, hnext, Nat.le_trans h.le (Nat.le_add_right ..), ?_⟩
    · rw [TCommandBuffer.nextRound, if_neg hne, hblock, Option.map_some]
    · rw [h.split, hbehind, List.append_assoc, List.singleton_append]

theorem At.processed {b : TCommandBuffer κ} {bufferPos : Nat} {passed : List (Command κ)}
    (h : b.At bufferPos passed) (hwf : b.WellFormed) :
    (b.processed bufferPos passed.length).WellFormed ∧
      (b.processed bufferPos passed.length).remaining =
        Blocks.behind Command.size b.data bufferPos := by
  have hstart : b.start + (bufferPos - b.start) = bufferPos := Nat.add_sub_cancel' h.le
  have hremaining : (b.processed bufferPos passed.length).remaining =
      Blocks.behind Command.size b.data bufferPos := by
    rw [remaining, TCommandBuffer.processed, hstart]
  refine ⟨⟨?_, ?_⟩, hremaining⟩
  · rw [TCommandBuffer.processed, hstart]
    exact h.boundary
  · rw [hremaining]
    show b.numCommands - passed.length = _
    rw [hwf.numCommands, h.split, List.length_append, Nat.add_sub_cancel_left]

end TCommandBuffer
end CosmicArchitect.Commands
