import CosmicArchitect.Commands.BatchedCommands
import CosmicArchitect.Commands.GodotCommands

/-!
# Command buffers of both kinds (Commands/CommandBufferEntry.h)

The server sees a buffer as a `CommandBufferEntryBase`, which holds typed commands or commands of
Godot. What a batch returns is what `NumCommands` decreases by.
-/

namespace CosmicArchitect.Commands

variable {κ : Type} {H : CommandHeader} {G : GodotTypes}

namespace GodotCommandBuffer

/-- `m_start` is at a command of those added, or at the end of the data, where commands with too
many arguments leave it. -/
def Valid (H : CommandHeader) (G : GodotTypes) (b : GodotCommandBuffer) : Prop :=
  b.start = b.data.length ∨ ∃ (l : List (Addition H G)) (count : Nat), Processed l count b

/-- The loop stops the process at a command without arguments. Else it counts no more than the
commands that follow, and stops behind those it counts or gives up at the last of them, which has
too many arguments. -/
theorem processLoop_counts (max : Nat) : ∀ (turns : Nat) (l l' : List (Addition H G))
    (numProcessed : Nat) (calls : List (Call H G)), l'.length < turns →
    (processLoop H G (filled (l ++ l')).data max turns (filled l).data.length numProcessed calls =
        none ∧ ∃ a ∈ l', a.args.length = 0) ∨
    ∃ bufferPos n calls', n ≤ l'.length ∧ (l' ≠ [] → 0 < n) ∧
      processLoop H G (filled (l ++ l')).data max turns (filled l).data.length numProcessed calls =
        some (bufferPos, numProcessed + n, calls') ∧
      (bufferPos = (filled (l ++ l'.take n)).data.length ∨
        bufferPos = (filled (l ++ l')).data.length ∧
          ∃ a ∈ (l'.take n).getLast?, ¬a.args.length ≤ 16) := by
  intro turns
  induction turns with
  | zero =>
    intro l l' numProcessed calls hlt
    omega
  | succ turns ih =>
    intro l l' numProcessed calls hlt
    cases l' with
    | nil =>
      refine Or.inr ⟨_, 0, calls, Nat.le_refl 0, fun h => absurd rfl h, ?_, Or.inl rfl⟩
      rw [processLoop, if_pos ((filled_end l []).mpr rfl), List.take_nil, List.append_nil]
      rfl
    | cons a l' =>
      have hne : ¬(filled l).data.length = (filled (l ++ a :: l')).data.length := fun h =>
        absurd ((filled_end l (a :: l')).mp h) (List.cons_ne_nil a l')
      rw [List.length_cons] at hlt ⊢
      rw [processLoop, if_neg hne, processCommand_filled l a l']
      by_cases hnone : a.args.length = 0
      · rw [if_pos hnone, Option.bind_none]
        exact Or.inl ⟨rfl, a, List.mem_cons_self, hnone⟩
      rw [if_neg hnone]
      by_cases hargs : a.args.length ≤ 16
      · rw [if_pos hargs, Option.bind_some]
        by_cases hstop : numProcessed + 1 = max
        · exact Or.inr ⟨_, 1, _, by omega, fun _ => Nat.one_pos, if_pos hstop, Or.inl rfl⟩
        · have hassoc : l ++ a :: l' = (l ++ [a]) ++ l' := by
            rw [List.append_assoc, List.singleton_append]
          rw [if_neg hstop, hassoc, Option.toList_some]
          refine (ih (l ++ [a]) l' (numProcessed + 1) (calls ++ [a.call]) (by omega)).imp ?_ ?_
          · rintro ⟨habort, a', ha', hnone'⟩
            exact ⟨habort, a', List.mem_cons_of_mem a ha', hnone'⟩
          · rintro ⟨bufferPos, n, calls', hn, -, hloop, hpos⟩
            refine ⟨bufferPos, n + 1, calls', by omega, fun _ => Nat.succ_pos n, ?_, ?_⟩
            · rw [hloop, Nat.add_assoc numProcessed 1 n, Nat.add_comm 1 n]
            · have htake : l ++ (a :: l').take (n + 1) = (l ++ [a]) ++ l'.take n := by
                rw [List.take_succ_cons, List.append_assoc, List.singleton_append]
              rw [htake]
              refine hpos.imp_right (And.imp_right fun hlast => ?_)
              obtain ⟨a', ha', hmany⟩ := hlast
              refine ⟨a', ?_, hmany⟩
              rw [List.take_succ_cons, List.getLast?_cons, Option.mem_def.mp ha']
              rfl
      · rw [if_neg hargs, Option.bind_some]
        refine Or.inr ⟨_, 1, calls, by omega, fun _ => Nat.one_pos, ?_, Or.inr ⟨rfl, a, rfl, hargs⟩⟩
        rw [Option.toList_none, List.append_nil]
        by_cases hstop : numProcessed + 1 = max
        · exact if_pos hstop
        · obtain ⟨turns, rfl⟩ : ∃ n, turns = n + 1 := ⟨turns - 1, by omega⟩
          refine (if_neg hstop).trans ?_
          rw [processLoop, if_pos rfl]

/-- A batch that does not stop the process counts the commands up to where it stops or gives up. -/
theorem Processed.batch_counts {l : List (Addition H G)} {count : Nat} {b : GodotCommandBuffer}
    (h : Processed l count b) (max : Nat) :
    (b.processCommands H G max = none ∧ ∃ a ∈ l, a.args.length = 0) ∨
    ∃ b' n calls, b.processCommands H G max = some (b', n, calls) ∧ count + n ≤ l.length ∧
      (0 < b.numCommands → 0 < n) ∧ b'.numCommands + n = b.numCommands ∧ b'.data = b.data ∧
      (Processed l (count + n) b' ∨ b'.start = b'.data.length ∧
        ∃ a ∈ ((l.drop count).take n).getLast?, ¬a.args.length ≤ 16) := by
  have hle := h.le
  have hnum := h.numCommands
  by_cases hzero : b.numCommands = 0
  · refine Or.inr ⟨b, 0, [], if_pos hzero, hle, fun hpos => ?_, rfl, rfl, Or.inl h⟩
    omega
  have hlength := filled_length l
  have hcounts := processLoop_counts max ((filled l).data.length + 1) (l.take count) (l.drop count)
    0 [] (by rw [List.length_drop]; omega)
  rw [List.take_append_drop] at hcounts
  rcases hcounts with ⟨habort, a, ha, hnone⟩ | ⟨bufferPos, n, calls, hn, hpos, hloop, hstop⟩
  · refine Or.inl ⟨?_, a, List.mem_of_mem_drop ha, hnone⟩
    rw [GodotCommandBuffer.processCommands, if_neg hzero, h.data, h.start, habort, Option.map_none]
  · rw [← List.take_add] at hstop
    rw [Nat.zero_add] at hloop
    rw [List.length_drop] at hn
    have hsome : l.drop count ≠ [] := by
      intro hnil
      rw [List.drop_eq_nil_iff] at hnil
      omega
    -- where the batch ends it is not before its start
    have hbehind : b.start ≤ bufferPos := by
      obtain ⟨rest, hrest, -⟩ := filled_append (l.take count) (l.drop count)
      obtain ⟨rest', hrest', -⟩ := filled_append (l.take count) ((l.drop count).take n)
      rw [List.take_append_drop] at hrest
      rw [← List.take_add] at hrest'
      have hfull := congrArg List.length hrest
      have hfull' := congrArg List.length hrest'
      rw [List.length_append] at hfull hfull'
      have hstart := h.start
      omega
    have hnext : b.start + (bufferPos - b.start) = bufferPos := by omega
    refine Or.inr ⟨{ b with start := bufferPos, numCommands := b.numCommands - n }, n, calls, ?_,
      by omega, fun _ => hpos hsome, by simp only; omega, rfl, ?_⟩
    · rw [GodotCommandBuffer.processCommands, if_neg hzero, h.data, h.start, hloop,
        Option.map_some]
      rw [h.start] at hnext
      simp only [hnext]
    · rcases hstop with hstop | hstop
      · refine Or.inl ⟨by omega, h.data, hstop, ?_⟩
        show b.numCommands - n = _
        omega
      · obtain ⟨hend, hlast⟩ := hstop
        refine Or.inr ⟨?_, hlast⟩
        show bufferPos = b.data.length
        rw [hend, h.data]

theorem Valid.processCommands {b b' : GodotCommandBuffer} (h : b.Valid H G) {max n : Nat}
    {calls : List (Call H G)} (hprocess : b.processCommands H G max = some (b', n, calls)) :
    b'.Valid H G ∧ b'.numCommands + n = b.numCommands := by
  rcases h with hend | ⟨l, count, h⟩
  · rw [processCommands_end hend max] at hprocess
    cases hprocess
    exact ⟨Or.inl hend, rfl⟩
  · rcases h.batch_counts max with ⟨habort, -⟩ | ⟨b'', n', calls', hbatch, -, -, hnum, -, hstop⟩
    · rw [habort] at hprocess
      cases hprocess
    · rw [hbatch] at hprocess
      cases hprocess
      refine ⟨?_, hnum⟩
      rcases hstop with hstop | hstop
      · exact Or.inr ⟨l, count + n, hstop⟩
      · exact Or.inl hstop.1

end GodotCommandBuffer

/-- `CommandBufferEntryBase`, by the class of the buffer in its `TCommandBufferEntry`. -/
inductive CommandBufferEntry (κ : Type)
  | typed (buffer : TCommandBuffer κ)
  | godot (buffer : GodotCommandBuffer)

namespace CommandBufferEntry

def numCommands : CommandBufferEntry κ → Nat
  | .typed buffer => buffer.numCommands
  | .godot buffer => buffer.numCommands

/-- `ProcessCommands`: the entry behind it and what it returns; `none` when the process is stopped. -/
def processCommands (H : CommandHeader) (G : GodotTypes) (max : Nat) :
    CommandBufferEntry κ → Option (CommandBufferEntry κ × Nat)
  | .typed buffer => (buffer.processCommandsUntyped max).map fun (buffer, numProcessed, _) =>
      (.typed buffer, numProcessed)
  | .godot buffer => (buffer.processCommands H G max).map fun (buffer, numProcessed, _) =>
      (.godot buffer, numProcessed)

/-- `Clear` behind the walk over the remaining commands. -/
def clear : CommandBufferEntry κ → CommandBufferEntry κ
  | .typed buffer => .typed buffer.clear
  | .godot _ => .godot {}

def Valid (H : CommandHeader) (G : GodotTypes) : CommandBufferEntry κ → Prop
  | .typed buffer => buffer.WellFormed
  | .godot buffer => buffer.Valid H G

theorem Valid.clear {b : CommandBufferEntry κ} (_ : b.Valid H G) : b.clear.Valid H G := by
  cases b with
  | typed buffer => exact TCommandBuffer.wellFormed_empty
  | godot buffer => exact Or.inl rfl

/-- A batch returns by how much `NumCommands` has decreased. -/
theorem Valid.processCommands {b b' : CommandBufferEntry κ} (h : b.Valid H G) {max n : Nat}
    (hprocess : b.processCommands H G max = some (b', n)) :
    b'.Valid H G ∧ b'.numCommands + n = b.numCommands := by
  cases b with
  | typed buffer =>
    obtain ⟨b₁, taken, hsplit, -, hone, hwf, -⟩ :=
      TCommandBuffer.WellFormed.processCommandsUntyped h max
    rw [CommandBufferEntry.processCommands, hone, Option.map_some] at hprocess
    cases hprocess
    refine ⟨hwf, ?_⟩
    have hlength := congrArg List.length hsplit
    rw [List.length_append, ← TCommandBuffer.WellFormed.numCommands h, ← hwf.numCommands] at hlength
    simp only [numCommands]
    omega
  | godot buffer =>
    rw [CommandBufferEntry.processCommands] at hprocess
    obtain ⟨⟨b₁, n₁, calls⟩, hone, heq⟩ := Option.map_eq_some_iff.mp hprocess
    cases heq
    exact GodotCommandBuffer.Valid.processCommands h hone

end CommandBufferEntry
end CosmicArchitect.Commands
