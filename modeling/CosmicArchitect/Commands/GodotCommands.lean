import CosmicArchitect.Commands.BatchedCommands
import CosmicArchitect.Commands.VariantCodec
import CosmicArchitect.Util.StackAllocator

/-!
# Godot commands (Commands/GodotCommandBuffer.cpp)

A command is a header with its name and the number of its arguments, and the arguments behind
it. `ProcessCommand` and `SkipCommand` walk over the bytes of the commands; this is the build with
`DEBUG_ENABLED`, whose readers check what they read and whose `StackAllocator` tracks the arguments.
-/

namespace CosmicArchitect.Commands
open Serialize
open TCommandBuffer (batch)

/- The struct `Command` in memory: `ofBytes` is the header that lies at the bytes. The names are
   the `StringName`s that are not empty. `ProcessCommand` puts the arguments on `stack`. -/
structure CommandHeader where
  Name : Type
  size : Nat
  size_pos : 0 < size
  toBytes : Name → UInt8 → Bytes
  ofBytes : Bytes → Name × UInt8
  toBytes_length : ∀ command argcount, (toBytes command argcount).length = size
  ofBytes_toBytes : ∀ command argcount, ofBytes (toBytes command argcount) = (command, argcount)
  stack : Util.StackAllocator.ArgumentStack

structure GodotCommandBuffer where
  data : Bytes := []
  start : Nat := 0
  numCommands : Nat := 0
deriving DecidableEq, Repr

def IntType.Contains (T : IntType) (value : Int) : Prop :=
  if T.isSigned then -(2 ^ (8 * T.size - 1)) ≤ value ∧ value < 2 ^ (8 * T.size - 1)
  else 0 ≤ value ∧ value < 2 ^ (8 * T.size)

/-- An argument of `AddCommand`, by the branches of `WriteVariant`: a `float` and a `Ref` are given
by their object bytes. -/
inductive Argument (G : GodotTypes)
  | bool (value : Bool)
  | variant (value : Variant G)
  | refcounted (bytes : { bytes : Bytes // bytes.length = G.refSize })
  | int (T : IntType) (value : { value : Int // T.Contains value })
  | float32 (bytes : { bytes : Bytes // bytes.length = G.floatSize })
  | object (T : ObjectType) (value : G.Value T)

/-- The variant that holds the argument. -/
def Argument.toVariant {G : GodotTypes} : Argument G → Variant G
  | .bool value => .bool value
  | .variant value => value
  | .refcounted bytes => .object .object (G.ofRef bytes.1)
  | .int _ value => .int (Int64.ofInt value.1)
  | .float32 bytes => .object .float (G.ofFloat bytes.1)
  | .object T value => .object T value

/-- What `callp` is given. -/
structure Call (H : CommandHeader) (G : GodotTypes) where
  command : H.Name
  args : List (Variant G)

/-- A call that adds a command; its `argcount` fits the header. -/
inductive Addition (H : CommandHeader) (G : GodotTypes)
  | addCommand (command : H.Name) (args : List (Argument G)) (argcount : args.length < 256)
  | addCommandVararg (command : H.Name) (args : List (Variant G)) (argcount : args.length < 256)

namespace Addition
variable {H : CommandHeader} {G : GodotTypes}

def command : Addition H G → H.Name
  | .addCommand command _ _ => command
  | .addCommandVararg command _ _ => command

def args : Addition H G → List (Argument G)
  | .addCommand _ args _ => args
  | .addCommandVararg _ args _ => args.map .variant

def call (a : Addition H G) : Call H G := ⟨a.command, a.args.map Argument.toVariant⟩

theorem length_lt (a : Addition H G) : a.args.length < 256 := by
  cases a with
  | addCommand command args h => exact h
  | addCommandVararg command args h =>
    rw [Addition.args, List.length_map]
    exact h

end Addition

inductive CommandError
  | noSpaceCommand (left : UInt64)
  | tooManyArguments (argcount : UInt8)
  | argument (error : ReadError)
deriving DecidableEq, Repr

def CommandError.message : CommandError → String
  | .noSpaceCommand left =>
    "Command buffer doesn't fit the command and its arguments (" ++ toString left ++
      " out of range)"
  | .tooManyArguments argcount =>
    "Command buffers support up to 16 arguments per command (" ++ toString argcount ++
      " out of range)"
  | .argument error => error.message

namespace GodotCommandBuffer
variable {H : CommandHeader} {G : GodotTypes}

def writeVariant (buffer : Bytes) : Argument G → Bytes
  | .bool value => writeBool buffer value
  | .variant value => writeGenericVariant buffer value
  | .refcounted bytes => writeType (writeVariantType buffer .refcounted) bytes.1
  | .int T value =>
    writeType (writeVariantType buffer (getIntType T))
      (toData T.size (value.1 % 2 ^ (8 * T.size)).toNat)
  | .float32 bytes => writeType (writeVariantType buffer .float32) bytes.1
  | .object T value => writeObject buffer T value

/-- `AddCommand`, and `AddCommandVararg` with its variants. -/
def add (b : GodotCommandBuffer) : Addition H G → GodotCommandBuffer
  | .addCommand command args _ =>
    { b with
      data := args.foldl writeVariant
        (writeType b.data (H.toBytes command (UInt8.ofNat args.length)))
      numCommands := b.numCommands + 1 }
  | .addCommandVararg command args _ =>
    { b with
      data := writeArguments (writeType b.data (H.toBytes command (UInt8.ofNat args.length))) args
      numCommands := b.numCommands + 1 }

/-- Where a walk goes on, the command it passed and the errors it printed. -/
structure CommandResult (H : CommandHeader) (G : GodotTypes) where
  bufferPos : Nat
  passed : Option (Call H G) := none
  errors : List CommandError := []

/- The walk of `ProcessCommand` and of `SkipCommand` over a command. `ReadVariant` never returns a
   position behind the end, so their checks behind each argument do not fire. -/
def walkCommand (buffer : Bytes) (bufferPos : Nat) : CommandResult H G :=
  if buffer.length < bufferPos + H.size then
    { bufferPos := buffer.length
      errors := [.noSpaceCommand (UInt64.ofInt (buffer.length - bufferPos - H.size))] }
  else
    let (command, argcount) := H.ofBytes ((buffer.drop bufferPos).take H.size)
    if argcount > 16 then
      { bufferPos := buffer.length, errors := [.tooManyArguments argcount] }
    else
      let (args, bufferPos, errors) := readArguments buffer (bufferPos + H.size) argcount.toNat
      { bufferPos := bufferPos, passed := some ⟨command, args⟩, errors := errors.map .argument }

/-- `ProcessCommand`: the command passed is called with its arguments on the stack. `none`: they do
not come back cleanly, and an assertion stops the process. -/
def processCommand (buffer : Bytes) (bufferPos : Nat) : Option (CommandResult H G) :=
  let result : CommandResult H G := walkCommand buffer bufferPos
  match result.passed with
  | none => some result
  | some call => (H.stack.passArguments call.args.length).toOption.map fun _ => result

/-- `SkipCommand`: the command passed is destroyed. -/
def skipCommand : Bytes → Nat → CommandResult H G := walkCommand

/-- The loop of `ProcessCommands`; `turns` bounds its turns. -/
def processLoop (H : CommandHeader) (G : GodotTypes) (buffer : Bytes) (max : Nat) :
    Nat → Nat → Nat → List (Call H G) → Option (Nat × Nat × List (Call H G))
  | 0, _, _, _ => none
  | turns + 1, bufferPos, numProcessed, calls =>
    if bufferPos = buffer.length then some (bufferPos, numProcessed, calls)
    else
      (processCommand buffer bufferPos : Option (CommandResult H G)).bind fun result =>
        let calls := calls ++ result.passed.toList
        if numProcessed + 1 = max then some (result.bufferPos, numProcessed + 1, calls)
        else processLoop H G buffer max turns result.bufferPos (numProcessed + 1) calls

/-- `ProcessCommands`: the buffer behind it, how many were processed, and the calls; `none` when the
process is stopped. -/
def processCommands (H : CommandHeader) (G : GodotTypes) (b : GodotCommandBuffer) (max : Nat) :
    Option (GodotCommandBuffer × Nat × List (Call H G)) :=
  if b.numCommands = 0 then some (b, 0, [])
  else
    (processLoop H G b.data max (b.data.length + 1) b.start 0 []).map
      fun (bufferPos, numProcessed, calls) =>
        ({ b with
          start := b.start + (bufferPos - b.start)
          numCommands := b.numCommands - numProcessed }, numProcessed, calls)

def clearLoop (H : CommandHeader) (G : GodotTypes) (buffer : Bytes) :
    Nat → Nat → List (Call H G) → Option (List (Call H G))
  | 0, _, _ => none
  | turns + 1, bufferPos, skipped =>
    if bufferPos = buffer.length then some skipped
    else
      let result : CommandResult H G := skipCommand buffer bufferPos
      clearLoop H G buffer turns result.bufferPos (skipped ++ result.passed.toList)

/-- `Clear` and the commands it destroys. -/
def clear (H : CommandHeader) (G : GodotTypes) (b : GodotCommandBuffer) :
    Option (GodotCommandBuffer × List (Call H G)) :=
  (clearLoop H G b.data (b.data.length + 1) b.start []).map fun skipped => ({}, skipped)

/-! ### One argument -/

theorem decode_toData {T : IntType} {value : Int} (h : T.Contains value) :
    T.decode (toData T.size (value % 2 ^ (8 * T.size)).toNat) = Int64.ofInt value := by
  rw [IntType.decode, ofData_toData]
  refine congrArg Int64.ofInt ?_
  unfold IntType.Contains at h
  cases T with
  | uint8 | uint16 | uint32 | uint64 =>
    simp [IntType.isSigned, IntType.size] at h ⊢
    omega
  | int8 | int16 | int32 | int64 =>
    simp [IntType.isSigned, IntType.size] at h ⊢
    split <;> omega

theorem writeVariant_append (buffer : Bytes) (a : Argument G) :
    ∃ rest, writeVariant buffer a = buffer ++ rest := by
  cases a with
  | variant value => exact writeGenericVariant_append buffer value
  | bool value => exact ⟨_, rfl⟩
  | refcounted bytes => exact ⟨_, List.append_assoc ..⟩
  | int T value => exact ⟨_, List.append_assoc ..⟩
  | float32 bytes => exact ⟨_, List.append_assoc ..⟩
  | object T value => exact ⟨_, List.append_assoc ..⟩

/-- A written argument is read as the variant that holds it, up to the last of its bytes. -/
theorem readVariant_writeVariant (a : Argument G) (buffer rest : Bytes) (argument : Variant G) :
    readVariant (writeVariant buffer a ++ rest) buffer.length argument =
      { argument := a.toVariant, bufferPos := (writeVariant buffer a).length } := by
  cases a with
  | variant value => exact readVariant_append value buffer rest argument
  | bool value => exact readVariant_append (.bool value) buffer rest argument
  | object T value => exact readVariant_append (.object T value) buffer rest argument
  | refcounted bytes =>
    have hread := readVariantInternal_append (fun b => .object .object (G.ofRef b)) buffer bytes.1
      rest .refcounted argument
    rw [bytes.2] at hread
    rw [readVariant, writeVariant, getElem?_tag_data]
    simp only [VariantType.ofByte_toByte]
    exact hread
  | float32 bytes =>
    have hread := readVariantInternal_append (fun b => .object .float (G.ofFloat b)) buffer bytes.1
      rest .float32 argument
    rw [bytes.2] at hread
    rw [readVariant, writeVariant, getElem?_tag_data]
    simp only [VariantType.ofByte_toByte]
    exact hread
  | int T value =>
    have hread := readVariantInternal_append (fun b => .int (T.decode b)) buffer
      (toData T.size (value.1 % 2 ^ (8 * T.size)).toNat) rest (getIntType T) argument
    rw [toData_length, decode_toData value.2] at hread
    have htag := getElem?_tag_data buffer (toData T.size (value.1 % 2 ^ (8 * T.size)).toNat)
      (getIntType T) rest
    rw [readVariant, writeVariant, htag]
    simp only [VariantType.ofByte_toByte]
    cases T <;> exact hread

/-! ### One command -/

theorem writeVariants_append (args : List (Argument G)) :
    ∀ buffer, ∃ rest, args.foldl writeVariant buffer = buffer ++ rest := by
  induction args with
  | nil => exact fun buffer => ⟨[], (List.append_nil buffer).symm⟩
  | cons a args ih =>
    intro buffer
    obtain ⟨first, hfirst⟩ := writeVariant_append buffer a
    obtain ⟨rest, hrest⟩ := ih (writeVariant buffer a)
    exact ⟨first ++ rest, by rw [List.foldl_cons, hrest, hfirst, List.append_assoc]⟩

theorem readArguments_writeVariants (args : List (Argument G)) : ∀ buffer rest : Bytes,
    readArguments (args.foldl writeVariant buffer ++ rest) buffer.length args.length =
      (args.map Argument.toVariant, (args.foldl writeVariant buffer).length, []) := by
  induction args with
  | nil => exact fun buffer rest => rfl
  | cons a args ih =>
    intro buffer rest
    obtain ⟨behind, hbehind⟩ := writeVariants_append args (writeVariant buffer a)
    have hread := readVariant_writeVariant a buffer (behind ++ rest) .nil
    rw [← List.append_assoc, ← hbehind] at hread
    rw [List.foldl_cons, List.length_cons, readArguments, hread]
    simp only [ih (writeVariant buffer a) rest]
    rfl

theorem add_data (b : GodotCommandBuffer) (a : Addition H G) :
    (b.add a).data = a.args.foldl writeVariant
      (b.data ++ H.toBytes a.command (UInt8.ofNat a.args.length)) := by
  cases a with
  | addCommand command args h => rfl
  | addCommandVararg command args h =>
    simp only [add, Addition.args, Addition.command, writeArguments, writeType, List.foldl_map,
      List.length_map]
    rfl

theorem add_append (b : GodotCommandBuffer) (a : Addition H G) :
    ∃ rest, (b.add a).data =
      b.data ++ (H.toBytes a.command (UInt8.ofNat a.args.length) ++ rest) := by
  obtain ⟨rest, hrest⟩ := writeVariants_append a.args
    (b.data ++ H.toBytes a.command (UInt8.ofNat a.args.length))
  exact ⟨rest, by rw [add_data, hrest, List.append_assoc]⟩

/-- A walk over an added command passes it when it has up to 16 arguments; else it ends at the end
of the buffer, whatever is written behind the command. -/
theorem walkCommand_add (b : GodotCommandBuffer) (a : Addition H G) (rest : Bytes) :
    (walkCommand ((b.add a).data ++ rest) b.data.length : CommandResult H G) =
      if a.args.length ≤ 16 then
        { bufferPos := (b.add a).data.length, passed := some a.call }
      else
        { bufferPos := ((b.add a).data ++ rest).length
          errors := [.tooManyArguments (UInt8.ofNat a.args.length)] } := by
  obtain ⟨behind, hbehind⟩ := add_append b a
  have hheader := H.toBytes_length a.command (UInt8.ofNat a.args.length)
  have hspace : ¬((b.add a).data ++ rest).length < b.data.length + H.size := by
    rw [hbehind, List.length_append, List.length_append, List.length_append, hheader]
    omega
  have hread : (((b.add a).data ++ rest).drop b.data.length).take H.size =
      H.toBytes a.command (UInt8.ofNat a.args.length) := by
    rw [hbehind, List.append_assoc, List.drop_left, List.append_assoc, ← hheader, List.take_left]
  have hcount : (UInt8.ofNat a.args.length).toNat = a.args.length :=
    UInt8.toNat_ofNat_of_lt' a.length_lt
  have harguments := readArguments_writeVariants a.args
    (b.data ++ H.toBytes a.command (UInt8.ofNat a.args.length)) rest
  rw [← add_data, List.length_append, hheader] at harguments
  rw [walkCommand, if_neg hspace, hread, H.ofBytes_toBytes]
  by_cases hmany : a.args.length ≤ 16
  · have hle : ¬UInt8.ofNat a.args.length > 16 := by
      rw [gt_iff_lt, UInt8.lt_iff_toNat_lt, hcount]
      exact Nat.not_lt_of_le hmany
    simp only [if_neg hle, if_pos hmany, hcount, harguments]
    rfl
  · have hgt : UInt8.ofNat a.args.length > 16 := by
      rw [gt_iff_lt, UInt8.lt_iff_toNat_lt, hcount]
      exact Nat.lt_of_not_le hmany
    simp only [if_pos hgt, if_neg hmany]

/-! ### A filled buffer -/

/-- The buffer after the additions. -/
def filled (l : List (Addition H G)) : GodotCommandBuffer := l.foldl add {}

/-- The commands that `ProcessCommand` gets over. -/
def Supported (l : List (Addition H G)) : Prop := ∀ a ∈ l, 1 ≤ a.args.length ∧ a.args.length ≤ 16

theorem foldl_add (l : List (Addition H G)) : ∀ b : GodotCommandBuffer,
    (∃ rest, (l.foldl add b).data = b.data ++ rest ∧ l.length ≤ rest.length) ∧
    (l.foldl add b).start = b.start ∧ (l.foldl add b).numCommands = b.numCommands + l.length := by
  induction l with
  | nil => exact fun b => ⟨⟨[], (List.append_nil _).symm, Nat.le_refl _⟩, rfl, rfl⟩
  | cons a l ih =>
    intro b
    obtain ⟨⟨rest, hrest, hlength⟩, hstart, hnum⟩ := ih (b.add a)
    obtain ⟨first, hfirst⟩ := add_append b a
    have hsize := H.size_pos
    have hheader := H.toBytes_length a.command (UInt8.ofNat a.args.length)
    have hone : (b.add a).start = b.start ∧ (b.add a).numCommands = b.numCommands + 1 := by
      cases a <;> exact ⟨rfl, rfl⟩
    refine ⟨⟨_, by rw [List.foldl_cons, hrest, hfirst, List.append_assoc], ?_⟩, ?_, ?_⟩
    · rw [List.length_append, List.length_append, hheader, List.length_cons]
      omega
    · exact hstart.trans hone.1
    · rw [List.foldl_cons, hnum, hone.2, List.length_cons]
      omega

theorem filled_append (l l' : List (Addition H G)) :
    ∃ rest, (filled (l ++ l')).data = (filled l).data ++ rest ∧ l'.length ≤ rest.length := by
  rw [filled, List.foldl_append]
  exact (foldl_add l' (filled l)).1

theorem filled_length (l : List (Addition H G)) : l.length ≤ (filled l).data.length := by
  obtain ⟨rest, hrest, hlength⟩ := filled_append [] l
  rw [List.nil_append] at hrest
  rw [hrest, List.length_append]
  omega

theorem filled_end (l l' : List (Addition H G)) :
    (filled l).data.length = (filled (l ++ l')).data.length ↔ l' = [] := by
  obtain ⟨rest, hrest, hlength⟩ := filled_append l l'
  rw [hrest, List.length_append]
  refine ⟨fun h => List.length_eq_zero_iff.mp (by omega), fun h => ?_⟩
  rw [h, List.append_nil] at hrest
  have hnil := congrArg List.length hrest
  rw [List.length_append] at hnil
  exact hnil

theorem walkCommand_filled (l : List (Addition H G)) (a : Addition H G)
    (l' : List (Addition H G)) :
    (walkCommand (filled (l ++ a :: l')).data (filled l).data.length : CommandResult H G) =
      if a.args.length ≤ 16 then
        { bufferPos := (filled (l ++ [a])).data.length, passed := some a.call }
      else
        { bufferPos := (filled (l ++ a :: l')).data.length
          errors := [.tooManyArguments (UInt8.ofNat a.args.length)] } := by
  obtain ⟨rest, hrest, _⟩ := filled_append (l ++ [a]) l'
  rw [List.append_assoc, List.singleton_append] at hrest
  have hadd : (filled (l ++ [a])).data = ((filled l).add a).data := by
    rw [filled, List.foldl_append]
    rfl
  rw [hrest, hadd]
  exact walkCommand_add (filled l) a rest

/-- A command without arguments is called, and then the process stops. -/
theorem processCommand_filled (l : List (Addition H G)) (a : Addition H G)
    (l' : List (Addition H G)) :
    (processCommand (filled (l ++ a :: l')).data (filled l).data.length :
        Option (CommandResult H G)) =
      if a.args.length = 0 then none
      else if a.args.length ≤ 16 then
        some { bufferPos := (filled (l ++ [a])).data.length, passed := some a.call }
      else some { bufferPos := (filled (l ++ a :: l')).data.length
                  errors := [.tooManyArguments (UInt8.ofNat a.args.length)] } := by
  have hlength : a.call.args.length = a.args.length := List.length_map _
  rw [processCommand, walkCommand_filled l a l']
  by_cases hmany : a.args.length ≤ 16
  · have hpass := H.stack.passArguments_ok_iff hmany
    simp only [if_pos hmany, hlength]
    by_cases hnone : a.args.length = 0
    · have hfault : (H.stack.passArguments a.args.length).toOption = none := by
        cases hresult : H.stack.passArguments a.args.length with
        | error fault => rfl
        | ok u => exact absurd hnone (hpass.mp hresult)
      rw [if_pos hnone, hfault, Option.map_none]
    · rw [if_neg hnone, hpass.mpr hnone]
      rfl
  · simp only [if_neg hmany]
    rw [if_neg (by omega)]

theorem processLoop_filled (max : Nat) : ∀ (turns : Nat) (l l' : List (Addition H G))
    (numProcessed : Nat) (calls : List (Call H G)), Supported l' → l'.length < turns →
    max = 0 ∨ numProcessed < max →
    ∃ n, n = batch (max - numProcessed) l'.length ∧
      processLoop H G (filled (l ++ l')).data max turns (filled l).data.length numProcessed calls =
        some ((filled (l ++ l'.take n)).data.length, numProcessed + n,
          calls ++ (l'.take n).map Addition.call) := by
  intro turns
  induction turns with
  | zero =>
    intro l l' numProcessed calls _ hlt
    exact absurd hlt (Nat.not_lt_zero _)
  | succ turns ih =>
    intro l l' numProcessed calls hsupported hlt hmax
    refine ⟨_, rfl, ?_⟩
    cases l' with
    | nil =>
      rw [processLoop, if_pos ((filled_end l []).mpr rfl)]
      simp only [List.take_nil, List.map_nil, List.append_nil, List.length_nil, batch,
        Nat.min_zero, ite_self, Nat.add_zero]
    | cons a l' =>
      have hne : ¬(filled l).data.length = (filled (l ++ a :: l')).data.length := fun h =>
        absurd ((filled_end l (a :: l')).mp h) (List.cons_ne_nil a l')
      have hargs := hsupported a List.mem_cons_self
      have hprocess := processCommand_filled l a l'
      rw [if_neg (by omega), if_pos hargs.2] at hprocess
      rw [processLoop, if_neg hne, hprocess, Option.bind_some]
      simp only [Option.toList_some]
      by_cases hstop : numProcessed + 1 = max
      · have hbatch : batch (max - numProcessed) (a :: l').length = 1 := by
          rw [batch, if_neg (by omega), List.length_cons]
          omega
        rw [if_pos hstop, hbatch]
        rfl
      · have hassoc : l ++ a :: l' = (l ++ [a]) ++ l' := by
          rw [List.append_assoc, List.singleton_append]
        obtain ⟨n, hn, hloop⟩ := ih (l ++ [a]) l' (numProcessed + 1) (calls ++ [a.call])
          (fun x hx => hsupported x (List.mem_cons_of_mem _ hx))
          (by rw [List.length_cons] at hlt; omega) (by omega)
        have hbatch : batch (max - numProcessed) (a :: l').length = n + 1 := by
          rw [hn, batch, batch, List.length_cons]
          split <;> split <;> omega
        rw [if_neg hstop, hassoc, hloop, hbatch, List.take_succ_cons, List.map_cons]
        simp only [List.append_assoc, List.singleton_append, Option.some.injEq, Prod.mk.injEq,
          true_and, and_true]
        omega

/-- The first command with too many arguments ends an unlimited pass, and those behind it are
passed over with it. -/
theorem processLoop_stuck : ∀ (turns : Nat) (l l' : List (Addition H G)) (a : Addition H G)
    (l'' : List (Addition H G)) (numProcessed : Nat) (calls : List (Call H G)),
    Supported l' → ¬a.args.length ≤ 16 → l'.length + 1 < turns →
    processLoop H G (filled (l ++ (l' ++ a :: l''))).data 0 turns (filled l).data.length
        numProcessed calls =
      some ((filled (l ++ (l' ++ a :: l''))).data.length, numProcessed + l'.length + 1,
        calls ++ l'.map Addition.call) := by
  intro turns
  induction turns with
  | zero =>
    intro l l' a l'' numProcessed calls _ _ hlt
    exact absurd hlt (Nat.not_lt_zero _)
  | succ turns ih =>
    intro l l' a l'' numProcessed calls hsupported hmany hlt
    have hne : ¬(filled l).data.length = (filled (l ++ (l' ++ a :: l''))).data.length := by
      intro h
      have hnil := (filled_end l (l' ++ a :: l'')).mp h
      exact absurd (List.append_eq_nil_iff.mp hnil).2 (List.cons_ne_nil a l'')
    rw [processLoop, if_neg hne]
    cases l' with
    | nil =>
      have hprocess := processCommand_filled l a l''
      rw [if_neg (by omega), if_neg hmany] at hprocess
      obtain ⟨turns, rfl⟩ : ∃ n, turns = n + 1 :=
        ⟨turns - 1, by simp only [List.length_nil] at hlt; omega⟩
      simp only [List.nil_append, hprocess, Option.bind_some, Option.toList_none, List.append_nil,
        if_neg (Nat.succ_ne_zero numProcessed), processLoop, if_pos, List.length_nil,
        List.map_nil, Nat.add_zero]
    | cons b l' =>
      have hargs := hsupported b List.mem_cons_self
      have hprocess := processCommand_filled l b (l' ++ a :: l'')
      rw [if_neg (by omega), if_pos hargs.2] at hprocess
      have hassoc : l ++ (b :: l' ++ a :: l'') = (l ++ [b]) ++ (l' ++ a :: l'') := by
        rw [List.append_assoc, List.singleton_append, List.cons_append]
      have hloop := ih (l ++ [b]) l' a l'' (numProcessed + 1) (calls ++ [b.call])
        (fun x hx => hsupported x (List.mem_cons_of_mem _ hx)) hmany
        (by rw [List.length_cons] at hlt; omega)
      simp only [List.cons_append, hprocess, Option.bind_some, Option.toList_some,
        if_neg (Nat.succ_ne_zero numProcessed)]
      rw [← List.cons_append, hassoc, hloop, List.length_cons, List.map_cons]
      simp only [List.append_assoc, List.singleton_append, Option.some.injEq, Prod.mk.injEq,
        true_and, and_true]
      omega

/-- The first command without arguments stops the process in an unlimited pass. -/
theorem processLoop_aborts : ∀ (turns : Nat) (l l' : List (Addition H G)) (a : Addition H G)
    (l'' : List (Addition H G)) (numProcessed : Nat) (calls : List (Call H G)),
    Supported l' → a.args.length = 0 →
    processLoop H G (filled (l ++ (l' ++ a :: l''))).data 0 turns (filled l).data.length
      numProcessed calls = none := by
  intro turns
  induction turns with
  | zero => exact fun _ _ _ _ _ _ _ _ => rfl
  | succ turns ih =>
    intro l l' a l'' numProcessed calls hsupported hnone
    have hne : ¬(filled l).data.length = (filled (l ++ (l' ++ a :: l''))).data.length := by
      intro h
      have hnil := (filled_end l (l' ++ a :: l'')).mp h
      exact absurd (List.append_eq_nil_iff.mp hnil).2 (List.cons_ne_nil a l'')
    rw [processLoop, if_neg hne]
    cases l' with
    | nil =>
      have hprocess := processCommand_filled l a l''
      rw [if_pos hnone] at hprocess
      rw [List.nil_append, hprocess, Option.bind_none]
    | cons b l' =>
      have hargs := hsupported b List.mem_cons_self
      have hprocess := processCommand_filled l b (l' ++ a :: l'')
      rw [if_neg (by omega), if_pos hargs.2] at hprocess
      have hassoc : l ++ (b :: l' ++ a :: l'') = (l ++ [b]) ++ (l' ++ a :: l'') := by
        rw [List.append_assoc, List.singleton_append, List.cons_append]
      have hloop := ih (l ++ [b]) l' a l'' (numProcessed + 1) (calls ++ [b.call])
        (fun x hx => hsupported x (List.mem_cons_of_mem _ hx)) hnone
      simp only [List.cons_append, hprocess, Option.bind_some, Option.toList_some,
        if_neg (Nat.succ_ne_zero numProcessed)]
      rw [← List.cons_append, hassoc, hloop]

/-- `Clear` destroys the commands up to the first with too many arguments. -/
theorem clearLoop_filled : ∀ (turns : Nat) (l l' l'' : List (Addition H G))
    (skipped : List (Call H G)), Supported l' →
    (∀ a ∈ l''.head?, ¬a.args.length ≤ 16) → (l' ++ l'').length < turns →
    clearLoop H G (filled (l ++ (l' ++ l''))).data turns (filled l).data.length skipped =
      some (skipped ++ l'.map Addition.call) := by
  intro turns
  induction turns with
  | zero =>
    intro l l' l'' skipped _ _ hlt
    exact absurd hlt (Nat.not_lt_zero _)
  | succ turns ih =>
    intro l l' l'' skipped hsupported hmany hlt
    rw [clearLoop]
    cases l' with
    | nil =>
      cases l'' with
      | nil =>
        rw [List.append_nil, if_pos ((filled_end l []).mpr rfl), List.map_nil, List.append_nil]
      | cons a l'' =>
        have hne : ¬(filled l).data.length = (filled (l ++ a :: l'')).data.length := fun h =>
          absurd ((filled_end l (a :: l'')).mp h) (List.cons_ne_nil a l'')
        have hwalk := walkCommand_filled l a l''
        rw [if_neg (hmany a rfl)] at hwalk
        obtain ⟨turns, rfl⟩ : ∃ n, turns = n + 1 :=
          ⟨turns - 1, by simp only [List.nil_append, List.length_cons] at hlt; omega⟩
        simp only [List.nil_append, if_neg hne, skipCommand, hwalk, Option.toList_none,
          List.append_nil, clearLoop, if_pos, List.map_nil]
    | cons b l' =>
      have hne : ¬(filled l).data.length = (filled (l ++ b :: (l' ++ l''))).data.length :=
        fun h => absurd ((filled_end l (b :: (l' ++ l''))).mp h) (List.cons_ne_nil _ _)
      have hwalk := walkCommand_filled l b (l' ++ l'')
      rw [if_pos (hsupported b List.mem_cons_self).2] at hwalk
      have hassoc : l ++ b :: (l' ++ l'') = (l ++ [b]) ++ (l' ++ l'') := by
        rw [List.append_assoc, List.singleton_append]
      have hloop := ih (l ++ [b]) l' l'' (skipped ++ [b.call])
        (fun x hx => hsupported x (List.mem_cons_of_mem _ hx)) hmany
        (by rw [List.cons_append, List.length_cons] at hlt; omega)
      simp only [List.cons_append, if_neg hne, skipCommand, hwalk, Option.toList_some]
      rw [hassoc, hloop, List.map_cons, List.append_assoc, List.singleton_append]

/-! ### Batches -/

/-- One `ProcessCommands` for each limit: the buffer behind them and all calls. -/
def batches (H : CommandHeader) (G : GodotTypes) :
    GodotCommandBuffer → List Nat → Option (GodotCommandBuffer × List (Call H G))
  | b, [] => some (b, [])
  | b, max :: limits =>
    (b.processCommands H G max).bind fun (b, _, calls) =>
      (batches H G b limits).map fun (b, calls') => (b, calls ++ calls')

/-- Every added command is executed: after any batches the commands called are the first of those
added, each with its own arguments; nothing is left exactly when `m_start` is at the end, and when
`ProcessCommands` reports that nothing is left all were called. -/
def Executes (l : List (Addition H G)) : Prop :=
  ∀ limits, ∃ b calls, batches H G (filled l) limits = some (b, calls) ∧
    calls <+: l.map Addition.call ∧ (b.numCommands = 0 ↔ b.start = b.data.length) ∧
    (0 ∈ limits → b.numCommands = 0) ∧
    ∀ max b' calls', b.processCommands H G max = some (b', 0, calls') →
      calls = l.map Addition.call

/-- After any batches `Clear` destroys the commands that were not called. -/
def Drops (l : List (Addition H G)) : Prop :=
  ∀ limits, ∃ b calls skipped, batches H G (filled l) limits = some (b, calls) ∧
    b.clear H G = some ({}, skipped) ∧ calls ++ skipped = l.map Addition.call

/-- The first `count` commands of `l` were processed. -/
structure Processed (l : List (Addition H G)) (count : Nat) (b : GodotCommandBuffer) : Prop where
  le : count ≤ l.length
  data : b.data = (filled l).data
  start : b.start = (filled (l.take count)).data.length
  numCommands : b.numCommands = l.length - count

theorem filled_processed (l : List (Addition H G)) : Processed l 0 (filled l) := by
  obtain ⟨_, hstart, hnum⟩ := foldl_add l {}
  exact ⟨Nat.zero_le _, rfl, hstart, hnum.trans (Nat.zero_add _)⟩

theorem Processed.end_iff {l : List (Addition H G)} {count : Nat} {b : GodotCommandBuffer}
    (h : Processed l count b) : b.numCommands = 0 ↔ b.start = b.data.length := by
  have hend := filled_end (l.take count) (l.drop count)
  rw [List.take_append_drop] at hend
  have hle := h.le
  rw [h.start, h.data, hend, List.drop_eq_nil_iff, h.numCommands]
  omega

theorem Processed.processCommands {l : List (Addition H G)} {count : Nat}
    {b : GodotCommandBuffer} (h : Processed l count b) (hl : Supported l) (max : Nat) :
    ∃ b' n, n = batch max (l.length - count) ∧ b.processCommands H G max =
        some (b', n, ((l.drop count).take n).map Addition.call) ∧
      Processed l (count + n) b' := by
  have hle := h.le
  by_cases hzero : b.numCommands = 0
  · have hlength : l.length - count = 0 := h.numCommands.symm.trans hzero
    have hbatch : batch max (l.length - count) = 0 := by
      rw [hlength, batch]
      split
      · rfl
      · exact Nat.min_zero _
    refine ⟨b, _, rfl, ?_, ?_⟩
    · rw [hbatch, GodotCommandBuffer.processCommands, if_pos hzero]
      rfl
    · rw [hbatch]
      exact h
  · obtain ⟨n, hn, hloop⟩ := processLoop_filled max ((filled l).data.length + 1) (l.take count)
      (l.drop count) 0 [] (fun a ha => hl a (List.mem_of_mem_drop ha))
      (by have := filled_length l; rw [List.length_drop]; omega) (Nat.eq_zero_or_pos max)
    rw [List.take_append_drop, ← List.take_add] at hloop
    rw [Nat.sub_zero, List.length_drop] at hn
    have hbatch : n ≤ l.length - count := by
      rw [hn, batch]
      split
      · exact Nat.le_refl _
      · exact Nat.min_le_right _ _
    have hmove : (filled (l.take count)).data.length ≤ (filled (l.take (count + n))).data.length := by
      obtain ⟨rest, hrest, _⟩ := filled_append (l.take count) ((l.drop count).take n)
      rw [List.take_add, hrest, List.length_append]
      exact Nat.le_add_right _ _
    refine ⟨{ b with
      start := b.start + ((filled (l.take (count + n))).data.length - b.start)
      numCommands := b.numCommands - (0 + n) }, n, hn, ?_, by omega, h.data, ?_, ?_⟩
    · rw [GodotCommandBuffer.processCommands, if_neg hzero, h.data, h.start, hloop, Option.map_some,
        Nat.zero_add, List.nil_append]
    · show b.start + (_ - b.start) = _
      rw [h.start]
      omega
    · show b.numCommands - (0 + n) = _
      rw [h.numCommands]
      omega

theorem Processed.batches {l : List (Addition H G)} (hl : Supported l) (limits : List Nat) :
    ∀ {count : Nat} {b : GodotCommandBuffer}, Processed l count b →
      ∃ b' n, batches H G b limits = some (b', ((l.drop count).take n).map Addition.call) ∧
        Processed l (count + n) b' ∧ (0 ∈ limits → b'.numCommands = 0) := by
  induction limits with
  | nil =>
    intro count b h
    refine ⟨b, 0, ?_, h, fun h0 => absurd h0 List.not_mem_nil⟩
    rw [GodotCommandBuffer.batches, List.take_zero, List.map_nil]
  | cons max limits ih =>
    intro count b h
    obtain ⟨b₁, n, hn, hone, h₁⟩ := h.processCommands hl max
    obtain ⟨b₂, m, hrest, h₂, hall⟩ := ih h₁
    refine ⟨b₂, n + m, ?_, by rw [← Nat.add_assoc]; exact h₂, fun h0 => ?_⟩
    · rw [GodotCommandBuffer.batches, hone, Option.bind_some, List.take_add, List.map_append,
        List.drop_drop]
      simp only [hrest, Option.map_some]
    · rcases List.mem_cons.mp h0 with rfl | h0
      · rw [batch, if_pos rfl] at hn
        rw [h₂.numCommands]
        omega
      · exact hall h0

theorem Processed.clear {l : List (Addition H G)} (hl : Supported l) {count : Nat}
    {b : GodotCommandBuffer} (h : Processed l count b) :
    b.clear H G = some ({}, (l.drop count).map Addition.call) := by
  have hlength := filled_length l
  have hloop := clearLoop_filled ((filled l).data.length + 1) (l.take count) (l.drop count) [] []
    (fun a ha => hl a (List.mem_of_mem_drop ha)) (fun a ha => absurd ha (by simp))
    (by rw [List.append_nil, List.length_drop]; omega)
  rw [List.append_nil, List.take_append_drop, List.nil_append] at hloop
  rw [GodotCommandBuffer.clear, h.data, h.start, hloop, Option.map_some]

theorem executes_of_supported {l : List (Addition H G)} (hl : Supported l) :
    Executes l ∧ Drops l := by
  refine ⟨fun limits => ?_, fun limits => ?_⟩
  · obtain ⟨b, n, hbatches, h, hall⟩ := (filled_processed l).batches hl limits
    rw [List.drop_zero] at hbatches
    rw [Nat.zero_add] at h
    refine ⟨b, _, hbatches, ?_, h.end_iff, hall, fun max b' calls' hnone => ?_⟩
    · exact (List.take_prefix n l).map Addition.call
    · obtain ⟨b'', m, hm, hprocess, _⟩ := h.processCommands hl max
      rw [hprocess] at hnone
      simp only [Option.some.injEq, Prod.mk.injEq] at hnone
      have hle := h.le
      have hend : l.length ≤ n := by
        rw [hnone.2.1, batch] at hm
        split at hm <;> omega
      rw [List.take_of_length_le hend]
  · obtain ⟨b, n, hbatches, h, _⟩ := (filled_processed l).batches hl limits
    rw [List.drop_zero] at hbatches
    rw [Nat.zero_add] at h
    refine ⟨b, _, _, hbatches, h.clear hl, ?_⟩
    rw [← List.map_append, List.take_append_drop]

theorem exists_unsupported (l : List (Addition H G)) (hl : ¬Supported l) :
    ∃ l' a l'', l = l' ++ a :: l'' ∧ Supported l' ∧
      (a.args.length = 0 ∨ ¬a.args.length ≤ 16) := by
  induction l with
  | nil => exact absurd (fun a ha => absurd ha List.not_mem_nil) hl
  | cons b l ih =>
    by_cases hb : 1 ≤ b.args.length ∧ b.args.length ≤ 16
    · have hrest : ¬Supported l := fun h => hl fun a ha => by
        rcases List.mem_cons.mp ha with rfl | ha
        · exact hb
        · exact h a ha
      obtain ⟨l', a, l'', rfl, hl', ha⟩ := ih hrest
      refine ⟨b :: l', a, l'', rfl, fun x hx => ?_, ha⟩
      rcases List.mem_cons.mp hx with rfl | hx
      · exact hb
      · exact hl' x hx
    · exact ⟨[], b, l, rfl, fun x hx => absurd hx List.not_mem_nil, by omega⟩

/-- A buffer whose `m_start` is at the end stays as it is. -/
theorem processCommands_end {b : GodotCommandBuffer} (hend : b.start = b.data.length) (max : Nat) :
    b.processCommands H G max = some (b, 0, []) := by
  rw [GodotCommandBuffer.processCommands]
  split
  · rfl
  · rw [processLoop, if_pos hend, Option.map_some]
    simp only [Nat.sub_self, Nat.add_zero, Nat.sub_zero]

/-- A full pass gives up at the first command with too many arguments, and goes on counting those
behind it. -/
theorem processCommands_givesUp (l' : List (Addition H G)) (a : Addition H G)
    (l'' : List (Addition H G)) (hl' : Supported l') (ha : ¬a.args.length ≤ 16) :
    (filled (l' ++ a :: l'')).processCommands H G 0 =
      some ({ filled (l' ++ a :: l'') with
          start := (filled (l' ++ a :: l'')).data.length
          numCommands := l''.length },
        l'.length + 1, l'.map Addition.call) := by
  have hfresh := filled_processed (l' ++ a :: l'')
  have hcount := filled_length (l' ++ a :: l'')
  have hnum := hfresh.numCommands
  have hstart : (filled (l' ++ a :: l'')).start = 0 := hfresh.start
  rw [List.length_append, List.length_cons] at hnum hcount
  have hloop := processLoop_stuck ((filled (l' ++ a :: l'')).data.length + 1) [] l' a l'' 0 []
    hl' ha (by omega)
  have hzero : (filled ([] : List (Addition H G))).data.length = 0 := rfl
  rw [List.nil_append, hzero] at hloop
  rw [GodotCommandBuffer.processCommands, if_neg (by omega), hstart, hloop, Option.map_some]
  simp only [Nat.zero_add, Nat.sub_zero, List.nil_append, Option.some.injEq, Prod.mk.injEq,
    GodotCommandBuffer.mk.injEq, and_true, true_and]
  omega

/-- A full pass stops the process at the first command without arguments. -/
theorem processCommands_aborts (l' : List (Addition H G)) (a : Addition H G)
    (l'' : List (Addition H G)) (hl' : Supported l') (ha : a.args.length = 0) :
    (filled (l' ++ a :: l'')).processCommands H G 0 = none := by
  have hfresh := filled_processed (l' ++ a :: l'')
  have hnum := hfresh.numCommands
  have hstart : (filled (l' ++ a :: l'')).start = 0 := hfresh.start
  have hloop := processLoop_aborts ((filled (l' ++ a :: l'')).data.length + 1) [] l' a l'' 0 [] hl' ha
  have hzero : (filled ([] : List (Addition H G))).data.length = 0 := rfl
  rw [List.nil_append, hzero] at hloop
  rw [List.length_append, List.length_cons] at hnum
  rw [GodotCommandBuffer.processCommands, if_neg (by omega), hstart, hloop, Option.map_none]

theorem not_executes {l : List (Addition H G)} (hl : ¬Supported l) : ¬Executes l ∧ ¬Drops l := by
  obtain ⟨l', a, l'', hsplit, hl', hnone | ha⟩ := exists_unsupported l hl
  · have hbatches : batches H G (filled l) [0] = none := by
      have habort := processCommands_aborts l' a l'' hl' hnone
      rw [← hsplit] at habort
      rw [GodotCommandBuffer.batches, habort, Option.bind_none]
    refine ⟨fun h => ?_, fun h => ?_⟩
    · obtain ⟨b, calls, hsome, -⟩ := h [0]
      rw [hbatches] at hsome
      cases hsome
    · obtain ⟨b, calls, skipped, hsome, -⟩ := h [0]
      rw [hbatches] at hsome
      cases hsome
  have hcount := filled_length l
  have hlength : l.length = l'.length + l''.length + 1 := by
    rw [hsplit, List.length_append, List.length_cons]
    omega
  refine ⟨fun h => ?_, fun h => ?_⟩
  · obtain ⟨b, calls, hbatches, _, _, _, hnone⟩ := h [0]
    have hpass := processCommands_givesUp l' a l'' hl' ha
    rw [← hsplit] at hpass
    rw [GodotCommandBuffer.batches, hpass] at hbatches
    simp only [Option.map_some, Option.bind_some, GodotCommandBuffer.batches, Option.some.injEq,
      Prod.mk.injEq, List.append_nil] at hbatches
    obtain ⟨hb, hcalls⟩ := hbatches
    have hend : b.start = b.data.length := by rw [← hb]
    have hall := congrArg List.length (hnone 0 b [] (processCommands_end hend 0))
    rw [← hcalls, List.length_map, List.length_map] at hall
    omega
  · obtain ⟨b, calls, skipped, hbatches, hclear, hall⟩ := h []
    rw [GodotCommandBuffer.batches] at hbatches
    simp only [Option.some.injEq, Prod.mk.injEq] at hbatches
    obtain ⟨rfl, rfl⟩ := hbatches
    have hloop := clearLoop_filled ((filled l).data.length + 1) [] l' (a :: l'') []
      hl' (fun x hx => by
        rw [List.head?_cons, Option.mem_some_iff] at hx
        rw [← hx]
        exact ha) (by rw [← hsplit]; omega)
    have hzero : (filled ([] : List (Addition H G))).data.length = (filled l).start :=
      (foldl_add l {}).2.1.symm
    rw [List.nil_append, ← hsplit, hzero, List.nil_append] at hloop
    rw [GodotCommandBuffer.clear, hloop] at hclear
    simp only [Option.map_some, Option.some.injEq, Prod.mk.injEq, true_and] at hclear
    have hlen := congrArg List.length hall
    rw [List.nil_append, ← hclear, List.length_map, List.length_map] at hlen
    omega

/-- The arguments of a command at the address 4096. -/
def byteStack : Util.StackAllocator.ArgumentStack where
  buffer := 4096
  variant := Util.StackAllocator.variant
  variantPtr := Util.StackAllocator.variantPtr
  types := ⟨by decide, by decide, by decide, by decide⟩
  pos := by decide
  address := by decide

/-- Names of one byte. -/
def byteHeader : CommandHeader where
  Name := UInt8
  size := 2
  size_pos := by decide
  toBytes command argcount := [command, argcount]
  ofBytes bytes := (bytes.headD 0, bytes.tail.headD 0)
  toBytes_length _ _ := rfl
  ofBytes_toBytes _ _ := rfl
  stack := byteStack

end GodotCommandBuffer
end CosmicArchitect.Commands
