import CosmicArchitect.Commands.GodotCommandBuffer

/-!
# Arguments are read back as they were written

`ReadVariant` inverts `WriteGenericVariant` wherever the written bytes lie in a buffer.
-/

namespace CosmicArchitect.Commands
open Serialize

namespace IntType

theorem encode_length (T : IntType) (value : Int64) : (T.encode value).length = T.size :=
  toData_length T.size _

theorem decode_encode {T : IntType} {value : Int64} (h : T.InRange value) :
    T.decode (T.encode value) = value := by
  -- two's complement
  have hint : (2 * value.toBitVec.toNat < 18446744073709551616 ∧
      value.toInt = value.toBitVec.toNat) ∨ (18446744073709551616 ≤ 2 * value.toBitVec.toNat ∧
        value.toInt = value.toBitVec.toNat - 18446744073709551616) := by
    rw [← Int64.toInt_toBitVec, BitVec.toInt_eq_toNat_cond]
    split
    · exact Or.inl ⟨by omega, rfl⟩
    · exact Or.inr ⟨by omega, rfl⟩
  have hlt := value.toBitVec.isLt
  rw [decode, encode, ofData_toData]
  refine (congrArg Int64.ofInt ?_).trans (Int64.ofInt_toInt value)
  unfold InRange at h
  cases T with
  | uint8 | uint16 | uint32 | uint64 =>
    simp [isSigned, size] at h ⊢
    omega
  | int8 | int16 | int32 | int64 =>
    simp [isSigned, size] at h ⊢
    split
    · omega
    · omega

end IntType

namespace GodotCommandBuffer
variable {G : GodotTypes}

/-! ### One argument -/

theorem writeInt_type (buffer : Bytes) (value : Int64) :
    ∃ T : IntType, T.InRange value ∧ writeInt buffer value = writeIntVariant T buffer value := by
  have hlo : -9223372036854775808 ≤ value.toInt := value.le_toInt
  have hhi : value.toInt < 9223372036854775808 := value.toInt_lt
  rw [writeInt]
  by_cases hneg : value < 0
  · have hneg' : value.toInt < 0 := Int64.lt_iff_toInt_lt.mp hneg
    rw [if_pos hneg]
    by_cases h8 : -128 ≤ value
    · have h8' : -128 ≤ value.toInt := Int64.le_iff_toInt_le.mp h8
      exact ⟨.int8, ⟨h8', show value.toInt < 128 by omega⟩, if_pos h8⟩
    rw [if_neg h8]
    by_cases h16 : -32768 ≤ value
    · have h16' : -32768 ≤ value.toInt := Int64.le_iff_toInt_le.mp h16
      exact ⟨.int16, ⟨h16', show value.toInt < 32768 by omega⟩, if_pos h16⟩
    rw [if_neg h16]
    by_cases h32 : -2147483648 ≤ value
    · have h32' : -2147483648 ≤ value.toInt := Int64.le_iff_toInt_le.mp h32
      exact ⟨.int32, ⟨h32', show value.toInt < 2147483648 by omega⟩, if_pos h32⟩
    · exact ⟨.int64, ⟨hlo, hhi⟩, if_neg h32⟩
  · have hneg' : 0 ≤ value.toInt := by
      rw [Int64.lt_iff_toInt_lt] at hneg
      exact Int.not_lt.mp hneg
    rw [if_neg hneg]
    by_cases h8 : value ≤ 255
    · have h8' : value.toInt ≤ 255 := Int64.le_iff_toInt_le.mp h8
      exact ⟨.uint8, ⟨hneg', show value.toInt < 256 by omega⟩, if_pos h8⟩
    rw [if_neg h8]
    by_cases h16 : value ≤ 65535
    · have h16' : value.toInt ≤ 65535 := Int64.le_iff_toInt_le.mp h16
      exact ⟨.uint16, ⟨hneg', show value.toInt < 65536 by omega⟩, if_pos h16⟩
    rw [if_neg h16]
    by_cases h32 : value ≤ 4294967295
    · have h32' : value.toInt ≤ 4294967295 := Int64.le_iff_toInt_le.mp h32
      exact ⟨.uint32, ⟨hneg', show value.toInt < 4294967296 by omega⟩, if_pos h32⟩
    · exact ⟨.uint64, ⟨hneg', show value.toInt < 18446744073709551616 by omega⟩, if_neg h32⟩

theorem writeGenericVariant_append (buffer : Bytes) (v : Variant G) :
    ∃ rest, writeGenericVariant buffer v = buffer ++ rest := by
  cases v with
  | nil => exact ⟨_, rfl⟩
  | bool value => exact ⟨_, rfl⟩
  | int value =>
    obtain ⟨T, -, hwrite⟩ := writeInt_type buffer value
    exact ⟨_, hwrite.trans (List.append_assoc ..)⟩
  | object T value => exact ⟨_, List.append_assoc ..⟩

theorem writeVariantType_length (buffer : Bytes) (type : VariantType) :
    (writeVariantType buffer type).length = buffer.length + 1 := by
  rw [writeVariantType, writeType, List.length_append, List.length_singleton]

theorem getElem?_tag (buffer : Bytes) (type : VariantType) (rest : Bytes) :
    (writeVariantType buffer type ++ rest)[buffer.length]? = some type.toByte := by
  rw [writeVariantType, writeType, List.append_assoc, List.getElem?_append_right (Nat.le_refl _),
    Nat.sub_self]
  rfl

theorem getElem?_tag_data (buffer data : Bytes) (type : VariantType) (rest : Bytes) :
    (writeType (writeVariantType buffer type) data ++ rest)[buffer.length]? = some type.toByte := by
  rw [writeType, List.append_assoc, getElem?_tag]

theorem readVariantInternal_append (value : Bytes → Variant G) (buffer data rest : Bytes)
    (type : VariantType) (argument : Variant G) :
    readVariantInternal data.length value (writeType (writeVariantType buffer type) data ++ rest)
      (buffer.length + 1) argument =
        { argument := value data
          bufferPos := (writeType (writeVariantType buffer type) data).length } := by
  have hlen := writeVariantType_length buffer type
  rw [readVariantInternal, writeType, List.length_append, List.length_append, hlen, if_neg (by omega),
    List.append_assoc, ← hlen, List.drop_left, List.take_left]

theorem readInt_append {T : IntType} {value : Int64} (h : T.InRange value) (buffer rest : Bytes)
    (argument : Variant G) :
    readInt T (writeIntVariant T buffer value ++ rest) (buffer.length + 1) argument =
      { argument := .int value, bufferPos := (writeIntVariant T buffer value).length } := by
  rw [readInt, ← T.encode_length value, writeIntVariant, readVariantInternal_append,
    IntType.decode_encode h]

theorem readObject_append (T : ObjectType) (value : G.Value T) (buffer rest : Bytes)
    (argument : Variant G) :
    readObject T (writeObject buffer T value ++ rest) (buffer.length + 1) argument =
      { argument := .object T value, bufferPos := (writeObject buffer T value).length } := by
  rw [readObject, ← G.toBytes_length T value, writeObject, readVariantInternal_append,
    G.ofBytes_toBytes]

/-- A written variant is read back, up to the last of its bytes. -/
theorem readVariant_append (v : Variant G) (buffer rest : Bytes) (argument : Variant G) :
    readVariant (writeGenericVariant buffer v ++ rest) buffer.length argument =
      { argument := v, bufferPos := (writeGenericVariant buffer v).length } := by
  cases v with
  | nil =>
    rw [readVariant, writeGenericVariant, getElem?_tag, writeVariantType_length]
    simp only [VariantType.ofByte_toByte]
  | bool value =>
    rw [readVariant, writeGenericVariant, writeBool, getElem?_tag, writeVariantType_length]
    simp only [VariantType.ofByte_toByte]
    cases value <;> rfl
  | int value =>
    obtain ⟨T, hrange, hwrite⟩ := writeInt_type buffer value
    have hread := readInt_append hrange buffer rest argument
    have htag := getElem?_tag_data buffer (T.encode value) (getIntType T) rest
    rw [← writeIntVariant] at htag
    rw [writeGenericVariant, hwrite, readVariant, htag]
    simp only [VariantType.ofByte_toByte]
    cases T <;> exact hread
  | object T value =>
    have hread := readObject_append T value buffer rest argument
    have htag := getElem?_tag_data buffer (G.toBytes T value) (getVariantType T) rest
    rw [← writeObject] at htag
    rw [writeGenericVariant, readVariant, htag]
    simp only [VariantType.ofByte_toByte]
    cases T <;> exact hread

/-! ### All arguments -/

theorem writeArguments_append (args : List (Variant G)) :
    ∀ buffer, ∃ rest, writeArguments buffer args = buffer ++ rest := by
  induction args with
  | nil => exact fun buffer => ⟨[], (List.append_nil buffer).symm⟩
  | cons v args ih =>
    intro buffer
    obtain ⟨first, hfirst⟩ := writeGenericVariant_append buffer v
    obtain ⟨rest, hrest⟩ := ih (writeGenericVariant buffer v)
    refine ⟨first ++ rest, ?_⟩
    rw [← List.append_assoc, ← hfirst]
    exact hrest

/-- Arguments written behind whatever a buffer holds are read back in order, up to the last of
their bytes and without an error, whatever is written behind them. -/
theorem arguments_roundTrip (G : GodotTypes) (args : List (Variant G)) :
    ∀ buffer rest : Bytes, readArguments (writeArguments buffer args ++ rest) buffer.length args.length =
      (args, (writeArguments buffer args).length, []) := by
  induction args with
  | nil => exact fun buffer rest => rfl
  | cons v args ih =>
    intro buffer rest
    obtain ⟨behind, hbehind⟩ := writeArguments_append args (writeGenericVariant buffer v)
    have hread := readVariant_append v buffer (behind ++ rest) .nil
    rw [← List.append_assoc, ← hbehind] at hread
    have hrest := ih (writeGenericVariant buffer v) rest
    show readArguments (writeArguments (writeGenericVariant buffer v) args ++ rest) buffer.length
      (args.length + 1) = _
    rw [readArguments, hread]
    simp only [hrest]
    rfl

/-- Godot with values of one byte. -/
def byteTypes : GodotTypes where
  Value _ := UInt8
  size _ := 1
  toBytes _ v := [v]
  ofBytes _ bytes := bytes.headD 0
  toBytes_length _ _ := rfl
  ofBytes_toBytes _ _ := rfl
  floatSize := 1
  ofFloat bytes := bytes.headD 0
  refSize := 1
  ofRef bytes := bytes.headD 0

example : writeArguments [] [(.int (-129) : Variant byteTypes), .bool true,
    .object .color (7 : UInt8)] = [8, 127, 255, 1, 29, 7] := by decide +kernel

end GodotCommandBuffer
end CosmicArchitect.Commands
