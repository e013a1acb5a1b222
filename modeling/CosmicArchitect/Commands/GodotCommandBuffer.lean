import CosmicArchitect.Util.Serialize
import Mathlib.Algebra.Ring.Int.Defs

/-!
# Arguments of Godot commands (Commands/GodotCommandBuffer.cpp)

An argument is written as the byte of its `VariantType` and the object representation of its
value. The classes of Godot are parameters of the model: the values of each, and how they lie in
memory.
-/

namespace CosmicArchitect.Commands
open Serialize

/-- `VariantType`, the header byte of an encoded variant. -/
inductive VariantType
  | nil
  | true
  | false
  | uint8
  | uint16
  | uint32
  | uint64
  | int8
  | int16
  | int32
  | int64
  | float32
  | float64
  | string
  | vector2
  | vector2i
  | rect2
  | rect2i
  | vector3
  | vector3i
  | transform2d
  | vector4
  | vector4i
  | plane
  | quaternion
  | aabb
  | basis
  | transform3d
  | projection
  | color
  | stringName
  | nodePath
  | rid
  | object
  | refcounted
  | callable
  | signal
  | dictionary
  | array
  | packedByteArray
  | packedInt32Array
  | packedInt64Array
  | packedFloat32Array
  | packedFloat64Array
  | packedStringArray
  | packedVector2Array
  | packedVector3Array
  | packedColorArray
  | packedVector4Array
deriving DecidableEq, Repr

namespace VariantType

/-- The enumerators in the order of their values. -/
def values : List VariantType :=
  [nil, true, false, uint8, uint16, uint32, uint64, int8, int16, int32, int64, float32, float64,
    string, vector2, vector2i, rect2, rect2i, vector3, vector3i, transform2d, vector4, vector4i,
    plane, quaternion, aabb, basis, transform3d, projection, color, stringName, nodePath, rid,
    object, refcounted, callable, signal, dictionary, array, packedByteArray, packedInt32Array,
    packedInt64Array, packedFloat32Array, packedFloat64Array, packedStringArray,
    packedVector2Array, packedVector3Array, packedColorArray, packedVector4Array]

def toByte (type : VariantType) : UInt8 := UInt8.ofNat (values.idxOf type)

/-- The enumerator with the value of a byte. -/
def ofByte (b : UInt8) : Option VariantType := values[b.toNat]?

theorem ofByte_toByte (type : VariantType) : ofByte type.toByte = some type := by
  cases type <;> decide

end VariantType

/-- The integer types that are written. -/
inductive IntType
  | uint8
  | uint16
  | uint32
  | uint64
  | int8
  | int16
  | int32
  | int64
deriving DecidableEq, Repr

namespace IntType

def size : IntType → Nat
  | uint8 | int8 => 1
  | uint16 | int16 => 2
  | uint32 | int32 => 4
  | uint64 | int64 => 8

def isSigned : IntType → Bool
  | uint8 | uint16 | uint32 | uint64 => false
  | int8 | int16 | int32 | int64 => true

/-- The object bytes of an `int64_t` converted to the type. -/
def encode (T : IntType) (value : Int64) : Bytes := toData T.size value.toBitVec.toNat

/-- The integer with the given object bytes, converted to `int64_t`. -/
def decode (T : IntType) (bytes : Bytes) : Int64 :=
  let n := ofData bytes
  Int64.ofInt (if T.isSigned ∧ 2 ^ (8 * T.size - 1) ≤ n then n - 2 ^ (8 * T.size) else n)

def InRange (T : IntType) (value : Int64) : Prop :=
  if T.isSigned then
    -(2 ^ (8 * T.size - 1)) ≤ value.toInt ∧ value.toInt < 2 ^ (8 * T.size - 1)
  else 0 ≤ value.toInt ∧ value.toInt < 2 ^ (8 * T.size)

end IntType

/-- The types of variants whose value is an object of a class, by `Variant::Type`: a `double`, the
value types of Godot and `Object*`. -/
inductive ObjectType
  | float
  | string
  | vector2
  | vector2i
  | rect2
  | rect2i
  | vector3
  | vector3i
  | transform2d
  | vector4
  | vector4i
  | plane
  | quaternion
  | aabb
  | basis
  | transform3d
  | projection
  | color
  | stringName
  | nodePath
  | rid
  | object
  | callable
  | signal
  | dictionary
  | array
  | packedByteArray
  | packedInt32Array
  | packedInt64Array
  | packedFloat32Array
  | packedFloat64Array
  | packedStringArray
  | packedVector2Array
  | packedVector3Array
  | packedColorArray
  | packedVector4Array
deriving DecidableEq, Repr

/- The classes of Godot: `ofBytes` is the value of the object that lies at the bytes. The value of
   an `Object*` is the pointer; what becomes of its object is not part of the model. The types
   `float` and `Ref<RefCounted>` are read into variants of another type. -/
structure GodotTypes where
  Value : ObjectType → Type
  size : ObjectType → Nat
  toBytes : (T : ObjectType) → Value T → Bytes
  ofBytes : (T : ObjectType) → Bytes → Value T
  toBytes_length : ∀ T v, (toBytes T v).length = size T
  ofBytes_toBytes : ∀ T v, ofBytes T (toBytes T v) = v
  floatSize : Nat
  ofFloat : Bytes → Value .float
  refSize : Nat
  ofRef : Bytes → Value .object

inductive Variant (G : GodotTypes)
  | nil
  | bool (value : Bool)
  | int (value : Int64)
  | object (T : ObjectType) (value : G.Value T)

inductive ReadError
  | noSpaceVariant
  | noSpaceValue
  | invalidType
deriving DecidableEq, Repr

def ReadError.message : ReadError → String
  | .noSpaceVariant => "Not enough space to read another encoded variant"
  | .noSpaceValue => "Not enough space to read another encoded variant value"
  | .invalidType => "Invalid encoded variant type"

namespace GodotCommandBuffer
variable {G : GodotTypes}

/-- `GetVariantType` of an integer type -/
def getIntType : IntType → VariantType
  | .uint8 => .uint8
  | .uint16 => .uint16
  | .uint32 => .uint32
  | .uint64 => .uint64
  | .int8 => .int8
  | .int16 => .int16
  | .int32 => .int32
  | .int64 => .int64

/-- `GetVariantType` of the class, and `OBJECT` for `Object*` -/
def getVariantType : ObjectType → VariantType
  | .float => .float64
  | .string => .string
  | .vector2 => .vector2
  | .vector2i => .vector2i
  | .rect2 => .rect2
  | .rect2i => .rect2i
  | .vector3 => .vector3
  | .vector3i => .vector3i
  | .transform2d => .transform2d
  | .vector4 => .vector4
  | .vector4i => .vector4i
  | .plane => .plane
  | .quaternion => .quaternion
  | .aabb => .aabb
  | .basis => .basis
  | .transform3d => .transform3d
  | .projection => .projection
  | .color => .color
  | .stringName => .stringName
  | .nodePath => .nodePath
  | .rid => .rid
  | .object => .object
  | .callable => .callable
  | .signal => .signal
  | .dictionary => .dictionary
  | .array => .array
  | .packedByteArray => .packedByteArray
  | .packedInt32Array => .packedInt32Array
  | .packedInt64Array => .packedInt64Array
  | .packedFloat32Array => .packedFloat32Array
  | .packedFloat64Array => .packedFloat64Array
  | .packedStringArray => .packedStringArray
  | .packedVector2Array => .packedVector2Array
  | .packedVector3Array => .packedVector3Array
  | .packedColorArray => .packedColorArray
  | .packedVector4Array => .packedVector4Array

/-! ### Writing -/

/-- `WriteType` (CommandBufferEntry.h:17-24) -/
def writeType (buffer data : Bytes) : Bytes := buffer ++ data

def writeVariantType (buffer : Bytes) (type : VariantType) : Bytes :=
  writeType buffer [type.toByte]

/-- `WriteVariant<bool>` -/
def writeBool (buffer : Bytes) (argument : Bool) : Bytes :=
  writeVariantType buffer (if argument then .true else .false)

/-- `WriteVariant` of an integer type -/
def writeIntVariant (T : IntType) (buffer : Bytes) (argument : Int64) : Bytes :=
  writeType (writeVariantType buffer (getIntType T)) (T.encode argument)

/-- `WriteVariant` of a class or of `Object*` -/
def writeObject (buffer : Bytes) (T : ObjectType) (argument : G.Value T) : Bytes :=
  writeType (writeVariantType buffer (getVariantType T)) (G.toBytes T argument)

/-- The case `INT` of `WriteGenericVariant` (lines 260-303). -/
def writeInt (buffer : Bytes) (value : Int64) : Bytes :=
  if value < 0 then
    if -128 ≤ value then writeIntVariant .int8 buffer value
    else if -32768 ≤ value then writeIntVariant .int16 buffer value
    else if -2147483648 ≤ value then writeIntVariant .int32 buffer value
    else writeIntVariant .int64 buffer value
  else
    if value ≤ 255 then writeIntVariant .uint8 buffer value
    else if value ≤ 65535 then writeIntVariant .uint16 buffer value
    else if value ≤ 4294967295 then writeIntVariant .uint32 buffer value
    else writeIntVariant .uint64 buffer value

def writeGenericVariant (buffer : Bytes) : Variant G → Bytes
  | .nil => writeVariantType buffer .nil
  | .bool value => writeBool buffer value
  | .int value => writeInt buffer value
  | .object T value => writeObject buffer T value

/-- The loop of `AddCommandVararg`. -/
def writeArguments (buffer : Bytes) (args : List (Variant G)) : Bytes :=
  args.foldl writeGenericVariant buffer

/-! ### Reading -/

/-- The variant, the new `buffer_pos` and the error that was printed. -/
structure ReadResult (G : GodotTypes) where
  argument : Variant G
  bufferPos : Nat
  error : Option ReadError := none

/-- `ReadVariantInternal` of a type of the given size. -/
def readVariantInternal (size : Nat) (value : Bytes → Variant G) (buffer : Bytes) (bufferPos : Nat)
    (argument : Variant G) : ReadResult G :=
  if buffer.length < bufferPos + size then
    { argument := argument, bufferPos := buffer.length, error := some .noSpaceValue }
  else
    { argument := value ((buffer.drop bufferPos).take size), bufferPos := bufferPos + size }

def readInt (T : IntType) : Bytes → Nat → Variant G → ReadResult G :=
  readVariantInternal T.size fun bytes => .int (T.decode bytes)

def readObject (T : ObjectType) : Bytes → Nat → Variant G → ReadResult G :=
  readVariantInternal (G.size T) fun bytes => .object T (G.ofBytes T bytes)

def readVariant (buffer : Bytes) (bufferPos : Nat) (argument : Variant G) : ReadResult G :=
  match buffer[bufferPos]? with
  | none => { argument := argument, bufferPos := buffer.length, error := some .noSpaceVariant }
  | some type =>
    let bufferPos := bufferPos + 1
    match VariantType.ofByte type with
    | some .nil => { argument := .nil, bufferPos := bufferPos }
    | some .true => { argument := .bool true, bufferPos := bufferPos }
    | some .false => { argument := .bool false, bufferPos := bufferPos }
    | some .uint8 => readInt .uint8 buffer bufferPos argument
    | some .uint16 => readInt .uint16 buffer bufferPos argument
    | some .uint32 => readInt .uint32 buffer bufferPos argument
    | some .uint64 => readInt .uint64 buffer bufferPos argument
    | some .int8 => readInt .int8 buffer bufferPos argument
    | some .int16 => readInt .int16 buffer bufferPos argument
    | some .int32 => readInt .int32 buffer bufferPos argument
    | some .int64 => readInt .int64 buffer bufferPos argument
    | some .float32 =>
      readVariantInternal G.floatSize (fun bytes => .object .float (G.ofFloat bytes)) buffer bufferPos
        argument
    | some .float64 => readObject .float buffer bufferPos argument
    | some .string => readObject .string buffer bufferPos argument
    | some .vector2 => readObject .vector2 buffer bufferPos argument
    | some .vector2i => readObject .vector2i buffer bufferPos argument
    | some .rect2 => readObject .rect2 buffer bufferPos argument
    | some .rect2i => readObject .rect2i buffer bufferPos argument
    | some .vector3 => readObject .vector3 buffer bufferPos argument
    | some .vector3i => readObject .vector3i buffer bufferPos argument
    | some .transform2d => readObject .transform2d buffer bufferPos argument
    | some .vector4 => readObject .vector4 buffer bufferPos argument
    | some .vector4i => readObject .vector4i buffer bufferPos argument
    | some .plane => readObject .plane buffer bufferPos argument
    | some .quaternion => readObject .quaternion buffer bufferPos argument
    | some .aabb => readObject .aabb buffer bufferPos argument
    | some .basis => readObject .basis buffer bufferPos argument
    | some .transform3d => readObject .transform3d buffer bufferPos argument
    | some .projection => readObject .projection buffer bufferPos argument
    | some .color => readObject .color buffer bufferPos argument
    | some .stringName => readObject .stringName buffer bufferPos argument
    | some .nodePath => readObject .nodePath buffer bufferPos argument
    | some .rid => readObject .rid buffer bufferPos argument
    | some .object => readObject .object buffer bufferPos argument
    | some .refcounted =>
      readVariantInternal G.refSize (fun bytes => .object .object (G.ofRef bytes)) buffer bufferPos
        argument
    | some .callable => readObject .callable buffer bufferPos argument
    | some .signal => readObject .signal buffer bufferPos argument
    | some .dictionary => readObject .dictionary buffer bufferPos argument
    | some .array => readObject .array buffer bufferPos argument
    | some .packedByteArray => readObject .packedByteArray buffer bufferPos argument
    | some .packedInt32Array => readObject .packedInt32Array buffer bufferPos argument
    | some .packedInt64Array => readObject .packedInt64Array buffer bufferPos argument
    | some .packedFloat32Array => readObject .packedFloat32Array buffer bufferPos argument
    | some .packedFloat64Array => readObject .packedFloat64Array buffer bufferPos argument
    | some .packedStringArray => readObject .packedStringArray buffer bufferPos argument
    | some .packedVector2Array => readObject .packedVector2Array buffer bufferPos argument
    | some .packedVector3Array => readObject .packedVector3Array buffer bufferPos argument
    | some .packedColorArray => readObject .packedColorArray buffer bufferPos argument
    | some .packedVector4Array => readObject .packedVector4Array buffer bufferPos argument
    | none => { argument := argument, bufferPos := buffer.length, error := some .invalidType }

/-- The loop of `ProcessCommand` over its arguments, with the errors that it prints. -/
def readArguments (buffer : Bytes) : Nat → Nat → List (Variant G) × Nat × List ReadError
  | bufferPos, 0 => ([], bufferPos, [])
  | bufferPos, count + 1 =>
    let result := readVariant buffer bufferPos .nil
    let (args, bufferPos, errors) := readArguments buffer result.bufferPos count
    (result.argument :: args, bufferPos, result.error.toList ++ errors)

end GodotCommandBuffer
end CosmicArchitect.Commands
