import EdgeClient.Wire.Reader
import EdgeClient.Wire.Writer

/-!
# Scalar values

Nine base types have a binary form here. A `ScalarType` is what a type descriptor names, a `Scalar`
is a value tagged with its type. Six types and the identifier have a fixed width; texts and byte
strings stand behind a field with their length. Nothing separates values that follow one another,
so the types have to be known to read them back.

Floating-point values are carried as their bit patterns: what is read is what is written, also for
the many patterns that are not numbers.
-/

namespace EdgeClient

/-- A binary floating-point value of 32 bits, as its bit pattern. -/
structure Binary32 where
  /-- Sign, exponent and significand, most significant bit first. -/
  bits : UInt32
  deriving DecidableEq, Repr

/-- A binary floating-point value of 64 bits, as its bit pattern. -/
structure Binary64 where
  /-- Sign, exponent and significand, most significant bit first. -/
  bits : UInt64
  deriving DecidableEq, Repr

/-- How many bytes the values of a type take. -/
inductive Width where
  /-- Always this many. -/
  | fixed (size : Nat)
  /-- A length field of four bytes and as many bytes as it says. -/
  | variable
  deriving DecidableEq, Repr

/-- The base types that have a binary form. -/
inductive ScalarType where
  /-- Identifiers. -/
  | uuid
  /-- Texts. -/
  | str
  /-- Byte strings. -/
  | bytes
  /-- Signed numbers of two bytes. -/
  | int16
  /-- Signed numbers of four bytes. -/
  | int32
  /-- Signed numbers of eight bytes. -/
  | int64
  /-- Floating-point values of four bytes. -/
  | float32
  /-- Floating-point values of eight bytes. -/
  | float64
  /-- Truth values. -/
  | bool
  deriving DecidableEq, Repr

/-- A value of one of the base types. -/
inductive Scalar where
  /-- An identifier. -/
  | uuid (id : Uuid)
  /-- A text. -/
  | str (text : String)
  /-- A byte string. -/
  | bytes (content : Bytes)
  /-- A signed number of two bytes. -/
  | int16 (n : Int16)
  /-- A signed number of four bytes. -/
  | int32 (n : Int32)
  /-- A signed number of eight bytes. -/
  | int64 (n : Int64)
  /-- A floating-point value of four bytes. -/
  | float32 (x : Binary32)
  /-- A floating-point value of eight bytes. -/
  | float64 (x : Binary64)
  /-- A truth value. -/
  | bool (b : Bool)
  deriving DecidableEq, Repr

namespace ScalarType

/-- All base types, in the order of their descriptors. -/
def all : List ScalarType :=
  [.uuid, .str, .bytes, .int16, .int32, .int64, .float32, .float64, .bool]

/-- The name of a type in the standard library of the server. -/
def name : ScalarType → String
  | .uuid => "std::uuid"
  | .str => "std::str"
  | .bytes => "std::bytes"
  | .int16 => "std::int16"
  | .int32 => "std::int32"
  | .int64 => "std::int64"
  | .float32 => "std::float32"
  | .float64 => "std::float64"
  | .bool => "std::bool"

/-- The identifier of a type's descriptor. -/
def descriptor : ScalarType → Uuid
  | .uuid => ⟨0x100⟩
  | .str => ⟨0x101⟩
  | .bytes => ⟨0x102⟩
  | .int16 => ⟨0x103⟩
  | .int32 => ⟨0x104⟩
  | .int64 => ⟨0x105⟩
  | .float32 => ⟨0x106⟩
  | .float64 => ⟨0x107⟩
  | .bool => ⟨0x109⟩

/-- The base type with the given descriptor. -/
def ofDescriptor? (id : Uuid) : Option ScalarType :=
  all.find? fun t => t.descriptor == id

/-- The base type with the given name. -/
def ofName? (name : String) : Option ScalarType :=
  all.find? fun t => t.name == name

/-- How many bytes the values of a type take. -/
def width : ScalarType → Width
  | .uuid => .fixed Uuid.size
  | .str => .variable
  | .bytes => .variable
  | .int16 => .fixed 2
  | .int32 => .fixed 4
  | .int64 => .fixed 8
  | .float32 => .fixed 4
  | .float64 => .fixed 8
  | .bool => .fixed 1

/-- Reads a value of a type. -/
def decode : ScalarType → Read Scalar
  | .uuid => do return .uuid (← Read.uuid)
  | .str => do return .str (← Read.stringField)
  | .bytes => do return .bytes (← Read.bytesField)
  | .int16 => do return .int16 (← Read.uint16).toInt16
  | .int32 => do return .int32 (← Read.uint32).toInt32
  | .int64 => do return .int64 (← Read.uint64).toInt64
  | .float32 => do return .float32 ⟨← Read.uint32⟩
  | .float64 => do return .float64 ⟨← Read.uint64⟩
  | .bool => do return .bool (← Read.bool)

end ScalarType

namespace Scalar

/-- The type of a value. -/
def type : Scalar → ScalarType
  | .uuid _ => .uuid
  | .str _ => .str
  | .bytes _ => .bytes
  | .int16 _ => .int16
  | .int32 _ => .int32
  | .int64 _ => .int64
  | .float32 _ => .float32
  | .float64 _ => .float64
  | .bool _ => .bool

/-- Writes a value in the form of its own type. -/
def write : Scalar → Write Unit
  | .uuid id => Writer.raw id.toBytes
  | .str text => Writer.stringField text
  | .bytes content => Writer.bytesField content
  | .int16 n => Writer.word 2 n.toUInt16.toNat
  | .int32 n => Writer.word 4 n.toUInt32.toNat
  | .int64 n => Writer.word 8 n.toUInt64.toNat
  | .float32 x => Writer.word 4 x.bits.toNat
  | .float64 x => Writer.word 8 x.bits.toNat
  | .bool b => Writer.word 1 b.toNat

end Scalar

/-- Why a value could not be written as a given type. -/
inductive ScalarError where
  /-- The bytes could not be written. -/
  | wire (e : WireError)
  /-- The value is of another type. -/
  | typeMismatch (expected got : ScalarType)
  deriving DecidableEq, Repr

/-- The wording of a scalar error. -/
def ScalarError.message : ScalarError → String
  | .wire e => e.message
  | .typeMismatch expected got =>
    "cannot encode " ++ got.name ++ " as " ++ expected.name

/-- Writes a value as the given type, which has to be its own. -/
def ScalarType.encode (t : ScalarType) (value : Scalar) :
    EStateM ScalarError Writer Unit := fun w =>
  if value.type = t then
    match value.write w with
    | .ok _ w => .ok () w
    | .error e w => .error (.wire e) w
  else
    .error (.typeMismatch t value.type) w

end EdgeClient
