import Telemetry.IntKind
import Telemetry.Schema.Error

/-!
# Scalar types

The types of single values in a message, which are also the element types of arrays. Each has a
tag, by which dialect files name it, and a width on the wire.
-/

namespace Telemetry

/-- The type of a single value. -/
inductive ScalarType where
  /-- A binary number of 32 bits. -/
  | float
  /-- A binary number of 64 bits. -/
  | double
  /-- An integer. -/
  | integer (kind : IntKind)
  /-- The protocol version of the sender: a byte in every respect but its tag. -/
  | version
deriving DecidableEq, Inhabited

namespace ScalarType

/-- The tag that names a type in dialect files. -/
def tag : ScalarType → String
  | float => "float"
  | double => "double"
  | integer .char => "char"
  | integer .i8 => "int8_t"
  | integer .u8 => "uint8_t"
  | integer .i16 => "int16_t"
  | integer .u16 => "uint16_t"
  | integer .i32 => "int32_t"
  | integer .u32 => "uint32_t"
  | integer .i64 => "int64_t"
  | integer .u64 => "uint64_t"
  | version => "uint8_t_mavlink_version"

/-- All scalar types. -/
def all : List ScalarType :=
  [float, double, integer .char, integer .i8, integer .u8, integer .i16, integer .u16,
    integer .i32, integer .u32, integer .i64, integer .u64, version]

/-- The type with a given tag. -/
def ofTag? (tag : String) : Option ScalarType := all.find? (·.tag == tag)

/-- The type of a field, by its tag. -/
def resolve (message field tag : String) : Except SchemaError ScalarType :=
  match ofTag? tag with
  | some t => .ok t
  | none => .error (.unknownType message field tag)

/-- The name by which a type enters the fingerprint. -/
def fingerprintName : ScalarType → String
  | version => (integer .u8).tag
  | t => t.tag

/-- The kind of integers that a type holds, if it holds integers. -/
def intKind? : ScalarType → Option IntKind
  | integer k => some k
  | version => some .u8
  | _ => none

/-- The number of bytes on the wire. -/
def width : ScalarType → Nat
  | float => 4
  | double => 8
  | integer k => k.width
  | version => 1

/-- Whether a type holds binary numbers. -/
def isFloat : ScalarType → Bool
  | float | double => true
  | _ => false

/-- Whether a type has negative values. -/
def isSigned : ScalarType → Bool
  | integer k => k.isSigned
  | t => t.isFloat

/-- The type that generated code stores a value in. -/
def storage : ScalarType → String
  | float => "f32"
  | double => "f64"
  | integer .char => IntKind.u8.name
  | integer k => k.name
  | version => IntKind.u8.name

end ScalarType

end Telemetry
