import Telemetry.Layout
import Telemetry.Payload

/-!
# Encoding and decoding payloads

Payloads are encoded from field values and decoded to them, step by step along a layout plan. A
missing value encodes as zero, a short list is filled up with zeros, and a text is cut to its slot.

* `Codec.encode`: the payload of field values, or the fault of the first step that has one.
* `Codec.decode`: the field values of a payload.
-/

namespace Telemetry.Codec

/-- The integer of a kind that a value is converted to. The value is read as a word of 64 bits by
`read?`, and the word is converted. A value that is no such word is out of range if `other?` reads
it, and of the wrong sort otherwise. -/
def convert (read? other? : Value → Option Int) (field : String) (type : ScalarType)
    (kind : IntKind) (value : Value) : Except CodecError Int :=
  match read? value with
  | some word =>
    match kind.fit? word with
    | some n => .ok n
    | none => .error (.outOfRange field type)
  | none =>
    if (other? value).isSome then .error (.outOfRange field type)
    else .error (.typeMismatch field type value.kind)

/-- The integer of an unsigned kind that a value is converted to. -/
def unsigned : String → ScalarType → IntKind → Value → Except CodecError Int :=
  convert Value.toUInt64? Value.toInt64?

/-- The integer of a signed kind that a value is converted to. -/
def signed : String → ScalarType → IntKind → Value → Except CodecError Int :=
  convert Value.toInt64? Value.toUInt64?

/-- The integer of a kind that a value stands for. -/
def integer (field : String) (type : ScalarType) (kind : IntKind) (value : Value) :
    Except CodecError Int :=
  if kind.isSigned then signed field type kind value else unsigned field type kind value

/-- The bytes of a value as an integer of a kind. -/
def encodeInt (order : ByteOrder) (field : String) (type : ScalarType) (kind : IntKind)
    (value : Value) : Except CodecError (List UInt8) := do
  let n ← integer field type kind value
  return order.bytes kind.width (kind.unwrap n)

/-- The bytes of a single value of a type. -/
def encodeScalar (order : ByteOrder) (field : String) (type : ScalarType) (value : Value) :
    Except CodecError (List UInt8) :=
  match type with
  | .float =>
    match value.toBinary32? with
    | some x => .ok (order.bytes 4 x.bits.toNat)
    | none => .error (.typeMismatch field type value.kind)
  | .double =>
    match value.toBinary64? with
    | some x => .ok (order.bytes 8 x.bits.toNat)
    | none => .error (.typeMismatch field type value.kind)
  | .integer kind => encodeInt order field type kind value
  | .version => encodeInt order field type .u8 value

/-- The bytes of a list of `n` values of a type, zeros standing in for those that are missing. -/
def encodeArray (order : ByteOrder) (field : String) (type : ScalarType) (n : Nat)
    (items : List Value) : Except CodecError (List UInt8) :=
  if n < items.length then .error (.tooManyElements field items.length n)
  else do
    let parts ← (items ++ List.replicate (n - items.length) Value.zero).mapM
      (encodeScalar order field type)
    return parts.flatten

/-- The bytes of one step, given the value of its field. -/
def encodeStep (order : ByteOrder) (step : Step) (value? : Option Value) :
    Except CodecError (List UInt8) :=
  match step.kind with
  | .scalar => encodeScalar order step.field step.type (value?.getD Value.zero)
  | .text n =>
    match value? with
    | none => .ok (textSlot n "")
    | some (.text s) => .ok (textSlot n s)
    | some other => .error (.typeMismatch step.field step.type other.kind)
  | .array n =>
    match value? with
    | none => encodeArray order step.field step.type n []
    | some (.list items) => encodeArray order step.field step.type n items
    | some other => .error (.typeMismatch step.field step.type other.kind)

/-- The payload of a frame of a version with given field values. -/
def encode (order : ByteOrder) (plan : LayoutPlan) (values : FieldValues)
    (version : FrameVersion) : Except CodecError (List UInt8) := do
  let parts ← (plan.stepsFor version).mapM fun step =>
    encodeStep order step (values.get? step.field)
  return parts.flatten

/-- Gets a single value of a type. -/
def decodeScalar (type : ScalarType) (p : Payload) : Except CodecError (Value × Payload) := do
  match type with
  | .float => let (x, p) ← p.getBinary32; return (.float x, p)
  | .double => let (x, p) ← p.getBinary64; return (.double x, p)
  | .integer kind => let (n, p) ← p.getWord kind.width; return (.wrap kind n, p)
  | .version => let (n, p) ← p.getWord 1; return (.wrap .u8 n, p)

/-- Gets `n` values of a type. -/
def decodeArray (type : ScalarType) : Nat → Payload → Except CodecError (List Value × Payload)
  | 0, p => .ok ([], p)
  | n + 1, p => do
    let (v, p) ← decodeScalar type p
    let (rest, p) ← decodeArray type n p
    return (v :: rest, p)

/-- Gets the value of a step. -/
def decodeStep (step : Step) (p : Payload) : Except CodecError (Value × Payload) := do
  match step.kind with
  | .scalar => decodeScalar step.type p
  | .text n => let (s, p) ← p.getText n; return (.text s, p)
  | .array n => let (items, p) ← decodeArray step.type n p; return (.list items, p)

/-- Gets the values of steps that follow each other. -/
def decodeSteps : List Step → Payload → Except CodecError FieldValues
  | [], _ => .ok []
  | step :: rest, p => do
    let (v, p) ← decodeStep step p
    let values ← decodeSteps rest p
    return (step.field, v) :: values

/-- The field values of a payload of a frame of a version. -/
def decode (order : ByteOrder) (plan : LayoutPlan) (bytes : List UInt8)
    (version : FrameVersion) : Except CodecError FieldValues :=
  decodeSteps (plan.stepsFor version) (Payload.received bytes order version)

end Telemetry.Codec
