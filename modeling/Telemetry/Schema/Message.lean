import Telemetry.ByteOrder
import Telemetry.Fingerprint
import Telemetry.Schema.Field

/-!
# Messages

A message has an id, a name and fields. Declaring it checks the definition and seals it with the
lengths of its payloads and its fingerprint.

* `Message.declare`: the declared message, or the first fault of its definition.
-/

namespace Telemetry

/-- The settings that all messages of a dialect share. -/
structure DialectFlags where
  /-- The order of the bytes of a word. -/
  order : ByteOrder := .little
  /-- Whether messages have fingerprints; without, every fingerprint is 0. -/
  fingerprints : Bool := true
  /-- Whether fields are reordered on the wire. -/
  sortFields : Bool := true
deriving DecidableEq, Inhabited

/-- A declared message. -/
structure Message where
  id : Nat
  name : String
  description : Option String := none
  /-- The fields in the order of the declaration. -/
  fields : List Field
  /-- The place of the first extension field. -/
  extensionsStart : Option Nat := none
  /-- The fingerprint that goes into the checksum of its frames. -/
  fingerprint : UInt8
  /-- The declared length of a legacy payload. -/
  baseLength : Nat
  /-- The declared length of an extended payload. -/
  fullLength : Nat
deriving DecidableEq, Inhabited

/-- The first name that occurs again after `seen` and the names before it. -/
def firstRepeat? (seen : List String) : List String → Option String
  | [] => none
  | x :: rest => if x ∈ seen then some x else firstRepeat? (x :: seen) rest

/-- A base field as the fingerprint sees it. -/
def OrderedField.forFingerprint (o : OrderedField) : FingerprintField :=
  ⟨o.type.fingerprintName, o.field.name, o.field.arrayLength⟩

namespace Message

/-- Checks a definition and seals it. -/
def declare (id : Nat) (name : String) (fields : List Field) (extensionsStart : Option Nat)
    (flags : DialectFlags) : Except SchemaError Message := do
  if FrameVersion.extended.maxId < id then
    throw (.idOutOfRange name id FrameVersion.extended.maxId)
  if let some field := firstRepeat? [] (fields.map (·.name)) then
    throw (.duplicateField name field)
  if let some start := extensionsStart then
    if start = 0 ∨ fields.length < start then
      throw (.badExtensions name (.misplaced start))
  let order ← wireOrder name fields extensionsStart flags.sortFields
  if maxPayloadLength < order.fullLength then
    throw (.payloadTooLarge name order.fullLength maxPayloadLength)
  return {
    id, name, fields, extensionsStart
    fingerprint :=
      if flags.fingerprints then Telemetry.fingerprint name (order.base.map (·.forFingerprint))
      else 0
    baseLength := order.baseLength
    fullLength := order.fullLength }

/-- The fields of every frame, as declared. -/
def baseFields (m : Message) : List Field :=
  m.fields.take (splitIndex m.extensionsStart m.fields.length)

/-- The fields of extended frames only, as declared. -/
def extensionFields (m : Message) : List Field :=
  m.fields.drop (splitIndex m.extensionsStart m.fields.length)

end Message

end Telemetry
