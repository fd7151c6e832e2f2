import Telemetry.ByteOrder
import Telemetry.Frame.Version
import Telemetry.Text.Utf8
import Telemetry.Value

/-!
# Payloads

A payload is a row of bytes with a reading position. Values are put at its end and got from its
position on. Extended frames may arrive without their trailing zeros, so reading past the end of
such a payload gives zeros; a payload of a legacy frame has to hold every byte that is read.

* `Payload.put…`, `Payload.get…`: single values, bytes and texts.
* `textSlot`, `slotText`: a text in a fixed number of bytes. `fillText` writes one over what a slot
  holds.
-/

namespace Telemetry

/-- A fault of encoding or decoding a payload. -/
inductive CodecError where
  /-- Bytes are missing. -/
  | truncated (needed available : Nat)
  /-- A value of the wrong sort is given for a field. -/
  | typeMismatch (field : String) (expected : ScalarType) (found : ValueKind)
  /-- An integer does not fit the type of its field. -/
  | outOfRange (field : String) (type : ScalarType)
  /-- A list is longer than the array of its field. -/
  | tooManyElements (field : String) (length capacity : Nat)
  /-- A message is asked for that is not in the table. -/
  | unknownMessage (name : String)
deriving DecidableEq

/-- How a fault of a payload is reported. -/
def CodecError.message : CodecError → String
  | truncated needed available =>
    s!"payload truncated: needed {needed} bytes, {available} available"
  | typeMismatch field expected found =>
    s!"field '{field}': expected {expected.tag}, got {found.name}"
  | outOfRange field type => s!"field '{field}': value out of range for {type.tag}"
  | tooManyElements field length capacity =>
    s!"field '{field}': {length} elements, capacity is {capacity}"
  | unknownMessage name => s!"unknown message: {name}"

/-- A text in `capacity` bytes: as many of its bytes as fit, then zeros. -/
def textSlot (capacity : Nat) (text : String) : List UInt8 :=
  (Utf8.encode text).take capacity
    ++ List.replicate (capacity - (Utf8.encode text).length) 0

/-- Writes a text over a slot: as many of its bytes as fit, and zeros over all that is left. -/
def fillText (slot : List UInt8) (text : String) : List UInt8 :=
  let bytes := Utf8.encode text
  let copied := min bytes.length slot.length
  bytes.take copied ++ (slot.drop copied).map fun _ => 0

/-- The text in a slot: what stands before the first zero. -/
def slotText (slot : List UInt8) : String := Utf8.decodeLossy (slot.takeWhile (· ≠ 0))

/-- Payload bytes with a reading position. -/
structure Payload where
  bytes : List UInt8 := []
  /-- The number of bytes read. -/
  position : Nat := 0
  order : ByteOrder
  /-- Whether reading past the end gives zeros. -/
  zeroFill : Bool := false
deriving DecidableEq

namespace Payload

/-- A payload to put values into. -/
def empty (order : ByteOrder) : Payload := { order }

/-- Received bytes of a frame of a version. -/
def received (bytes : List UInt8) (order : ByteOrder) (version : FrameVersion) : Payload where
  bytes
  order
  zeroFill := version = .extended

/-- Starts reading again from the first byte. -/
def reset (p : Payload) : Payload := { p with position := 0 }

/-- Puts bytes at the end. -/
def putBytes (p : Payload) (bytes : List UInt8) : Payload := { p with bytes := p.bytes ++ bytes }

/-- Puts a word of `width` bytes at the end. -/
def putWord (p : Payload) (width n : Nat) : Payload := p.putBytes (p.order.bytes width n)

/-- Puts an integer at the end. -/
def putInt (p : Payload) (kind : IntKind) (n : Int) : Payload :=
  p.putWord kind.width (kind.unwrap n)

/-- Puts a 32-bit number at the end. -/
def putBinary32 (p : Payload) (x : Binary32) : Payload := p.putWord 4 x.bits.toNat

/-- Puts a 64-bit number at the end. -/
def putBinary64 (p : Payload) (x : Binary64) : Payload := p.putWord 8 x.bits.toNat

/-- Puts a text of `capacity` bytes at the end. -/
def putText (p : Payload) (text : String) (capacity : Nat) : Payload :=
  p.putBytes (textSlot capacity text)

/-- The next `n` bytes, with zeros for those that are missing. -/
def peek (p : Payload) (n : Nat) : List UInt8 :=
  let present := (p.bytes.drop p.position).take n
  present ++ List.replicate (n - present.length) 0

/-- Gets the next `n` bytes. -/
def getBytes (p : Payload) (n : Nat) : Except CodecError (List UInt8 × Payload) :=
  if p.position + n ≤ p.bytes.length ∨ p.zeroFill then
    .ok (p.peek n, { p with position := p.position + n })
  else .error (.truncated (p.position + n) p.bytes.length)

/-- Gets a word of `width` bytes. -/
def getWord (p : Payload) (width : Nat) : Except CodecError (Nat × Payload) := do
  let (bytes, p) ← p.getBytes width
  return (p.order.word bytes, p)

/-- Gets an integer. -/
def getInt (p : Payload) (kind : IntKind) : Except CodecError (Int × Payload) := do
  let (n, p) ← p.getWord kind.width
  return (kind.wrap n, p)

/-- Gets a 32-bit number. -/
def getBinary32 (p : Payload) : Except CodecError (Binary32 × Payload) := do
  let (n, p) ← p.getWord 4
  return (⟨UInt32.ofNat n⟩, p)

/-- Gets a 64-bit number. -/
def getBinary64 (p : Payload) : Except CodecError (Binary64 × Payload) := do
  let (n, p) ← p.getWord 8
  return (⟨UInt64.ofNat n⟩, p)

/-- Gets the text in the next `capacity` bytes. -/
def getText (p : Payload) (capacity : Nat) : Except CodecError (String × Payload) := do
  let (slot, p) ← p.getBytes capacity
  return (slotText slot, p)

end Payload

end Telemetry
