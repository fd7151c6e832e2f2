import Telemetry.Checksum
import Telemetry.SortedMap
import Telemetry.Text.Utf8

/-!
# Fingerprints

A message's fingerprint is one byte that stands for its name and the layout of its base fields.
Sender and receiver fold it into the checksum of every frame of the message, so that a frame laid
out by another schema does not pass the check.

* `fingerprint`: the byte of a layout.
* `FingerprintTable`: fingerprints by message id.
-/

namespace Telemetry

/-- A field as the fingerprint sees it. -/
structure FingerprintField where
  /-- The name of the field's type. -/
  type : String
  name : String
  /-- The declared array length, 0 for a single value. -/
  arrayLength : Nat
deriving DecidableEq

/-- The bytes that a field adds to the fingerprint: type and name, a space behind each, and the
last byte of the array length if there is one. -/
def FingerprintField.bytes (f : FingerprintField) : List UInt8 :=
  Utf8.encode f.type ++ [0x20] ++ Utf8.encode f.name ++ [0x20]
    ++ if f.arrayLength = 0 then [] else [UInt8.ofNat f.arrayLength]

/-- The fingerprint of a message name and its base fields in wire order: the two bytes of the
checksum over both, combined. -/
def fingerprint (message : String) (fields : List FingerprintField) : UInt8 :=
  let sum := Checksum.ofBytes (Utf8.encode message ++ [0x20] ++ fields.flatMap (·.bytes))
  Checksum.low sum ^^^ Checksum.high sum

/-- Fingerprints by message id. -/
abbrev FingerprintTable := SortedMap Nat UInt8

/-- Folds the fingerprint of a message into a checksum, if the table has one. -/
def FingerprintTable.finish? (table : FingerprintTable) (sum : UInt16) (id : Nat) :
    Option UInt16 :=
  (table.get? id).map (Checksum.update sum)

end Telemetry
