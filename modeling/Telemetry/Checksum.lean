/-!
# Checksum

The 16-bit checksum of frames: a cyclic redundancy check with the reflected polynomial `0x8408`,
started from all ones. A byte is folded in with a few shifts instead of eight single-bit steps.
-/

namespace Telemetry.Checksum

/-- The value that a checksum starts from. -/
def start : UInt16 := 0xFFFF

/-- Folds one byte into a checksum. -/
def update (sum : UInt16) (byte : UInt8) : UInt16 :=
  let x := byte ^^^ sum.toUInt8
  let y := (x ^^^ (x <<< 4)).toUInt16
  (sum >>> 8) ^^^ (y <<< 8) ^^^ (y <<< 3) ^^^ (y >>> 4)

/-- Folds bytes into a checksum, first to last. -/
def updateBytes (sum : UInt16) (bytes : List UInt8) : UInt16 := bytes.foldl update sum

/-- The checksum of bytes. -/
def ofBytes (bytes : List UInt8) : UInt16 := updateBytes start bytes

/-- The low byte of a checksum. -/
def low (sum : UInt16) : UInt8 := sum.toUInt8

/-- The high byte of a checksum. -/
def high (sum : UInt16) : UInt8 := (sum >>> 8).toUInt8

theorem ofBytes_append (a b : List UInt8) : ofBytes (a ++ b) = updateBytes (ofBytes a) b :=
  List.foldl_append

end Telemetry.Checksum
