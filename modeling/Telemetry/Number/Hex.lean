/-!
# Numbers in hexadecimal

Bytes and words with a fixed number of hexadecimal digits.
-/

namespace Telemetry.Hex

/-- A text filled up from the left to `width` characters. -/
def padLeft (width : Nat) (fill : Char) (cs : List Char) : List Char :=
  List.replicate (width - cs.length) fill ++ cs

/-- A number with at least `width` lower-case digits. -/
def lower (width n : Nat) : String := String.ofList (padLeft width '0' (Nat.toDigits 16 n))

/-- A number with at least `width` upper-case digits. -/
def upper (width n : Nat) : String :=
  String.ofList (padLeft width '0' ((Nat.toDigits 16 n).map Char.toUpper))

/-- Bytes with two digits each and single spaces between them. -/
def spaced (bytes : List UInt8) : String :=
  String.intercalate " " (bytes.map fun b => lower 2 b.toNat)

end Telemetry.Hex
