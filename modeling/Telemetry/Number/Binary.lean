/-!
# Binary floating-point numbers

Numbers in the binary interchange formats of 32 and 64 bits, held as their bit patterns. A pattern
stands for a sign and a magnitude: a finite `mantissa * 2 ^ exponent`, infinity, or not a number.

* `BinaryFormat.unpack`, `BinaryFormat.pack`: a pattern as sign and magnitude, and back. Packing
  rounds to the nearest number of the format, a tie to the even mantissa.
* `Binary32.widen`, `Binary64.narrow`: between the two formats.
* `Binary64.ofInt`: the nearest number to an integer.
-/

namespace Telemetry

/-- A binary format: the stored bits of the fraction and of the exponent. -/
structure BinaryFormat where
  /-- Bits of the fraction, without the leading one. -/
  fraction : Nat
  /-- Bits of the exponent. -/
  exponent : Nat
deriving DecidableEq

/-- What a bit pattern stands for, its sign apart. -/
inductive Magnitude where
  /-- The number `mantissa * 2 ^ exponent`. -/
  | finite (mantissa : Nat) (exponent : Int)
  | infinite
  /-- Not a number; `fraction` holds the fraction bits. -/
  | nan (fraction : Nat)
deriving DecidableEq

/-- The power of two with a given exponent. -/
def powerOfTwo (n : Nat) : Nat := Nat.pow 2 n

/-- A quotient by `2 ^ shift`, rounded to the nearest integer, a tie to the even one. -/
def roundShift (n shift : Nat) : Nat :=
  let unit := powerOfTwo shift
  let quotient := n / unit
  let remainder := n % unit
  if 2 * remainder < unit then quotient
  else if unit < 2 * remainder then quotient + 1
  else quotient + quotient % 2

/-- The number of binary digits. -/
def bitLength (n : Nat) : Nat := if n = 0 then 0 else n.log2 + 1

namespace BinaryFormat

/-- The format of 32 bits. -/
def single : BinaryFormat := ⟨23, 8⟩

/-- The format of 64 bits. -/
def double : BinaryFormat := ⟨52, 11⟩

/-- The exponent of the last bit of the smallest numbers. -/
def minExponent (fmt : BinaryFormat) : Int :=
  2 - (powerOfTwo (fmt.exponent - 1) : Nat) - fmt.fraction

/-- The pattern of positive infinity. -/
def infinity (fmt : BinaryFormat) : Nat :=
  (powerOfTwo fmt.exponent - 1) * powerOfTwo fmt.fraction

/-- The weight of the sign bit. -/
def signBit (fmt : BinaryFormat) : Nat := powerOfTwo (fmt.fraction + fmt.exponent)

/-- Whether the sign bit of a pattern is set. -/
def isNegative (fmt : BinaryFormat) (bits : Nat) : Bool := bits / fmt.signBit % 2 == 1

/-- The magnitude of a pattern. -/
def unpack (fmt : BinaryFormat) (bits : Nat) : Magnitude :=
  let fraction := bits % powerOfTwo fmt.fraction
  let biased := bits / powerOfTwo fmt.fraction % powerOfTwo fmt.exponent
  if biased = powerOfTwo fmt.exponent - 1 then
    if fraction = 0 then .infinite else .nan fraction
  else if biased = 0 then .finite fraction fmt.minExponent
  else .finite (powerOfTwo fmt.fraction + fraction) (fmt.minExponent + biased - 1)

/-- The pattern of the number of the format nearest to `mantissa * 2 ^ exponent`. A carry out of
the rounded mantissa runs into the exponent field, which is what the next number's pattern is. -/
def round (fmt : BinaryFormat) (mantissa : Nat) (exponent : Int) : Nat :=
  if mantissa = 0 then 0
  else
    let last := max (exponent + bitLength mantissa - (fmt.fraction + 1)) fmt.minExponent
    let rounded :=
      if last ≤ exponent then mantissa * powerOfTwo (exponent - last).toNat
      else roundShift mantissa (last - exponent).toNat
    min ((last - fmt.minExponent).toNat * powerOfTwo fmt.fraction + rounded) fmt.infinity

/-- The pattern of a sign and a magnitude. What is not a number gets its quiet bit set. -/
def pack (fmt : BinaryFormat) (negative : Bool) (magnitude : Magnitude) : Nat :=
  (if negative then fmt.signBit else 0) +
    match magnitude with
    | .finite mantissa exponent => fmt.round mantissa exponent
    | .infinite => fmt.infinity
    | .nan fraction => fmt.infinity + (powerOfTwo (fmt.fraction - 1) ||| fraction)

/-- A magnitude as one format holds it for another: the fraction of what is not a number keeps its
leading bits. -/
def realign (source target : BinaryFormat) : Magnitude → Magnitude
  | .nan fraction => .nan (fraction * powerOfTwo target.fraction / powerOfTwo source.fraction)
  | m => m

/-- The pattern of the number of `target` nearest to a number of `source`. -/
def convert (source target : BinaryFormat) (bits : Nat) : Nat :=
  target.pack (source.isNegative bits) (source.realign target (source.unpack bits))

end BinaryFormat

/-- A number of the 32-bit format. -/
structure Binary32 where
  bits : UInt32
deriving DecidableEq, Inhabited

/-- A number of the 64-bit format. -/
structure Binary64 where
  bits : UInt64
deriving DecidableEq, Inhabited

/-- The same number with 64 bits. -/
def Binary32.widen (x : Binary32) : Binary64 :=
  ⟨UInt64.ofNat (BinaryFormat.single.convert .double x.bits.toNat)⟩

/-- The nearest number of 32 bits. -/
def Binary64.narrow (x : Binary64) : Binary32 :=
  ⟨UInt32.ofNat (BinaryFormat.double.convert .single x.bits.toNat)⟩

/-- The number nearest to an integer. -/
def Binary64.ofInt (n : Int) : Binary64 :=
  ⟨UInt64.ofNat (BinaryFormat.double.pack (n < 0) (.finite n.natAbs 0))⟩

end Telemetry
