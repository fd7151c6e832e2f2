import Telemetry.Number.Binary

/-!
# Shortest decimals

The decimal with the fewest digits that reads back as a given binary number: of all decimals in the
interval that rounds to the number, one on the coarsest grid of powers of ten, and of two such the
nearer one, the upper one if they are equally near.
-/

namespace Telemetry

/-- The decimal `digits * 10 ^ exponent`. -/
structure Decimal where
  digits : Nat
  exponent : Int
deriving DecidableEq

/-- The number of decimal digits of `n`, at least 1. -/
def decimalLength (n : Nat) : Nat := (Nat.toDigits 10 n).length

/-- The reals that round to a binary number, in quarters of the unit of its last bit: the number
itself is `4 * mantissa` quarters, and the interval reaches from `low` to `high` quarters. -/
structure RoundingInterval where
  /-- The number. -/
  value : Nat
  /-- The lower end. -/
  low : Nat
  /-- The upper end. -/
  high : Nat
  /-- Whether the ends round to the number too. -/
  closed : Bool
  /-- The exponent of two of a quarter unit. -/
  exponent : Int

namespace RoundingInterval

/-- The interval around `mantissa * 2 ^ exponent`. Below a power of two the numbers of the format
lie twice as dense; a tie between two numbers goes to the even mantissa. -/
def around (fmt : BinaryFormat) (mantissa : Nat) (exponent : Int) : RoundingInterval where
  value := 4 * mantissa
  low := 4 * mantissa -
    if mantissa = powerOfTwo fmt.fraction ∧ fmt.minExponent < exponent then 1 else 2
  high := 4 * mantissa + 2
  closed := mantissa % 2 == 0
  exponent := exponent - 2

/-- Whether `digits / scale` lies in the interval whose quarters are scaled by `weight`. -/
def holds (i : RoundingInterval) (weight scale digits : Nat) : Bool :=
  if i.closed then i.low * weight ≤ digits * scale && digits * scale ≤ i.high * weight
  else i.low * weight < digits * scale && digits * scale < i.high * weight

/-- A quarter unit divided by `10 ^ grid`, as numerator and denominator. -/
def ratio (i : RoundingInterval) (grid : Int) : Nat × Nat :=
  (powerOfTwo i.exponent.toNat * Nat.pow 10 (-grid).toNat,
    powerOfTwo (-i.exponent).toNat * Nat.pow 10 grid.toNat)

/-- The point of the grid of multiples of `10 ^ grid` that stands for the number, if one of the
two neighbours of the number on that grid lies in the interval. -/
def onGrid (i : RoundingInterval) (grid : Int) : Option Decimal :=
  let (weight, scale) := i.ratio grid
  let down := i.value * weight / scale
  let rest := i.value * weight % scale
  match i.holds weight scale down, i.holds weight scale (down + 1) with
  | true, true => some ⟨if 2 * rest < scale then down else down + 1, grid⟩
  | true, false => some ⟨down, grid⟩
  | false, true => some ⟨down + 1, grid⟩
  | false, false => none

/-- The decimal on the first grid that has one, from `grid` down to finer grids. -/
def search (i : RoundingInterval) : Nat → Int → Decimal
  | 0, grid => ⟨i.value * (i.ratio grid).1 / (i.ratio grid).2, grid⟩
  | fuel + 1, grid =>
    match i.onGrid grid with
    | some d => d
    | none => i.search fuel (grid - 1)

/-- A grid so coarse that the number lies below its first positive point. -/
def coarsest (i : RoundingInterval) : Int :=
  let (weight, scale) := i.ratio 0
  if scale ≤ i.value * weight then decimalLength (i.value * weight / scale)
  else 1 - (decimalLength (scale / (i.value * weight)) : Int)

end RoundingInterval

/-- The shortest decimal that reads back as `mantissa * 2 ^ exponent`. Seventeen digits tell all
numbers of either format apart, so the search ends on a grid of the number. -/
def shortest (fmt : BinaryFormat) (mantissa : Nat) (exponent : Int) : Decimal :=
  if mantissa = 0 then ⟨0, 0⟩
  else
    let i := RoundingInterval.around fmt mantissa exponent
    i.search 20 i.coarsest

end Telemetry
