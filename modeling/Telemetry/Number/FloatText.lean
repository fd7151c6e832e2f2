import Telemetry.Number.Shortest

/-!
# Binary numbers as text

Binary numbers are written with the fewest digits that read back. A layout decides which numbers
are written positionally, the others having one digit before the point and a power of ten behind,
and what a whole number ends in.
-/

namespace Telemetry

/-- How the digits of a decimal are set out. -/
structure DecimalLayout where
  /-- The powers of ten of the leading digit that are written positionally. -/
  positional : Int → Bool
  /-- What follows a whole number that is written positionally. -/
  wholeEnd : List Char

namespace DecimalLayout

/-- Every number positionally, whole numbers without a point. -/
def plain : DecimalLayout := ⟨fun _ => true, []⟩

/-- Numbers from `10 ^ -4` up to `10 ^ 16` positionally and with a point. -/
def pointed : DecimalLayout := ⟨fun e => -4 ≤ e && e ≤ 15, ['.', '0']⟩

/-- The digits of a number below `10 ^ digits.length` places set out with a point behind the first
`whole` of them; zeros fill up on either side. -/
def positionalText (layout : DecimalLayout) (digits : List Char) (whole : Int) : List Char :=
  if whole ≤ 0 then ['0', '.'] ++ List.replicate (-whole).toNat '0' ++ digits
  else if digits.length ≤ whole.toNat then
    digits ++ List.replicate (whole.toNat - digits.length) '0' ++ layout.wholeEnd
  else digits.take whole.toNat ++ ['.'] ++ digits.drop whole.toNat

/-- One digit before the point, the others behind it, then the power of ten. -/
def scientificText (digits : List Char) (power : Int) : List Char :=
  let fraction := match digits.drop 1 with
    | [] => []
    | rest => '.' :: rest
  let sign := if power < 0 then ['-'] else []
  digits.take 1 ++ fraction ++ ['e'] ++ sign ++ Nat.toDigits 10 power.natAbs

/-- The text of a decimal. -/
def decimalText (layout : DecimalLayout) (d : Decimal) : List Char :=
  let digits := Nat.toDigits 10 d.digits
  let power := d.exponent + digits.length - 1
  if d.digits = 0 then '0' :: layout.wholeEnd
  else if layout.positional power then layout.positionalText digits (power + 1)
  else scientificText digits power

/-- The text of a bit pattern. -/
def text (layout : DecimalLayout) (fmt : BinaryFormat) (bits : Nat) : String :=
  let sign := if fmt.isNegative bits then ['-'] else []
  match fmt.unpack bits with
  | .nan _ => "NaN"
  | .infinite => String.ofList (sign ++ ['i', 'n', 'f'])
  | .finite mantissa exponent =>
    String.ofList (sign ++ layout.decimalText (shortest fmt mantissa exponent))

end DecimalLayout

end Telemetry
