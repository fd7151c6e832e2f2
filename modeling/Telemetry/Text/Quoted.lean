import Telemetry.Text.GraphemeExtend
import Telemetry.Text.Unprintable

/-!
# Quoted texts

A text between double quotes on one line: the quote, the backslash and the common controls as a
backslash and a letter, and every other character that would not show, or would attach itself to
the one before it, by its code point.
-/

namespace Telemetry.Text

/-- A number in lower-case hexadecimal. -/
def hexDigits (n : Nat) : List Char := Nat.toDigits 16 n

/-- A character as it stands between quotes. -/
def escape (c : Char) : List Char :=
  match c with
  | '"' => ['\\', '"']
  | '\\' => ['\\', '\\']
  | '\n' => ['\\', 'n']
  | '\r' => ['\\', 'r']
  | '\t' => ['\\', 't']
  | '\x00' => ['\\', '0']
  | _ =>
    if ' ' ≤ c && c ≤ '~' then [c]
    else if isUnprintable c || isGraphemeExtend c then
      ['\\', 'u', '\x7b'] ++ hexDigits c.toNat ++ ['\x7d']
    else [c]

/-- A text in quotes. -/
def quoted (s : String) : String := String.ofList ('"' :: s.toList.flatMap escape ++ ['"'])

end Telemetry.Text
