/-!
# The tree of a dialect file

What a dialect file says, before any of it is checked: headers, then enumerations and messages.
Numbers keep the spelling of the file.
-/

namespace Telemetry.Source

/-- A number as it is spelled. -/
inductive Numeral where
  | decimal (digits : List Char)
  /-- Digits to base 16 behind a zero and a mark, `x` or `X`. -/
  | hexadecimal (mark : Char) (digits : List Char)
deriving DecidableEq

/-- A declaration at the head of a file. -/
inductive Header where
  /-- The name of the dialect. -/
  | dialect (name : String)
  /-- The version of the dialect. -/
  | version (number : Numeral)
  /-- A setting for all messages. -/
  | setting (name : String)
  /-- Another dialect to include. -/
  | inclusion (name : String)
deriving DecidableEq

/-- A named value of an enumeration. -/
structure EntryDecl where
  name : String
  value : Numeral
  description : Option String
deriving DecidableEq

/-- An enumeration. -/
structure EnumDecl where
  name : String
  description : Option String
  entries : List EntryDecl
deriving DecidableEq

/-- A field of a message. -/
structure FieldDecl where
  name : String
  tag : String
  arrayLength : Option Numeral
  description : Option String
deriving DecidableEq

/-- What stands between the braces of a message. -/
inductive MessageItem where
  /-- The mark behind which fields are extensions. -/
  | extensions
  | field (f : FieldDecl)
deriving DecidableEq

/-- A message. -/
structure MessageDecl where
  name : String
  id : Numeral
  description : Option String
  items : List MessageItem
deriving DecidableEq

/-- A definition behind the headers. -/
inductive Item where
  | enumeration (e : EnumDecl)
  | message (m : MessageDecl)
deriving DecidableEq

/-- A dialect file. -/
structure File where
  headers : List Header
  items : List Item
deriving DecidableEq

/-- The value of a digit to base 16. -/
def digitValue (c : Char) : Nat :=
  if c.isDigit then c.toNat - '0'.toNat
  else if 'a' ≤ c && c ≤ 'f' then c.toNat - 'a'.toNat + 10
  else c.toNat - 'A'.toNat + 10

/-- The number with given digits to a base. -/
def digitsValue (base : Nat) (digits : List Char) : Nat :=
  digits.foldl (fun n c => n * base + digitValue c) 0

namespace Numeral

/-- The spelling of a number. -/
def text : Numeral → String
  | decimal digits => String.ofList digits
  | hexadecimal mark digits => String.ofList ('0' :: mark :: digits)

/-- The number. -/
def value : Numeral → Nat
  | decimal digits => digitsValue 10 digits
  | hexadecimal _ digits => digitsValue 16 digits

/-- The greatest number that fits in 64 bits. -/
def maxValue : Nat := 0xFFFFFFFFFFFFFFFF

/-- The number, if it fits in 64 bits. -/
def value? (n : Numeral) : Option Nat := if n.value ≤ maxValue then some n.value else none

end Numeral

end Telemetry.Source
