import Telemetry.Number.Binary
import Telemetry.ScalarType

/-!
# Field values

The values that fields are encoded from and decoded to.

* `Value`: an integer of some kind, a binary number, a text, or a list.
* `Value.toInt?`, `Value.toUInt64?`, `Value.toInt64?`: the integer of a value.
* `Value.toBinary64?`, `Value.toBinary32?`: the binary number of a value.
* `FieldValues`: values by field name.
-/

namespace Telemetry

/-- A field value. -/
inductive Value where
  /-- An integer, in the range of its kind. -/
  | integer (kind : IntKind) (n : Int) (holds : kind.Holds n)
  | float (x : Binary32)
  | double (x : Binary64)
  | text (s : String)
  | list (items : List Value)
deriving Inhabited

/-- What sort of value a value is. -/
inductive ValueKind where
  | integer (kind : IntKind)
  | float
  | double
  | text
  | list
deriving DecidableEq

/-- The name of a sort of values. -/
def ValueKind.name : ValueKind → String
  | integer kind => kind.name
  | float => "float"
  | double => "double"
  | text => "text"
  | list => "list"

namespace Value

/-- The integer of a kind that last bytes stand for. -/
def wrap (kind : IntKind) (n : Nat) : Value := .integer kind (kind.wrap n) (kind.holds_wrap n)

/-- Zero, which stands in for a missing value. -/
def zero : Value := .integer .u8 0 (by decide)

/-- The sort of a value. -/
def kind : Value → ValueKind
  | integer k _ _ => .integer k
  | float _ => .float
  | double _ => .double
  | text _ => .text
  | list _ => .list

/-- The integer of an integer value. -/
def toInt? : Value → Option Int
  | integer _ n _ => some n
  | _ => none

/-- The integer of a value as an unsigned word of 64 bits. Signed integers may be out of its
range. -/
def toUInt64? : Value → Option Int
  | integer kind n _ => if kind.isSigned then IntKind.u64.fit? n else some n
  | _ => none

/-- The integer of a value as a signed word of 64 bits. Unsigned words of 64 bits may be out of its
range. -/
def toInt64? : Value → Option Int
  | integer kind n _ => if kind = .u64 then IntKind.i64.fit? n else some n
  | _ => none

/-- The number of a value with 64 bits. Integers beyond the signed words of 64 bits have none. -/
def toBinary64? : Value → Option Binary64
  | float x => some x.widen
  | double x => some x
  | v => v.toInt64?.map .ofInt

/-- The number of a value with 32 bits. An integer is rounded to 64 bits first. -/
def toBinary32? : Value → Option Binary32
  | float x => some x
  | v => v.toBinary64?.map (·.narrow)

/-- The text of a text value. -/
def toText? : Value → Option String
  | text s => some s
  | _ => none

/-- The items of a list value. -/
def toList? : Value → Option (List Value)
  | list items => some items
  | _ => none

end Value

/-- Values by field name. -/
abbrev FieldValues := List (String × Value)

/-- The value of a field. -/
def FieldValues.get? (values : FieldValues) (field : String) : Option Value := values.lookup field

end Telemetry
