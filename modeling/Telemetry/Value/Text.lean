import Telemetry.Number.FloatText
import Telemetry.Number.Hex
import Telemetry.Text.Blank
import Telemetry.Text.Quoted
import Telemetry.Value

/-!
# Values as text

Values are shown in three ways: a list with the sort of each of its items (`Value.detail`), a
single value (`Value.scalarText`), and a value over several lines with the items of lists numbered
(`Value.dump`).
-/

namespace Telemetry

/-- The sort of an integer as a detailed list shows it. -/
def IntKind.detailName : IntKind → String
  | u8 => "U8"
  | u16 => "U16"
  | u32 => "U32"
  | u64 => "U64"
  | i8 => "I8"
  | i16 => "I16"
  | i32 => "I32"
  | i64 => "I64"
  | char => "Char"

/-- The text of a 32-bit number. -/
def Binary32.text (layout : DecimalLayout) (x : Binary32) : String :=
  layout.text .single x.bits.toNat

/-- The text of a 64-bit number. -/
def Binary64.text (layout : DecimalLayout) (x : Binary64) : String :=
  layout.text .double x.bits.toNat

/-- The text of a character byte: the character if it is visible or a space, its code otherwise. -/
def charText (n : Nat) : String :=
  if 0x20 ≤ n && n ≤ 0x7E then s!"'{Char.ofNat n}'" else s!"'\\x{Hex.lower 2 n}'"

namespace Value

mutual

/-- A value with its sort. -/
def detail : Value → String
  | integer k n _ => s!"{k.detailName}({n})"
  | float x => s!"Float({x.text .pointed})"
  | double x => s!"Double({x.text .pointed})"
  | text s => s!"Text({Text.quoted s})"
  | list items => "List([" ++ String.intercalate ", " (details items) ++ "])"

/-- The items of a list, each with its sort. -/
def details : List Value → List String
  | [] => []
  | v :: rest => v.detail :: details rest

end

/-- A single value as text. -/
def scalarText : Value → String
  | integer .char n _ => charText n.toNat
  | integer _ n _ => toString n
  | float x => x.text .plain
  | double x => x.text .plain
  | text s => Text.quoted s
  | list items => (list items).detail

/-- Two spaces per level of indentation. -/
def indentation (level : Nat) : String := String.ofList (List.replicate (2 * level) ' ')

/-- A text without the blanks at its start. -/
def trimmed (s : String) : String := String.ofList (Text.trimStart s.toList)

mutual

/-- A value over several lines. A list of one item is shown as that item. -/
def dump (level : Nat) : Value → String
  | list [] => indentation level ++ "[]"
  | list [v] => v.dump level
  | list (v :: w :: rest) =>
    let items := dumpItems level 0 (v :: w :: rest)
    String.intercalate "\n"
      ((indentation level ++ "[") :: items ++ [indentation level ++ "]"])
  | v => indentation level ++ v.scalarText

/-- The items of a list from number `i` on, a line and its continuations each. -/
def dumpItems (level i : Nat) : List Value → List String
  | [] => []
  | v :: rest =>
    s!"{indentation level}  [{i}] {trimmed (v.dump (level + 1))}" :: dumpItems level (i + 1) rest

end

end Value

end Telemetry
