import Telemetry.Dispatch.Table
import Telemetry.Value.Text

/-!
# Decoded messages as text

A decoded message over several lines, one field after the other: in wire order if the table knows
the message, else by name.
-/

namespace Telemetry

/-- Puts a name at its place among ascending names. -/
def placeName (name : String) : List String → List String
  | [] => [name]
  | x :: rest => if name ≤ x then name :: x :: rest else x :: placeName name rest

/-- Names in ascending order. -/
def sortNames (names : List String) : List String := names.foldr placeName []

/-- The fields of a message in the order in which they are shown. -/
def DispatchTable.fieldOrder (t : DispatchTable) (m : DecodedMessage) : List String :=
  match t.get? m.id with
  | some e => e.plan.steps.map (·.field)
  | none => sortNames (m.values.map (·.1))

/-- A decoded message as text. -/
def DispatchTable.dump (t : DispatchTable) (m : DecodedMessage) : String :=
  let fields := (t.fieldOrder m).filterMap fun name =>
    (m.values.get? name).map fun v => s!"  {name}: {Value.trimmed (v.dump 1)}"
  String.intercalate "\n" (s!"{m.dialect}::{m.name} ({m.id}) \x7b" :: fields ++ ["\x7d"])

end Telemetry
