import Telemetry.Schema.Dialect

/-!
# Message tables

The messages of a dialect and of all it includes, as rows with fingerprint and payload lengths.

* `MessageTables.add`: a further row, with an id and a name of its own.
-/

namespace Telemetry

/-- What tables say of a message. -/
structure TableRow where
  id : Nat
  /-- The dialect that the message comes from. -/
  dialect : String
  name : String
  fingerprint : UInt8
  /-- The length of a legacy payload. -/
  baseLength : Nat
  /-- The length of an extended payload. -/
  fullLength : Nat
deriving DecidableEq

/-- The row of a message of a dialect. -/
def Message.row (m : Message) (dialect : String) : TableRow where
  id := m.id
  dialect
  name := m.name
  fingerprint := m.fingerprint
  baseLength := m.baseLength
  fullLength := m.fullLength

/-- Rows by id, with the ids by name and the fingerprints by id. -/
structure MessageTables where
  rows : SortedMap Nat TableRow := {}
  ids : SortedMap String Nat := {}
  fingerprints : FingerprintTable := {}

namespace MessageTables

/-- Adds a row, unless its id or its name is in the tables. -/
def add (t : MessageTables) (r : TableRow) : Except SchemaError MessageTables :=
  match t.rows.get? r.id, t.ids.get? r.name with
  | some first, _ =>
    .error (.duplicateId r.id s!"{first.dialect}::{first.name}" s!"{r.dialect}::{r.name}")
  | none, some first => .error (.duplicateName r.name first r.id)
  | none, none => .ok
    { rows := t.rows.insert r.id r
      ids := t.ids.insert r.name r.id
      fingerprints := t.fingerprints.insert r.id r.fingerprint }

/-- The tables of rows. -/
def ofRows (rows : List TableRow) : Except SchemaError MessageTables :=
  rows.foldlM add {}

end MessageTables

end Telemetry
