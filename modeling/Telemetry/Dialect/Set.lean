import Telemetry.Dispatch.Table
import Telemetry.Schema.Dialect

/-!
# Sets of dialects

Dialects that may include each other, in the order in which they were added.

* `DialectSet.closure`: a dialect and all that it includes, includes first.
* `DialectSet.dispatchTable`: the dispatch table of some dialects and all that they include.
-/

namespace Telemetry

/-- Dialects with names of their own. -/
structure DialectSet where
  /-- The dialects in the order in which they were added. -/
  dialects : List Dialect := []

/-- The state of a walk along includes. -/
structure Walk where
  /-- The names of the dialects that the walk has come to. -/
  visited : List String := []
  /-- The dialects that it is done with, in order. -/
  done : List Dialect := []

namespace DialectSet

/-- The dialect with a name. -/
def get? (s : DialectSet) (name : String) : Option Dialect := s.dialects.find? (·.name == name)

/-- Adds a dialect, unless its name is in the set. -/
def insert (s : DialectSet) (d : Dialect) : Except SchemaError DialectSet :=
  match s.get? d.name with
  | some _ => .error (.duplicateDialect d.name)
  | none => .ok { s with dialects := s.dialects ++ [d] }

/-- Walks from a dialect along its includes and puts it behind them. A walk visits every dialect
once, so it never goes deeper than there are dialects. -/
def visit (s : DialectSet) : (depth : Nat) → Dialect → Walk → Except SchemaError Walk
  | 0, _, walk => .ok walk
  | depth + 1, d, walk =>
    if d.name ∈ walk.visited then .ok walk
    else do
      let walk ← d.includes.foldlM (fun walk name =>
        match s.get? name with
        | some inner => s.visit depth inner walk
        | none => .error (.unknownInclude d.name name))
        { walk with visited := d.name :: walk.visited }
      return { walk with done := walk.done ++ [d] }

/-- A dialect and all that it includes, directly or not, each once and includes first. -/
def closure (s : DialectSet) (name : String) : Except SchemaError (List Dialect) :=
  match s.get? name with
  | none => .error (.unknownDialect name)
  | some d => do
    let walk ← s.visit (s.dialects.length + 1) d {}
    return walk.done

/-- The dispatch entry of a message of a dialect. -/
def entry (d : Dialect) (m : Message) : Except SchemaError DispatchEntry := do
  let plan ← LayoutPlan.ofMessage m d.flags.sortFields
  return { dialect := d.name, name := m.name, fingerprint := m.fingerprint
           order := d.flags.order, plan }

/-- Adds the messages of a dialect to a table. -/
def addDialect (table : DispatchTable) (d : Dialect) : Except SchemaError DispatchTable :=
  d.messages.foldlM (fun table m => do table.add (← entry d m)) table

/-- Adds the messages of dialects to a table, leaving out dialects that were `seen` before. -/
def addNew (state : List String × DispatchTable) (d : Dialect) :
    Except SchemaError (List String × DispatchTable) := do
  let (seen, table) := state
  if d.name ∈ seen then return (seen, table)
  else return (d.name :: seen, ← addDialect table d)

/-- The dispatch table of some dialects and all that they include. -/
def dispatchTable (s : DialectSet) (names : List String) : Except SchemaError DispatchTable := do
  let (_, table) ← names.foldlM (fun state name => do
    (← s.closure name).foldlM addNew state) ([], {})
  return table

end DialectSet

end Telemetry
