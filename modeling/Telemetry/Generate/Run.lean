import Telemetry.CompileError
import Telemetry.Dialect.Set
import Telemetry.Generate.Emission

/-!
# Generating modules for a set of dialects

Every dialect of a set gets modules for its own messages and enumerations and one that ties them
together with what it includes. A last pair of modules is common to all.

* `Generator.assemble`: what is generated for one dialect.
* `Generator.run`: what is generated for a set.
-/

namespace Telemetry.Generate

/-- The settings of a generator. -/
structure Generator where
  /-- Fills the templates. -/
  render : Renderer := Template.render
  /-- The path of the library that generated modules use. -/
  runtime : String := "mavgen"
  /-- The number of parts into which the messages of a dialect are split for the work on them. -/
  jobs : Nat := 1

/-- A message with its plan and its module. -/
structure MessageUnit where
  id : Nat
  name : String
  fingerprint : UInt8
  plan : LayoutPlan
  emission : Emission
deriving DecidableEq

/-- What is generated for one dialect. -/
structure DialectOutput where
  name : String
  /-- The messages of the dialect and of all it includes. -/
  tables : MessageTables
  /-- The messages of the dialect. -/
  units : List MessageUnit
  /-- The modules of its enumerations. -/
  enums : List Emission
  /-- The module of the dialect itself. -/
  module : Emission

/-- What is generated for a set of dialects. -/
structure Generation where
  dialects : List DialectOutput
  /-- All messages of the set. -/
  dispatch : DispatchTable
  framing : Emission
  root : Emission

/-- The modules of a dialect. -/
def DialectOutput.emissions (o : DialectOutput) : List Emission :=
  o.units.map (·.emission) ++ o.enums ++ [o.module]

/-- All modules: dialect by dialect, then the common ones. -/
def Generation.emissions (g : Generation) : List Emission :=
  g.dialects.flatMap (·.emissions) ++ [g.framing, g.root]

/-- The dispatch entry of a message of a dialect. -/
def MessageUnit.entry (d : Dialect) (u : MessageUnit) : DispatchEntry where
  dialect := d.name
  name := u.name
  fingerprint := u.fingerprint
  order := d.flags.order
  plan := u.plan

/-- Splits a list into stretches of `size + 1` elements, of which the last may be shorter. -/
def stretches {α : Type} (size : Nat) (xs : List α) : List (List α) :=
  match xs with
  | [] => []
  | x :: rest => (x :: rest.take size) :: stretches size (rest.drop size)
termination_by xs.length
decreasing_by simp only [List.length_drop, List.length_cons]; omega

namespace Generator

/-- A step that can fail for a template as one that can fail on the whole way. -/
def liftTemplate {α : Type} (step : Except TemplateError α) : Except CompileError α :=
  step.mapError .template

/-- Plans a message and makes its module. -/
def buildUnit (g : Generator) (d : Dialect) (m : Message) : Except CompileError MessageUnit := do
  let plan ← SchemaError.lift (LayoutPlan.ofMessage m d.flags.sortFields)
  let emission ← liftTemplate (emitMessage g.render g.runtime d.name m plan)
  return { id := m.id, name := m.name, fingerprint := m.fingerprint, plan, emission }

/-- The messages of a dialect, with work split into `jobs` parts of about the same size. Of several
messages that fail, the first counts. -/
def buildUnits (g : Generator) (d : Dialect) : Except CompileError (List MessageUnit) :=
  let count := d.messages.length
  if g.jobs ≤ 1 ∨ count < 2 then d.messages.mapM (g.buildUnit d)
  else do
    let size := (count + g.jobs - 1) / g.jobs
    let parts ← (stretches (size - 1) d.messages).mapM fun part => part.mapM (g.buildUnit d)
    return parts.flatten

/-- The tables of some dialects. -/
def tablesOf (dialects : List Dialect) : Except SchemaError MessageTables :=
  MessageTables.ofRows (dialects.flatMap fun d => d.messages.map (·.row d.name))

/-- Checks that tables have a fingerprint for a message. -/
def checkFingerprint (tables : MessageTables) (u : MessageUnit) : Except SchemaError Unit :=
  if tables.fingerprints.contains u.id then .ok () else .error (.missingFingerprint u.id)

/-- What is generated for the dialect with a name. -/
def assemble (g : Generator) (set : DialectSet) (name : String) :
    Except CompileError DialectOutput := do
  let closure ← SchemaError.lift (set.closure name)
  match set.get? name with
  | none => throw (.schema (.unknownDialect name))
  | some d =>
    let tables ← SchemaError.lift (tablesOf closure)
    let units ← g.buildUnits d
    SchemaError.lift (units.forM (checkFingerprint tables))
    let enums ← liftTemplate (d.enums.mapM (emitEnum g.render d.name))
    let module ← liftTemplate (emitDialect g.render g.runtime d tables.rows.values)
    return { name := d.name, tables, units, enums, module }

/-- Generates the modules of a further dialect and adds its messages to a dispatch table. -/
def addOutput (g : Generator) (set : DialectSet) (state : List DialectOutput × DispatchTable)
    (d : Dialect) : Except CompileError (List DialectOutput × DispatchTable) := do
  let output ← g.assemble set d.name
  let dispatch ← SchemaError.lift
    (output.units.foldlM (fun table u => table.add (u.entry d)) state.2)
  return (state.1 ++ [output], dispatch)

/-- The row of an entry of a dispatch table. -/
def entryRow (id : Nat) (e : DispatchEntry) : TableRow where
  id
  dialect := e.dialect
  name := e.name
  fingerprint := e.fingerprint
  baseLength := e.plan.baseLength
  fullLength := e.plan.fullLength

/-- What is generated for a set of dialects. -/
def run (g : Generator) (set : DialectSet) : Except CompileError Generation := do
  let (dialects, dispatch) ← set.dialects.foldlM (g.addOutput set) ([], {})
  let rows := dispatch.entries.entries.map fun (id, e) => entryRow id e
  let framing ← liftTemplate (emitFraming g.render g.runtime rows)
  let root ← liftTemplate (emitRoot g.render (set.dialects.map (·.name)))
  return { dialects, dispatch, framing, root }

end Generator

end Telemetry.Generate
