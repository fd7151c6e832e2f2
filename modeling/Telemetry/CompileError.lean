import Telemetry.FileError
import Telemetry.Schema.Error
import Telemetry.Source.Fault
import Telemetry.Template.Basic

/-!
# Faults on the way from dialect files to generated modules

Files, their text, what they define and what is made of it can each be at fault.
-/

namespace Telemetry

/-- A fault on the way from dialect files to generated modules. -/
inductive CompileError where
  /-- A file cannot be read or written. -/
  | file (fault : FileError)
  /-- The text of a dialect file is at fault. The path is that of the file, if it has one. -/
  | source (path : Option String) (fault : Source.Fault)
  /-- A definition is at fault. -/
  | schema (fault : SchemaError)
  /-- A template cannot be rendered. -/
  | template (fault : TemplateError)
deriving DecidableEq

namespace CompileError

instance : Coe SchemaError CompileError := ⟨schema⟩

/-- How a fault is reported. -/
def message : CompileError → String
  | file fault => s!"IO: {fault.message}"
  | source none fault => s!"Parse: {fault.message}"
  | source (some path) fault => s!"Parse: {path}: {fault.message}"
  | schema fault => fault.message
  | template fault => s!"Render: {fault.message}"

/-- What lies behind a fault, as reported. -/
def cause? : CompileError → Option String
  | file fault => some fault.message
  | template fault => some fault.message
  | _ => none

end CompileError

/-- A step that can fail for a schema as one that can fail on the whole way. -/
def SchemaError.lift {α : Type} (step : Except SchemaError α) : Except CompileError α :=
  step.mapError .schema

end Telemetry
