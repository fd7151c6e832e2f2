import Telemetry.CompileError

/-!
# Failures of commands

A command that fails says what it was doing, if that is not clear, and why that failed.
-/

namespace Telemetry

/-- Why a command fails. -/
structure Failure where
  message : String
  /-- What lies behind it, step by step. -/
  causes : List String := []
deriving DecidableEq

namespace Failure

/-- A failure for a fault on the way from dialect files to generated modules. -/
def ofCompileError (e : CompileError) : Failure := ⟨e.message, e.cause?.toList⟩

/-- A failure for a fault of a file. -/
def ofFileError (e : FileError) : Failure := ⟨e.message, []⟩

/-- A failure while doing something. -/
def during (activity : String) (f : Failure) : Failure := ⟨activity, f.message :: f.causes⟩

/-- A text with `first` before its first line and `other` before all other lines. -/
def indented (first other text : String) : String :=
  first ++ String.intercalate ("\n" ++ other) (text.splitOn "\n")

/-- The lines of causes: a single one indented, several numbered. -/
def causeLines : List String → List String
  | [] => []
  | [cause] => [indented "    " "    " cause]
  | causes => causes.zipIdx.map fun (cause, i) =>
    let number := toString i
    indented (String.ofList (List.replicate (5 - number.length) ' ') ++ number ++ ": ")
      "       " cause

/-- The report on a failure. -/
def report (f : Failure) : String :=
  let causes := match causeLines f.causes with
    | [] => ""
    | lines => "\n\nCaused by:\n" ++ String.intercalate "\n" lines
  s!"Error: {f.message}{causes}\n"

end Failure

end Telemetry
