import Telemetry.Command.Decode
import Telemetry.Command.Generate

/-!
# The command line

`telemetry generate` generates modules from dialect files, and `telemetry decode` decodes captures.
-/

namespace Telemetry

/-- A fault of the system as one of a file. -/
def FileError.ofSystem : IO.Error → FileError
  | .noFileOrDirectory .. => .missing
  | .inappropriateType .. => .isADirectory
  | .alreadyExists .. => .alreadyThere
  | e => .other (toString e)

/-- Does something with files. -/
def withFiles {α : Type} (action : IO α) : IO (Except FileError α) := do
  match ← action.toBaseIO with
  | .ok a => return .ok a
  | .error e => return .error (.ofSystem e)

/-- Runs commands on the system. -/
def systemHost : Host IO where
  readFile path := withFiles do return (← IO.FS.readBinFile path).toList
  createDirectories path := withFiles (IO.FS.createDirAll path)
  writeFile path content := withFiles (IO.FS.writeBinFile path ⟨content.toArray⟩)
  print := IO.print
  report := IO.eprint

/-- How the commands are called. -/
def usage : String :=
  "usage: telemetry generate [--out DIR] [--jobs N] FILE...\n" ++
  "       telemetry decode [--port N] [--dump[=FILE]] CAPTURE DIALECT...\n"

end Telemetry

open Telemetry in
def main (arguments : List String) : IO UInt32 := do
  let exit ← match arguments with
    | "generate" :: rest => generateCommand systemHost rest
    | "decode" :: rest => decodeCommand systemHost rest
    | _ => pure Exit.usage
  if exit = .usage then IO.eprint usage
  return exit.code.toUInt32
