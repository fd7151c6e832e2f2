import Telemetry.Capture.Summary
import Telemetry.Command.Load
import Telemetry.Command.Run
import Telemetry.Text.Utf8

/-!
# The command that decodes captures

It loads dialect files and decodes what a capture holds of their messages. The messages can be
dumped, and a summary follows.
-/

namespace Telemetry

variable {m : Type → Type} [Monad m]

/-- Where messages are dumped. -/
inductive DumpTarget where
  /-- They are printed. -/
  | printed
  | file (path : String)
deriving DecidableEq

/-- The settings of the command. -/
structure DecodeSettings where
  capture : String
  /-- The dialect files. -/
  dialects : List String
  /-- The port that datagrams have to come from or go to. -/
  port : Option Nat := none
  dump : Option DumpTarget := none
deriving DecidableEq

namespace DecodeSettings

/-- The options of the command. -/
def options : List OptionSpec :=
  [{ name := "port" }, { name := "dump", arity := .optionalValue "-" }, { name := "log" }]

/-- A port in decimal digits. -/
def port? (text : String) : Option Nat :=
  (integer? text).bind fun n => if 0 ≤ n ∧ n < 65536 then some n.toNat else none

/-- Where messages are dumped by the value of the option. -/
def dumpTarget? (value : String) : Option DumpTarget :=
  if value = "" then none
  else if value = "-" then some .printed
  else some (.file value)

/-- The value of an option that need not be there, but has to be read if it is. -/
def optionally {α : Type} (read : String → Option α) : Option String → Option (Option α)
  | none => some none
  | some text => (read text).map some

/-- The settings that a command line gives. -/
def ofArguments? (arguments : List String) : Option DecodeSettings := do
  let a ← Arguments.read? options arguments
  let port ← optionally port? (a.value? "port")
  let dump ← optionally dumpTarget? (a.value? "dump")
  match a.words with
  | capture :: dialects =>
    if capture = "" ∨ dialects = [] ∨ "" ∈ dialects then none
    else return { capture, dialects, port, dump }
  | [] => none

end DecodeSettings

/-- Makes the file that messages are dumped to. -/
def openDump (host : Host m) : Option DumpTarget → m (Except Failure Unit)
  | some (.file path) => do
    match ← host.writeFile path [] with
    | .error e => return .error ((Failure.ofFileError e).during s!"creating dump file {path}")
    | .ok () => return .ok ()
  | _ => return .ok ()

/-- Dumps messages. -/
def writeDump (host : Host m) (text : String) : Option DumpTarget → m (Except Failure Unit)
  | none => return .ok ()
  | some .printed => do
    host.print text
    return .ok ()
  | some (.file path) => do
    return (← host.writeFile path (Utf8.encode text)).mapError .ofFileError

/-- The content of a capture file, which has to have the bytes that tell its format. -/
def openCapture (host : Host m) (path : String) : m (Except Failure (List UInt8)) := do
  match ← host.readFile path with
  | .error .isADirectory => return .error (.ofFileError .isADirectory)
  | .error e => return .error ((Failure.ofFileError e).during s!"opening {path}")
  | .ok bytes =>
    if bytes.length < 4 then return .error (.ofFileError .tooShort) else return .ok bytes

/-- Decodes a capture with a dispatch table. What was decoded before a fault is dumped. -/
def decodeCapture (host : Host m) (s : DecodeSettings) (names : List String)
    (table : DispatchTable) : m (Except Failure Unit) := do
  match ← openDump host s.dump with
  | .error f => return .error f
  | .ok () =>
    match ← openCapture host s.capture with
    | .error f => return .error f
    | .ok bytes =>
      let (frames, fault) := readCapture bytes
      let (summary, dumped) := CaptureSummary.ofFrames table s.port frames
      match ← writeDump host dumped s.dump with
      | .error f => return .error f
      | .ok () =>
        match fault with
        | some fault => return .error ⟨fault.message, []⟩
        | none =>
          host.report (summary.report s.capture names)
          return .ok ()

/-- Loads dialect files and decodes a capture. -/
def decodeFiles (host : Host m) (s : DecodeSettings) : m (Except Failure Unit) := do
  match ← loadSet host (fun _ f => f) s.dialects with
  | .error f => return .error f
  | .ok set =>
    let names := set.dialects.map (·.name)
    match set.dispatchTable names with
    | .error e => return .error (.ofCompileError (.schema e))
    | .ok table => decodeCapture host s names table

/-- The command that decodes captures. -/
def decodeCommand (host : Host m) (arguments : List String) : m Exit :=
  runWith host (DecodeSettings.ofArguments? arguments) (decodeFiles host)

end Telemetry
