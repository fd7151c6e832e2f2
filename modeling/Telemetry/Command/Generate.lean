import Telemetry.Command.Load
import Telemetry.Command.Run
import Telemetry.Generate.Run
import Telemetry.Text.Utf8

/-!
# The command that generates modules

It loads dialect files, generates modules for them and writes these under a directory. Nothing is
written unless all modules could be generated.
-/

namespace Telemetry

variable {m : Type → Type} [Monad m]

/-- The settings of the command. -/
structure GenerateSettings where
  /-- The directory under which modules are written. -/
  out : String := "generated"
  jobs : Nat := 1
  /-- The dialect files. -/
  files : List String
deriving DecidableEq

namespace GenerateSettings

/-- The options of the command. -/
def options : List OptionSpec :=
  [{ name := "out", letter := some 'o' }, { name := "jobs", letter := some 'j' },
    { name := "log" }, { name := "no-color", arity := .flag }]

/-- The greatest number of jobs that can be asked for. -/
def maxJobs : Nat := 0xFFFFFFFFFFFFFFFF

/-- The settings that a command line gives. -/
def ofArguments? (arguments : List String) : Option GenerateSettings := do
  let a ← Arguments.read? options arguments
  let out := (a.value? "out").getD "generated"
  let jobs ← ((a.value? "jobs").map natural?).getD (some 1)
  if out = "" ∨ maxJobs < jobs ∨ a.words = [] ∨ "" ∈ a.words then none
  else return { out, jobs, files := a.words }

end GenerateSettings

namespace Generate

/-- A path under a directory. -/
def under (directory path : String) : String :=
  if directory = "" ∨ directory.endsWith '/' then directory ++ path else s!"{directory}/{path}"

/-- The directory of a path. -/
def parent (path : String) : String :=
  String.ofList ((path.toList.reverse.dropWhile (· ≠ '/')).drop 1).reverse

/-- Writes files under a directory, and gives their number. -/
def writeAll (host : Host m) (directory : String) (written : Nat) :
    List Emission → m (Except CompileError Nat)
  | [] => return .ok written
  | e :: rest => do
    let path := under directory e.path
    match ← host.createDirectories (parent path) with
    | .error fault => return .error (.file fault)
    | .ok () =>
      match ← host.writeFile path (Utf8.encode e.content) with
      | .error fault => return .error (.file fault)
      | .ok () => writeAll host directory (written + 1) rest

/-- Writes all modules under a directory, and gives their number. -/
def Generation.writeTo (host : Host m) (directory : String) (g : Generation) :
    m (Except CompileError Nat) :=
  writeAll host directory 0 g.emissions

end Generate

/-- Loads dialect files, generates modules for them and writes these. -/
def generateFiles (host : Host m) (s : GenerateSettings) : m (Except Failure Unit) := do
  match ← loadSet host (fun path f => f.during s!"registering {path}") s.files with
  | .error f => return .error f
  | .ok set =>
    match ({ jobs := s.jobs } : Generate.Generator).run set with
    | .error e => return .error ((Failure.ofCompileError e).during "generation failed")
    | .ok generation =>
      match ← generation.writeTo host s.out with
      | .error e => return .error ((Failure.ofCompileError e).during s!"writing {s.out}")
      | .ok _ => return .ok ()

/-- The command that generates modules. -/
def generateCommand (host : Host m) (arguments : List String) : m Exit :=
  runWith host (GenerateSettings.ofArguments? arguments) (generateFiles host)

end Telemetry
