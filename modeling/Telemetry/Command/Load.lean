import Telemetry.Command.Failure
import Telemetry.Command.Host
import Telemetry.Dialect.Set
import Telemetry.Source.Dialect

/-!
# Loading dialects

* `loadDialect`: the dialect of a file.
* `loadSet`: the dialects of files, in their order.
-/

namespace Telemetry

variable {m : Type → Type} [Monad m]

/-- The dialect of a file. -/
def loadDialect (host : Host m) (path : String) : m (Except CompileError Dialect) := do
  match ← host.readFile path with
  | .error e => return .error (.file e)
  | .ok bytes => return Dialect.ofBytes path bytes

/-- Adds the dialects of files to a set. `registering` says what is reported of a dialect that the
set does not take. -/
def loadInto (host : Host m) (registering : String → Failure → Failure) (set : DialectSet) :
    List String → m (Except Failure DialectSet)
  | [] => return .ok set
  | path :: rest => do
    match ← loadDialect host path with
    | .error e => return .error ((Failure.ofCompileError e).during s!"loading {path}")
    | .ok dialect =>
      match set.insert dialect with
      | .error e => return .error (registering path (.ofCompileError (.schema e)))
      | .ok set => loadInto host registering set rest

/-- The dialects of files, in their order. -/
def loadSet (host : Host m) (registering : String → Failure → Failure) (paths : List String) :
    m (Except Failure DialectSet) :=
  loadInto host registering {} paths

end Telemetry
