import Telemetry.Command.Arguments
import Telemetry.Command.Failure
import Telemetry.Command.Host

/-!
# Running commands

A command line either does not fit, which gives the exit code 2, or gives settings for an action,
which succeeds or fails.
-/

namespace Telemetry

variable {m : Type → Type} [Monad m]

/-- How a command ends. -/
inductive Exit where
  | success
  | failure
  /-- The command line does not fit. -/
  | usage
deriving DecidableEq

/-- The exit code of a command. -/
def Exit.code : Exit → Nat
  | success => 0
  | failure => 1
  | usage => 2

/-- Ends an action, with a report if it failed. -/
def finish (host : Host m) : Except Failure Unit → m Exit
  | .ok () => return .success
  | .error f => do
    host.report f.report
    return .failure

/-- Runs an action with the settings that a command line gives. -/
def runWith {σ : Type} (host : Host m) (settings : Option σ)
    (action : σ → m (Except Failure Unit)) : m Exit := do
  match settings with
  | none => return .usage
  | some s => finish host (← action s)

end Telemetry
