import Montage.Json.Basic

/-!
How a run of the encoder ended.
-/

namespace Montage

/-- Why a run was no success. -/
inductive RunFailure where
  /-- The encoder could not be started. -/
  | spawn
  /-- The encoder ended with a status other than zero. -/
  | exit
  | cancelled
  deriving DecidableEq, Repr

def RunFailure.name : RunFailure → String
  | .spawn => "spawn"
  | .exit => "exit"
  | .cancelled => "cancelled"

structure RunOutcome where
  success : Bool
  exitCode : Option Int := none
  output : String := ""
  messageTail : String := ""
  failure : Option RunFailure := none
  error : Option String := none
  deriving DecidableEq, Repr

namespace RunOutcome

def cancelled (result : RunOutcome) : Bool := result.failure = some .cancelled

/-- The fields that a report of a run shows; its output is not among them. -/
def details (result : RunOutcome) : List (String × Json Double) := [
  ("success", .bool result.success),
  ("exit_code", .ofInt? result.exitCode),
  ("stderr_tail", .text result.messageTail),
  ("error_kind", .ofText? (result.failure.map RunFailure.name)),
  ("error", .ofText? result.error)]

end RunOutcome

end Montage
