import Montage.Schedule.Basic

/-!
Runs of a workshop. Jobs do what is due in the order in which it became due, until nothing is. A
cancellation waits for the jobs that it stops, and whatever became due before they ended comes
before what it does next. `fuel` bounds the number of things done.
-/

namespace Montage.WorkshopAction

variable {τ κ ω ρ : Type} [Scalar τ]

/-- Does what is due until nothing is. -/
def settle (worker : Worker τ κ ω ρ) : (fuel : Nat) → WorkshopAction τ κ ω ρ Unit
  | 0 => return
  | fuel + 1 => do
    if (← scheduler).agenda.isEmpty then return
    runNext worker
    settle worker fuel

/-- Does a number of things that are due. -/
def runSome (worker : Worker τ κ ω ρ) : (count : Nat) → WorkshopAction τ κ ω ρ Unit
  | 0 => return
  | count + 1 => do
    runNext worker
    runSome worker count

/-- Does what is due now, but not what becomes due by that. -/
def runDue (worker : Worker τ κ ω ρ) : WorkshopAction τ κ ω ρ Unit := do
  runSome worker (← scheduler).agenda.length

/-- Does what is due until some jobs have ended. -/
def awaitEnds (worker : Worker τ κ ω ρ) (jobs : List Nat) :
    (fuel : Nat) → WorkshopAction τ κ ω ρ Unit
  | 0 => return
  | fuel + 1 => do
    let scheduler ← scheduler
    if jobs.all (hasEnded scheduler) || scheduler.agenda.isEmpty then return
    runNext worker
    awaitEnds worker jobs fuel

/-- Waits for jobs that were told to stop. Their ends are noticed behind what was due when the
last of them ended, and answered behind what is due then. -/
def awaitStops (worker : Worker τ κ ω ρ) (jobs : List Nat) (fuel : Nat) :
    WorkshopAction τ κ ω ρ Unit := do
  unless jobs.isEmpty do
    awaitEnds worker jobs fuel
    runDue worker
    runDue worker
  finishCancel

/-- Takes a chunk off the queue or stops its job. Tells whether there was anything to cancel. -/
def cancel (worker : Worker τ κ ω ρ) (index : Int) (fuel : Nat) :
    WorkshopAction τ κ ω ρ Bool := do
  match ← requestCancel index with
  | .answers found => return found
  | .awaits jobs => do
    awaitStops worker jobs fuel
    return true

/-- Empties the queue and stops all jobs. -/
def stopAll (worker : Worker τ κ ω ρ) (fuel : Nat) : WorkshopAction τ κ ω ρ Unit := do
  awaitStops worker (← requestStopAll) fuel

end Montage.WorkshopAction
