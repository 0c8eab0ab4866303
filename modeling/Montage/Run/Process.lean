/-!
Child processes and the signals that end them. A process is first asked to end; if it is still
there after a grace period it is killed.
-/

namespace Montage

inductive Signal where
  /-- Asks a process to end. -/
  | term
  | kill
  deriving DecidableEq, Repr

def Signal.name : Signal → String
  | .term => "TERM"
  | .kill => "KILL"

/-- The exit code of a process that a signal has ended. -/
def Signal.exitCode : Signal → Int
  | .term => -15
  | .kill => -9

/-- A process and the way in which it takes signals. -/
structure Process where
  /-- Known once the process has ended. -/
  exitCode : Option Int := none
  ignoresTerm : Bool := false
  /-- Asked to end, the process is found to be gone. -/
  goneOnTerm : Bool := false
  /-- To be killed, the process is found to be gone. -/
  goneOnKill : Bool := false
  deriving DecidableEq, Repr

namespace Process

def hasEnded (process : Process) : Bool := process.exitCode.isSome

/-- Whether a signal finds no process. -/
def isGone (process : Process) : Signal → Bool
  | .term => process.goneOnTerm
  | .kill => process.goneOnKill

/-- Whether a signal ends a process. -/
def heeds (process : Process) (signal : Signal) : Bool :=
  !process.isGone signal && (signal = .kill || !process.ignoresTerm)

/-- A process after a signal. -/
def receive (process : Process) (signal : Signal) : Process :=
  if process.heeds signal then { process with exitCode := some signal.exitCode } else process

/-- A process that ends on its own, unless it has ended before. -/
def exit (process : Process) (code : Int) : Process :=
  { process with exitCode := some (process.exitCode.getD code) }

end Process

end Montage
