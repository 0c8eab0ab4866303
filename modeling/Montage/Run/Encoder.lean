import Montage.Run.Lines
import Montage.Run.Progress
import Montage.Run.Station
import Montage.Run.TailBuffer

/-!
Runs of the encoder. A run reserves its key, starts a process, reads its output and then its
messages line by line, reports progress, and ends with what became of the process. While something
done meanwhile waits, the messages are read on.
-/

namespace Montage

/-- The two streams of a process. -/
inductive Stream where
  | output
  | messages
  deriving DecidableEq, Repr

/-- What was read from a process so far. -/
structure Reading where
  output : List String := []
  tail : TailBuffer
  parser : ProgressReader
  /-- Whether the messages were read, or are being read. -/
  messagesBegun : Bool := false
  /-- What stopped the reading of a stream before its end; the first such thing. -/
  failure : Option Failure := none
  /-- Whether the task was stopped. -/
  stopped : Bool := false

namespace Reading

/-- How many lines of output are kept. -/
def keptLines : Nat := 200

/-- A line of a stream is kept. -/
def keep (reading : Reading) (stream : Stream) (line : String) : Reading :=
  match stream with
  | .output =>
    let output := reading.output ++ [line]
    { reading with output := output.drop (output.length - keptLines) }
  | .messages => { reading with tail := reading.tail.append (line ++ "\n") }

/-- A line of a stream is read. -/
def feed (reading : Reading) (stream : Stream) (line : String) :
    Except NumberError (Option EncoderProgress) × Reading :=
  let (answer, parser) :=
    match stream with
    | .output => reading.parser.feedOutput line
    | .messages => reading.parser.feedMessage line
  (answer, { reading.keep stream line with parser })

/-- Whether the task is stopped, be it from outside or by what was told of the progress. -/
def isStopped (reading : Reading) : Bool :=
  reading.stopped || (match reading.failure with | some .taskCancelled => true | _ => false)

/-- A stream is not read on. -/
def fail (reading : Reading) (failure : Failure) : Reading :=
  { reading with failure := reading.failure <|> some failure }

/-- The lines of output as one text. -/
def outputText (reading : Reading) : String := "\n".intercalate reading.output

/-- The end of the messages. -/
def messageTail (reading : Reading) : String :=
  String.ofList (Text.strip reading.tail.value.toList)

end Reading

/-- How a run ended of which a process came to its end. -/
def RunOutcome.ofExit (isMarked : Bool) (code : Int) (output messageTail : String) :
    RunOutcome :=
  if isMarked then
    { success := false, exitCode := some code, output, messageTail, failure := some .cancelled
      error := some "Cancelled" }
  else if code ≠ 0 then
    { success := false, exitCode := some code, output, messageTail, failure := some .exit
      error := some ("FFmpeg exited with code " ++ toString code ++ ": " ++ messageTail) }
  else { success := true, exitCode := some 0, output, messageTail }

/-- How a run ended that was cancelled before its process was read. -/
def RunOutcome.cancelledEarly (code : Option Int) : RunOutcome where
  success := false
  exitCode := code
  failure := some .cancelled
  error := some "Cancelled"

/-- How a run ended whose process could not be started. -/
def RunOutcome.notStarted (program reason : String) : RunOutcome where
  success := false
  failure := some .spawn
  error := some ("Failed to start " ++ program ++ ": " ++ reason)

namespace SceneAction

variable {σ : Type}

/-- What a run needs besides its command. -/
structure RunOptions (σ : Type) where
  /-- The key under which the run can be cancelled. -/
  key : Option String := none
  duration : Option Double := none
  onUpdate : EncoderProgress → SceneAction σ Unit := fun _ => pure ()
  controls : JobControls σ

/-! ### Reading -/

/-- Reads lines of a stream. Tells whether the stream is read on. -/
def readLines (options : RunOptions σ) (stream : Stream) :
    List String → Reading → SceneAction σ (Bool × Reading)
  | [], reading => return (true, reading)
  | line :: rest, reading => do
    match reading.feed stream line with
    | (.error cause, reading) => return (false, reading.fail (.number cause))
    | (.ok none, reading) => readLines options stream rest reading
    | (.ok (some update), reading) => do
      let failed ← tryCatch (do
        options.onUpdate update
        return none) (fun failure => return some failure)
      match failed with
      | some failure => return (false, reading.fail failure)
      | none => readLines options stream rest reading

/-- Reads a stream from here on. `aside` is done while something done meanwhile waits. -/
def readStream (options : RunOptions σ) (stream : Stream)
    (aside : Reading → SceneAction σ Reading) :
    List Char → List StreamItem → Reading → SceneAction σ Reading
  | pending, [], reading =>
    return (← readLines options stream (Lines.finish pending) reading).2
  | pending, .data bytes :: rest, reading => do
    -- A read that returns nothing ends the stream, whatever would follow.
    if bytes.isEmpty then
      return (← readLines options stream (Lines.finish pending) reading).2
    let (lines, pending) := Lines.feed pending (Text.Utf8.decodeLossy bytes).toList
    match ← readLines options stream lines reading with
    | (false, reading) => return reading
    | (true, reading) => readStream options stream aside pending rest reading
  | pending, .meanwhile what :: rest, reading => do
    match ← perform options.controls what with
    | .stops => return { reading with stopped := true }
    | .done => readStream options stream aside pending rest reading
    | .waits more => do
      -- The other stream is read first, since it need not wait.
      let reading ← aside reading
      more
      readStream options stream aside pending rest reading

/-- Reads the messages, unless that has begun or the task was stopped. -/
def readMessages (options : RunOptions σ) (items : List StreamItem) (reading : Reading) :
    SceneAction σ Reading :=
  if reading.messagesBegun || reading.stopped then return reading
  else readStream options .messages pure [] items { reading with messagesBegun := true }

/-- Reads both streams to their ends. -/
def readBoth (options : RunOptions σ) (plan : ProcessPlan) : SceneAction σ Reading := do
  let messages := readMessages options plan.messages
  let fresh : Reading := {
    tail := { limit := (← station).tailLength }, parser := { duration := options.duration } }
  messages (← readStream options .output messages [] plan.output fresh)

/-! ### Runs -/

/-- Where the start of a process leads. -/
inductive Spawned where
  | process (place : Nat)
  | failed (reason : String)
  | stopped

/-- Starts a process with a plan. What others do meanwhile comes before the process exists; then
the file is written that its last argument names, if the folder of the file is there. -/
def spawn (controls : JobControls σ) (command : List String) (plan : ProcessPlan) :
    SceneAction σ Spawned := do
  note (.spawned command)
  if !(← performAll controls plan.duringSpawn) then return .stopped
  match plan.spawnError with
  | some reason => return .failed reason
  | none => do
    let station ← station
    let target := command.getLast?.getD ""
    let files :=
      if plan.writes then
        ((station.files.writeText target "fake media").toOption).getD station.files
      else station.files
    setStation { station with files, processes := station.processes ++ [plan.signals] }
    return .process station.processes.length

/-- Takes the plan of the next process. -/
def nextPlan : SceneAction σ ProcessPlan := do
  let station ← station
  match station.plans with
  | [] => return {}
  | plan :: rest => do
    setStation { station with plans := rest }
    return plan

/-- A change of the registry for the sake of a key; nothing happens without a key. -/
def forKey (key : Option String) (change : Registry Nat → String → Registry Nat) :
    SceneAction σ Unit := do
  if let some key := key then setRegistry (change (← station).registry key)

/-- Asks the process of a run to end, waits for its end, and kills it if need be. If the task is
stopped while it waits, nothing more is done. Tells whether the process was seen to its end. -/
def seeOut (controls : JobControls σ) (plan : ProcessPlan) (place : Nat) : SceneAction σ Bool := do
  let (awaited, station) := (← station).askToEnd place
  setStation station
  if !awaited then return true
  if !(← performAll controls plan.duringEnd) then return false
  killLate place
  return true

/-- The rest of a run whose task is stopped. -/
def giveUp (options : RunOptions σ) (plan : ProcessPlan) (place : Nat) :
    SceneAction σ RunOutcome := do
  let _ ← seeOut options.controls plan place
  forKey options.key Registry.release
  throw .taskCancelled

/-- Waits for the end of a process; there is no wait for one that has ended. Tells whether the task
goes on. -/
def await (controls : JobControls σ) (plan : ProcessPlan) (place : Nat) : SceneAction σ Bool := do
  if !(← station).isAlive place then return true
  performAll controls plan.duringWait

/-- The rest of a run whose process is at its end. -/
def conclude (options : RunOptions σ) (plan : ProcessPlan) (place : Nat) (reading : Reading) :
    SceneAction σ RunOutcome := do
  let atEnd ← station
  -- A process that a signal has ended keeps the exit code of the signal.
  let code := ((atEnd.processes[place]?).bind (·.exitCode)).getD plan.exitCode
  setStation { atEnd with processes := atEnd.processes.modify place (·.exit plan.exitCode) }
  forKey options.key Registry.release
  let isMarked := (options.key.map (← station).registry.isMarked).getD false
  if isMarked then forKey options.key Registry.forgetCancelled
  return .ofExit isMarked code reading.outputText reading.messageTail

/-- The rest of a run whose process is at a place: reads it, and waits for its end. -/
def watch (options : RunOptions σ) (plan : ProcessPlan) (place : Nat) :
    SceneAction σ RunOutcome := do
  let reading ← readBoth options plan
  if reading.isStopped then return ← giveUp options plan place
  if let some failure := reading.failure then
    forKey options.key Registry.release
    throw failure
  if !(← await options.controls plan place) then return ← giveUp options plan place
  conclude options plan place reading

/-- The process of a run is there: it is attached to the key and watched, or, if the key was
cancelled meanwhile, ended. -/
def attend (options : RunOptions σ) (plan : ProcessPlan) (place : Nat) :
    SceneAction σ RunOutcome := do
  match options.key with
  | none => watch options plan place
  | some key =>
    match (← station).registry.attach key place with
    | .attached registry => do
      setRegistry registry
      watch options plan place
    | .inUse => throw (.keyInUse key)
    | .cancelled => do
      if !(← seeOut options.controls plan place) then throw .taskCancelled
      forKey (some key) Registry.forgetCancelled
      return .cancelledEarly (((← station).processes[place]?).bind (·.exitCode))

/-- Runs the encoder to its end. A key that is in use is an error. -/
def run (options : RunOptions σ) (command : List String) : SceneAction σ RunOutcome := do
  if let some key := options.key then
    match (← station).registry.reserve? key with
    | some registry => setRegistry registry
    | none => throw (.keyInUse key)
  let plan ← nextPlan
  match ← spawn options.controls command plan with
  | .stopped => do
    forKey options.key Registry.release
    throw .taskCancelled
  | .failed reason => do
    forKey options.key fun registry key => (registry.release key).forgetCancelled key
    return .notStarted (command.head?.getD "") reason
  | .process place => attend options plan place

end SceneAction

end Montage
