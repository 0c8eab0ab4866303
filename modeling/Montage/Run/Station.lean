import Montage.Config
import Montage.Failure
import Montage.Run.Process
import Montage.Run.Registry

/-!
Where processes are started, watched and ended. What a process will do is laid down in a plan: what
it writes to its two streams, how it takes signals, and what others do meanwhile. To cancel a job
is to ask its process to end, to wait, and to kill it if it is still there.
-/

namespace Montage

/-- Something that others do while a process is started or runs. -/
inductive Intervention where
  | cancel (key : String)
  /-- All jobs are cancelled whose keys start with some text. -/
  | cancelFrom (start : String)
  /-- What the process is part of is cancelled as a whole. -/
  | cancelJob
  | listKeys
  /-- What the process is part of is run once more. -/
  | runAgain
  /-- The task that awaits the process is stopped. -/
  | stopTask
  deriving DecidableEq, Repr

/-- What a stream brings: data, or time for others to do something. -/
inductive StreamItem where
  | data (bytes : List UInt8)
  | meanwhile (what : Intervention)
  deriving DecidableEq, Repr

/-- What a process will do. -/
structure ProcessPlan where
  output : List StreamItem := []
  messages : List StreamItem := []
  /-- The exit code that it has unless a signal ends it. -/
  exitCode : Int := 0
  /-- How it takes signals. -/
  signals : Process := {}
  /-- Why it cannot be started. -/
  spawnError : Option String := none
  duringSpawn : List Intervention := []
  /-- What is done while its end is awaited, once both streams were read. -/
  duringWait : List Intervention := []
  /-- What is done while its end is awaited, once its run has asked it to end. -/
  duringEnd : List Intervention := []
  /-- Whether it writes the file that its last argument names. -/
  writes : Bool := true
  deriving Repr

/-- What an observer sees. -/
inductive Happening where
  | spawned (command : List String)
  | signalled (signal : Signal)
  | cancelled (key : String) (found : Bool)
  | cancelledFrom (keys : List String)
  | cancelledJob (found : Option Bool)
  | listed (keys : List String)
  | ranAgain (failure : Failure)

structure Station where
  /-- All processes that were ever started. -/
  processes : List Process := []
  /-- The keys in use, with the places of their processes. -/
  registry : Registry Nat := {}
  /-- How many seconds a process has to end. -/
  grace : Double
  /-- How many characters of the messages of a process are kept. -/
  tailLength : Int
  /-- What the next processes will do. -/
  plans : List ProcessPlan := []
  files : FileTree := {}
  happenings : List Happening := []

/-- A station and the job for which it works. -/
structure Scene (σ : Type) where
  station : Station
  job : σ

abbrev SceneAction (σ α : Type) := EStateM Failure (Scene σ) α

/-- How far an intervention gets at once. -/
inductive Course (σ : Type) where
  | done
  /-- Others may go on before the rest is done. -/
  | waits (rest : SceneAction σ Unit)
  /-- It stops the task itself. -/
  | stops

/-- How a job is cancelled and run once more. -/
structure JobControls (σ : Type) where
  cancel : SceneAction σ (Course σ)
  runAgain : SceneAction σ Unit := pure ()

namespace Station

/-- A station in a configuration. -/
def create (config : Config) (tailLength : Option Int) (files : FileTree) : Station where
  grace := config.cancelGrace
  tailLength := tailLength.getD config.tailLength
  files

/-- A signal for a process. -/
def signal (station : Station) (place : Nat) (signal : Signal) : Station :=
  { station with
    processes := station.processes.modify place (·.receive signal)
    happenings := station.happenings ++ [.signalled signal] }

/-- Whether a process has not ended. -/
def isAlive (station : Station) (place : Nat) : Bool :=
  match station.processes[place]? with
  | some process => !process.hasEnded
  | none => false

/-- Asks a process to end. Tells whether its end is to be awaited. -/
def askToEnd (station : Station) (place : Nat) : Bool × Station :=
  match station.processes[place]? with
  | none => (false, station)
  | some process =>
    if process.hasEnded then (false, station)
    else (!process.isGone .term, station.signal place .term)

/-- Kills a process that did not end within the grace period. -/
def killLate (station : Station) (place : Nat) : Station :=
  if station.isAlive place || station.grace ≤ Scalar.zero then station.signal place .kill
  else station

/-- Asks a process to end, waits for its end, and kills it if need be. -/
def terminate (station : Station) (place : Nat) : Station :=
  let (awaited, station) := station.askToEnd place
  if awaited then station.killLate place else station

end Station

/-! ### Interventions -/

namespace SceneAction

variable {σ : Type}

def station : SceneAction σ Station := return (← get).station

def setStation (station : Station) : SceneAction σ Unit :=
  modify fun scene => { scene with station }

def job : SceneAction σ σ := return (← get).job

def setJob (job : σ) : SceneAction σ Unit := modify fun scene => { scene with job }

def setRegistry (registry : Registry Nat) : SceneAction σ Unit := do
  setStation { (← station) with registry }

/-- A change of the files that may fail. -/
def onFiles (change : FileTree → Except FileError FileTree) : SceneAction σ Unit := do
  let station ← station
  match change station.files with
  | .ok files => setStation { station with files }
  | .error cause => throw (.file cause)

/-- Something happens that an observer sees. -/
def note (what : Happening) : SceneAction σ Unit := do
  let station ← station
  setStation { station with happenings := station.happenings ++ [what] }

def terminate (place : Nat) : SceneAction σ Unit := do
  setStation ((← station).terminate place)

def killLate (place : Nat) : SceneAction σ Unit := do
  setStation ((← station).killLate place)

/-- Where the cancellation of a key leads at once. -/
inductive CancelStart where
  | notFound
  | done
  /-- The end of a process is awaited. -/
  | awaits (place : Nat)

/-- Takes a key out of the registry and asks its process to end. -/
def beginCancel (key : String) : SceneAction σ CancelStart := do
  let station ← station
  match station.registry.cancel? key with
  | none => return .notFound
  | some (none, registry) => do
    setRegistry registry
    return .done
  | some (some place, registry) => do
    let (awaited, station) := { station with registry }.askToEnd place
    setStation station
    return if awaited then .awaits place else .done

/-- Cancels a key. Tells whether it was in use. -/
def cancel (key : String) : SceneAction σ Bool := do
  match ← beginCancel key with
  | .notFound => return false
  | .done => return true
  | .awaits place => do
    killLate place
    return true

/-- Cancels keys side by side: all processes are asked to end before the first is killed. -/
def cancelEach (keys : List String) : SceneAction σ Unit := do
  -- One process may end while another is waited for.
  let starts ← keys.mapM beginCancel
  for start in starts do
    if let .awaits place := start then killLate place

/-- Cancels all keys that start with some text, and gives them. -/
def cancelFrom (start : String) : SceneAction σ (List String) := do
  let keys := (← station).registry.keysFrom start
  cancelEach keys
  return keys

/-- The cancellation of a key, with what is done behind it. -/
def cancelThen (key : String) (after : Bool → SceneAction σ Unit) : SceneAction σ (Course σ) := do
  match ← beginCancel key with
  | .notFound => do
    after false
    return .done
  | .done => do
    after true
    return .done
  | .awaits place => return .waits do
    killLate place
    after true

/-- What others do, as far as it gets at once. -/
def perform (controls : JobControls σ) : Intervention → SceneAction σ (Course σ)
  | .cancel key => cancelThen key fun found => note (.cancelled key found)
  | .cancelFrom start => do
    let keys := (← station).registry.keysFrom start
    if keys.isEmpty then
      note (.cancelledFrom [])
      return .done
    return .waits do
      cancelEach keys
      note (.cancelledFrom keys)
  | .cancelJob => controls.cancel
  | .listKeys => do
    note (.listed (← station).registry.keys)
    return .done
  | .runAgain => do
    tryCatch controls.runAgain fun failure => note (.ranAgain failure)
    return .done
  | .stopTask => return .stops

/-- What others do, one after the other, until the task is stopped. Tells whether it goes on. -/
def performAll (controls : JobControls σ) : List Intervention → SceneAction σ Bool
  | [] => return true
  | what :: rest => do
    match ← perform controls what with
    | .stops => return false
    | .done => performAll controls rest
    | .waits more => do
      more
      performAll controls rest

end SceneAction

end Montage
