import Montage.Compose.Basic
import Montage.Decode.Basic
import Montage.Files.Tree
import Montage.Run.Outcome

/-!
Everything that can go wrong, as causes. A render failure is reported with a message, a code and
details; the other failures speak for themselves.
-/

namespace Montage

/-- What a report says in place of what its kind of failure says. -/
structure ReportOverride where
  message : Option String := none
  code : Option String := none
  details : List (String × Json Double) := []

/-- A failure that is reported to the caller of a render. -/
inductive RenderFailure where
  | general (override : ReportOverride)
  /-- Clips without media. -/
  | diagnostics (found : List String)
  | nothingToRender (message : Option String)
  | process (message : Option String) (result : Option RunOutcome)
  | spawn (message : Option String) (result : Option RunOutcome)
  | exit (code : Option Int) (messageTail : String) (result : Option RunOutcome)
  | cancelled (message : Option String) (result : Option RunOutcome)
  | chunkNotFound (index : Option Int)
  | chunkTransition (index : Int) (source target : String)
  | manifest (override : ReportOverride)
  | probe (override : ReportOverride)

namespace RenderFailure

/-- The message of a failure that has none of its own. -/
def defaultMessage : RenderFailure → String
  | .general _ => "An unexpected error occurred"
  | .diagnostics _ => "Failed to compile filter graph"
  | .nothingToRender _ => "Nothing to render"
  | .process .. => "Render process failed"
  | .spawn .. => "Failed to start render process"
  | .exit .. => "Render process exited with an error"
  | .cancelled .. => "Render cancelled"
  | .chunkNotFound _ => "Chunk not found"
  | .chunkTransition .. => "Invalid chunk state transition"
  | .manifest _ => "Cache manifest error"
  | .probe _ => "Failed to probe media file"

/-- The code of a kind of failure. -/
def defaultCode : RenderFailure → String
  | .general _ => "INTERNAL_ERROR"
  | .diagnostics _ => "COMPILE_FAILED"
  | .nothingToRender _ => "NOTHING_TO_RENDER"
  | .process .. => "PROCESS_FAILED"
  | .spawn .. => "PROCESS_SPAWN_FAILED"
  | .exit .. => "PROCESS_EXIT_FAILED"
  | .cancelled .. => "RENDER_CANCELLED"
  | .chunkNotFound _ => "CHUNK_NOT_FOUND"
  | .chunkTransition .. => "INVALID_CHUNK_TRANSITION"
  | .manifest _ => "MANIFEST_ERROR"
  | .probe _ => "MEDIA_PROBE_FAILED"

/-- An exit code as it stands in messages. -/
def exitCodeText : Option Int → String
  | some code => toString code
  | none => "None"

/-- The message that a failure brings along; an empty one counts as none. -/
def ownMessage : RenderFailure → Option String
  | .general o | .manifest o | .probe o => o.message
  | .diagnostics found => some ("; ".intercalate found)
  | .nothingToRender message => message
  | .process message _ | .spawn message _ | .cancelled message _ => message
  | .exit code messageTail _ =>
    let base := "FFmpeg exited with code " ++ exitCodeText code
    some (if messageTail = "" then base else base ++ ": " ++ messageTail)
  | .chunkNotFound index => index.map fun i => "Chunk not found: " ++ toString i
  | .chunkTransition index source target =>
    some ("Chunk " ++ toString index ++ " cannot move from " ++ source ++ " to " ++ target)

def message (failure : RenderFailure) : String :=
  (failure.ownMessage.filter (· ≠ "")).getD failure.defaultMessage

def code (failure : RenderFailure) : String :=
  match failure with
  | .general o | .manifest o | .probe o => (o.code.filter (· ≠ "")).getD failure.defaultCode
  | _ => failure.defaultCode

def details : RenderFailure → List (String × Json Double)
  | .general o | .manifest o | .probe o => o.details
  | .diagnostics found => [("diagnostics", .ofTexts found)]
  | .nothingToRender _ => []
  | .process _ result | .spawn _ result | .exit _ _ result | .cancelled _ result =>
    (result.map RunOutcome.details).getD []
  | .chunkNotFound index => [("index", .ofInt? index)]
  | .chunkTransition index source target =>
    [("index", .int index), ("from", .text source), ("to", .text target)]

end RenderFailure

/-- What is wrong with the shape of a JSON value that is looked into. -/
inductive ShapeError where
  /-- Something else stands where an object should. -/
  | notObject
  /-- A value does not fit its place. -/
  | wrongType
  | missingField
  deriving DecidableEq, Repr

/-- Anything that stops an operation. -/
inductive Failure where
  | render (cause : RenderFailure)
  | invalid (problems : List Problem)
  | number (cause : NumberError)
  | graph (cause : GraphError)
  /-- A job has a process already. -/
  | keyInUse (key : String)
  /-- Chunks need a length above zero. -/
  | chunkDuration
  /-- At least one job must be allowed to run. -/
  | concurrency
  /-- A preview is being made already. -/
  | previewRunning
  /-- Bytes that are no text. -/
  | notText
  /-- Values that are nested too deep to be read. -/
  | tooDeep
  | shape (cause : ShapeError)
  | file (cause : FileError)
  /-- The task that ran the operation was stopped. -/
  | taskCancelled
  /-- Something broke down and says so. -/
  | told (message : String)

namespace Failure

/-- The failure of a composition. -/
def ofCompose : ComposeError → Failure
  | .nothingToRender => .render (.nothingToRender none)
  | .graph cause => .graph cause
  | .number cause => .number cause

end Failure

namespace Failure

/-- A failure as it is told to people; empty where there is nothing to tell. -/
def text : Failure → String
  | .render cause => cause.message
  | .invalid problems => Problem.report problems
  | .number .nan => "cannot convert float NaN to integer"
  | .number .infinite => "cannot convert float infinity to integer"
  | .number .tooLarge => "int too large to convert to float"
  | .number .divisionByZero => "float division by zero"
  | .graph cause => cause.message
  | .keyInUse key => "A process is already running for job " ++ key
  | .chunkDuration => "chunk_duration must be positive"
  | .concurrency => "max_concurrent must be at least 1"
  | .previewRunning => "Preview pipeline is already running"
  | .file cause => cause.message
  | .told message => message
  | .number .notNumeral | .notText | .tooDeep | .shape _ | .taskCancelled => ""

end Failure

instance : MonadLift (Except NumberError) (Except Failure) where
  monadLift := Except.mapError .number

instance : MonadLift (Except ComposeError) (Except Failure) where
  monadLift := Except.mapError Failure.ofCompose

instance : MonadLift (Except GraphError) (Except Failure) where
  monadLift := Except.mapError .graph

instance : MonadLift (Except ShapeError) (Except Failure) where
  monadLift := Except.mapError .shape

instance : MonadLift (Except FileError) (Except Failure) where
  monadLift := Except.mapError .file

instance : MonadLift Checked (Except Failure) where
  monadLift checked := checked.toExcept.mapError .invalid

instance {σ : Type} : MonadLift (Except Failure) (EStateM Failure σ) where
  monadLift
    | .ok a => pure a
    | .error failure => throw failure

/-- The composition, or its diagnostics as a failure. -/
def Composition.check {τ : Type} (composition : Composition τ) : Except Failure Unit :=
  if composition.complete then .ok ()
  else .error (.render (.diagnostics composition.diagnostics))

end Montage
