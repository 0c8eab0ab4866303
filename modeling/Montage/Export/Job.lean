import Montage.Command.Basic
import Montage.Compose.Overlay
import Montage.Run.Encoder

/-!
Exports of whole timelines. An export that fails or is cancelled says so in its progress and ends
with a failure.
-/

namespace Montage

inductive ExportStatus where
  | pending
  | processing
  | completed
  | failed
  | cancelled
  deriving DecidableEq, Repr

def ExportStatus.name : ExportStatus → String
  | .pending => "pending"
  | .processing => "processing"
  | .completed => "completed"
  | .failed => "failed"
  | .cancelled => "cancelled"

/-- How far an export has come. -/
structure ExportProgress where
  status : ExportStatus := .pending
  percent : Double := Scalar.zero
  step : Option String := none
  /-- The seconds that remain. -/
  remaining : Option Double := none
  error : Option String := none

structure ExportJob where
  id : String
  settings : OutputFormat Double
  encoderPath : String
  progress : ExportProgress := {}
  /-- The progress at each time at which it was reported. -/
  reports : List ExportProgress := []
  /-- What the caller will say, asked whether the export is to be cancelled; after that, no. -/
  cancelAnswers : List Bool := []

abbrev ExportAction (α : Type) := SceneAction ExportJob α

/-- A finished export. -/
structure ExportOutcome where
  outputPath : String
  duration : Double

namespace ExportJob

/-- An export; without settings of its own it has the configured ones. -/
def create (config : Config) (id : String) (settings : Option (OutputFormat Double)) :
    Except Failure ExportJob := do
  let settings : OutputFormat Double ← match settings with
    | some settings => pure settings
    | none => config.outputFormat
  return { id, settings, encoderPath := config.encoderPath }

/-- The key under which the encoder runs. -/
def key (job : ExportJob) : String := "export-" ++ job.id

def setProgress (progress : ExportProgress) : ExportAction Unit := do
  SceneAction.setJob { (← SceneAction.job) with progress }

/-- Takes the next answer to whether the export is to be cancelled. -/
def askCancelled : ExportAction Bool := do
  let job ← SceneAction.job
  match job.cancelAnswers with
  | [] => return false
  | answer :: rest => do
    SceneAction.setJob { job with cancelAnswers := rest }
    return answer

/-- Who is told of an export, and asked about it. -/
structure Caller where
  onReport : ExportProgress → ExportAction Unit := fun _ => pure ()
  /-- Asks whether the export is to be cancelled. -/
  ask : ExportAction Bool := askCancelled

/-- Reports how far the export has come; the percentage never goes back. -/
def report (caller : Caller) (percent : Double) (step : String) (remaining : Option Double := none) :
    ExportAction Unit := do
  let job ← SceneAction.job
  let progress := { job.progress with
    percent := Scalar.maxOf job.progress.percent percent, step := some step, remaining }
  SceneAction.setJob { job with progress, reports := job.reports ++ [progress] }
  caller.onReport progress

/-- The export ends with a failure. -/
def endWith {α : Type} (status : ExportStatus) (message : String) (cause : RenderFailure) :
    ExportAction α := do
  setProgress { (← SceneAction.job).progress with status, error := some message }
  throw (.render cause)

/-- Cancels the run of the encoder, if there is one. -/
def cancel : ExportAction Bool := do SceneAction.cancel (← SceneAction.job).key

def controls : JobControls ExportJob where
  cancel := do
    SceneAction.cancelThen (← SceneAction.job).key fun found =>
      SceneAction.note (.cancelledJob (some found))

/-- The export was cancelled. -/
def endCancelled {α : Type} (result : Option RunOutcome) : ExportAction α :=
  endWith .cancelled "Export cancelled" (.cancelled (some "Export cancelled") result)

/-- What is made of the end of the encoder. -/
def conclude (caller : Caller) (result : RunOutcome) (outcome : ExportOutcome) :
    ExportAction ExportOutcome := do
  if result.failure = some .spawn then
    endWith .failed ((result.error.filter (· ≠ "")).getD "spawn failed")
      (.spawn result.error (some result))
  if result.cancelled then endCancelled (some result)
  -- The caller is asked only about a run that nobody cancelled.
  if ← caller.ask then endCancelled (some result)
  if !result.success then
    endWith .failed ((result.error.filter (· ≠ "")).getD "export failed")
      (.exit result.exitCode result.messageTail (some result))
  setProgress { (← SceneAction.job).progress with status := .completed }
  report caller 100 "Completed"
  return outcome

/-- What comes before the encoder: the timeline is composed, if it shows anything. -/
def prepare (caller : Caller) (timeline : Timeline Double) (media : MediaLibrary) :
    ExportAction (Composition Double) := do
  if timeline.duration ≤ Scalar.zero || timeline.enabledClips.isEmpty then
    endWith .failed "Timeline is empty" (.nothingToRender (some "Timeline is empty"))
  setProgress { (← SceneAction.job).progress with status := .processing }
  report caller Scalar.zero "Compiling filter graph"
  let access : MediaAccess := { media, useProxies := false, pathExists := fun _ => false }
  let format := (← SceneAction.job).settings
  let composition : Composition Double ←
    (liftM (composeOverlay timeline access format (.upTo timeline.duration) false) :
      Except Failure _)
  if !composition.complete then
    endWith .failed ("; ".intercalate composition.diagnostics)
      (.diagnostics composition.diagnostics)
  return composition

/-- Runs the encoder on a composition. -/
def encode (caller : Caller) (composition : Composition Double) (duration : Double)
    (settings : ExportOptions) : ExportAction RunOutcome := do
  SceneAction.onFiles fun files => files.makeFolders (Path.ofText settings.outputPath).parent
  let job ← SceneAction.job
  let command : List String ←
    (liftM (exportCommand job.encoderPath composition settings) : Except Failure _)
  report caller 1 "Encoding"
  SceneAction.run {
    key := some job.key, duration := some duration, controls
    onUpdate := fun update => report caller update.percent "Encoding" update.remaining } command

/-- Renders a timeline to a file. -/
def run (timeline : Timeline Double) (media : MediaLibrary) (settings : ExportOptions)
    (caller : Caller := {}) : ExportAction ExportOutcome := do
  let composition ← prepare caller timeline media
  if ← caller.ask then endCancelled none
  let result ← encode caller composition timeline.duration settings
  conclude caller result { outputPath := settings.outputPath, duration := timeline.duration }

end ExportJob

end Montage
