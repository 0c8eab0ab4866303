import Montage.Compose.Concat
import Montage.Compose.Overlay
import Montage.Media.Proxy
import Montage.Preview.Report

/-!
The preview of a whole timeline. First every video that is shown gets a proxy, then the timeline
is rendered at a smaller size. One percentage runs through both phases and never goes back. Once it
is cancelled, the preview ends as cancelled whatever its processes do.
-/

namespace Montage

inductive PreviewStatus where
  | completed
  | failed
  | cancelled
  deriving DecidableEq, Repr

def PreviewStatus.name : PreviewStatus → String
  | .completed => "completed"
  | .failed => "failed"
  | .cancelled => "cancelled"

/-- How a preview ended. -/
structure PreviewOutcome where
  status : PreviewStatus
  outputPath : Option String := none
  error : Option String := none
  /-- The paths of the proxies that were made, by the ids of their media. -/
  proxies : List (String × String)
  media : MediaLibrary

/-- A request to end a preview while it is made. -/
structure StopRequest where
  /-- How much an observer had seen by then. -/
  seen : Nat
  /-- How many proxies had been made by then. -/
  made : Nat

/-- How far a preview has come. -/
structure PreviewJob where
  running : Bool := false
  cancelled : Bool := false
  overall : Double := Scalar.zero
  reports : List (PreviewReport Double) := []
  /-- The ids of media and the paths of the proxies that were made for them, in order. -/
  proxiesMade : List (String × String) := []
  /-- The requests to end a preview, in the order in which they were logged. -/
  requests : List StopRequest := []

/-- How previews are made. -/
structure PreviewMaker where
  folder : Path
  proxies : ProxyMaker
  settings : OutputFormat Double
  scale : Double
  /-- The share of the proxy phase in the whole. -/
  proxyWeight : Double
  encoderPath : String

abbrev PreviewAction (α : Type) := SceneAction PreviewJob α

namespace PreviewMaker

/-- The key of the job that renders. -/
def renderKey : String := "full-preview"

/-- A maker of previews; what is left out is configured. -/
def create (config : Config) (folder proxyFolder : Option String)
    (settings : Option (OutputFormat Double)) : Except Failure PreviewMaker := do
  let settings : OutputFormat Double ← match settings with
    | some settings => pure settings
    | none => config.outputFormat
  return {
    folder := Path.ofText ((folder.filter (· ≠ "")).getD config.previewDir)
    proxies := .create config proxyFolder none
    settings, scale := config.previewScale, proxyWeight := config.proxyWeight
    encoderPath := config.encoderPath }

/-- The path of a preview that is made at a time in milliseconds. -/
def outputPath (maker : PreviewMaker) (now : Nat) : Path :=
  maker.folder.join ("preview-" ++ toString now ++ ".mp4")

/-- Who is told of a preview while it is made. -/
structure Audience where
  onReport : PreviewReport Double → PreviewAction Unit := fun _ => pure ()
  /-- What is done with the id of a medium and the path of the proxy that was made for it. -/
  onProxy : String → String → PreviewAction Unit := fun _ _ => pure ()

/-- Reports how far a preview has come. -/
def report (audience : Audience) (phase : PreviewPhase) (overall ofPhase : Double) (task : String) :
    PreviewAction Unit := do
  let job ← SceneAction.job
  let overall := Scalar.maxOf job.overall (Scalar.minOf 100 overall)
  let ofPhase := Scalar.maxOf Scalar.zero (Scalar.minOf 100 ofPhase)
  let report := { phase, overall, ofPhase, task }
  SceneAction.setJob { job with overall, reports := job.reports ++ [report] }
  audience.onReport report

/-- A preview is to end as cancelled. -/
def requestStop : PreviewAction Unit := do
  let job ← SceneAction.job
  let seen := (← SceneAction.station).happenings.length
  let request := { seen, made := job.proxiesMade.length }
  SceneAction.setJob { job with cancelled := true, requests := job.requests ++ [request] }

/-- Cancels a preview that runs: first the jobs that make proxies, then the one that renders. -/
def beginCancel : PreviewAction (Course PreviewJob) := do
  if !(← SceneAction.job).running then
    SceneAction.note (.cancelledJob none)
    return .done
  requestStop
  let keys := (← SceneAction.station).registry.keysFrom ProxyMaker.keyStart
  if keys.isEmpty then
    SceneAction.cancelThen renderKey fun _ => SceneAction.note (.cancelledJob none)
  else return .waits do
    SceneAction.cancelEach keys
    let _ ← SceneAction.cancel renderKey
    SceneAction.note (.cancelledJob none)

/-- Cancels a preview that runs, unseen by an observer of what others do. -/
def cancel : PreviewAction Unit := do
  if (← SceneAction.job).running then
    requestStop
    let _ ← SceneAction.cancelFrom ProxyMaker.keyStart
    let _ ← SceneAction.cancel renderKey

def controls : JobControls PreviewJob where
  cancel := beginCancel
  runAgain := do if (← SceneAction.job).running then throw .previewRunning

/-- Whether a preview was cancelled. -/
def hasBeenCancelled : PreviewAction Bool := return (← SceneAction.job).cancelled

/-- What has been made so far. -/
structure Progress where
  proxies : List (String × String) := []
  media : MediaLibrary

/-- A preview that ends as it is. -/
def Progress.ending (progress : Progress) (status : PreviewStatus)
    (error : Option String := none) : PreviewOutcome :=
  { status, error, proxies := progress.proxies, media := progress.media }

/-- The paths of proxies with one added, in place of a former one. -/
def insertProxy (mediaId path : String) : List (String × String) → List (String × String)
  | [] => [(mediaId, path)]
  | (other, old) :: rest =>
    if other = mediaId then (mediaId, path) :: rest
    else (other, old) :: insertProxy mediaId path rest

/-! ### Proxies -/

/-- The part of `count` steps that `done` of them are. -/
def share (done : Double) (count : Nat) : Double := done / Scalar.whole count

/-- The task of making a proxy. -/
def proxyTask (item : MediaFile) : String := "Proxy: " ++ item.id

/-- Reports on the proxy at a place among `count`. -/
def reportProxy (maker : PreviewMaker) (audience : Audience) (place count : Nat) (item : MediaFile)
    (update : EncoderProgress) : PreviewAction Unit :=
  let ofPhase := share (Scalar.whole place + update.percent / 100) count * 100
  report audience .proxy (ofPhase * maker.proxyWeight) ofPhase (proxyTask item)

/-- Makes proxies one after the other. Gives what was made, or how the preview ends. -/
def makeProxies (maker : PreviewMaker) (audience : Audience) (renderStart : Double) (count : Nat) :
    Nat → List MediaFile → Progress → PreviewAction (Except PreviewOutcome Progress)
  | _, [], progress => return .ok progress
  | place, item :: rest, progress => do
    if ← hasBeenCancelled then return .error (progress.ending .cancelled)
    let done := share (Scalar.whole place) count
    report audience .proxy (done * renderStart) (done * 100) (proxyTask item)
    let outcome ← maker.proxies.make controls (maker.reportProxy audience place count item) item
    -- A proxy that was made nevertheless is not counted once the preview is cancelled.
    if outcome.cancelled || (← hasBeenCancelled) then return .error (progress.ending .cancelled)
    match outcome.success, outcome.path with
    | true, some path => do
      let progress : Progress := {
        proxies := insertProxy item.id path progress.proxies
        media := progress.media.insert item.id (item.setProxy (some path)) }
      let job ← SceneAction.job
      SceneAction.setJob { job with proxiesMade := job.proxiesMade ++ [(item.id, path)] }
      audience.onProxy item.id path
      maker.makeProxies audience renderStart count (place + 1) rest progress
    | _, _ =>
      let reason := outcome.error.getD "None"
      return .error (progress.ending .failed
        (some ("Proxy generation failed for " ++ item.id ++ ": " ++ reason)))

/-! ### The render -/

/-- The composition of a whole timeline. Where clips of one track overlap it is an overlay. -/
def compose (timeline : Timeline Double) (access : MediaAccess) (settings : OutputFormat Double) :
    Except ComposeError (Composition Double) :=
  let window := Window.upTo timeline.duration
  if timeline.hasOverlaps then composeOverlay timeline access settings window
  else composeConcat timeline access settings window

/-- Runs the encoder on a composition. -/
def renderWith (maker : PreviewMaker) (audience : Audience) (now : Nat) (duration renderStart : Double)
    (composition : Composition Double) (progress : Progress) : PreviewAction PreviewOutcome := do
  SceneAction.onFiles fun files => files.makeFolders maker.folder
  let path := (maker.outputPath now).text
  let command : List String ←
    (liftM (previewCommand maker.encoderPath composition path .fullPreview) : Except Failure _)
  let task := "Rendering preview"
  let onUpdate (update : EncoderProgress) : PreviewAction Unit :=
    let overall := renderStart + update.percent / 100 * (100 - renderStart)
    report audience .render overall update.percent task
  report audience .render renderStart Scalar.zero task
  let result ← SceneAction.run
    { key := some renderKey, duration := some duration, onUpdate, controls } command
  if result.cancelled || (← hasBeenCancelled) then return progress.ending .cancelled
  if !result.success then return progress.ending .failed result.error
  report audience .render 100 100 "Done"
  return { progress.ending .completed with outputPath := some path }

/-- Renders a timeline whose proxies are made. -/
def render (maker : PreviewMaker) (audience : Audience) (now : Nat) (timeline : Timeline Double)
    (renderStart : Double) (progress : Progress) : PreviewAction PreviewOutcome := do
  let duration := timeline.duration
  if duration ≤ Scalar.zero then return progress.ending .failed (some "Nothing to render")
  let settings : OutputFormat Double ←
    (liftM (maker.settings.scaled maker.scale) : Except Failure _)
  let files := (← SceneAction.station).files
  let access : MediaAccess :=
    { media := progress.media, useProxies := true, pathExists := files.pathExists }
  match compose timeline access settings with
  | .error .nothingToRender =>
    return progress.ending .failed (some (RenderFailure.nothingToRender none).message)
  | .error cause => throw (.ofCompose cause)
  | .ok composition =>
    if composition.complete then
      maker.renderWith audience now duration renderStart composition progress
    else return progress.ending .failed (some ("; ".intercalate composition.diagnostics))

/-! ### Runs -/

/-- The items in use that have no proxy yet. -/
def pending (timeline : Timeline Double) (media : MediaLibrary) (pathExists : PathExists) :
    List MediaFile :=
  (timeline.mediaInUse.filterMap media.get?).filter fun item => item.lacksProxy pathExists

/-- Makes the preview of a timeline. -/
def make (maker : PreviewMaker) (audience : Audience) (now : Nat) (timeline : Timeline Double)
    (media : MediaLibrary) : PreviewAction PreviewOutcome := do
  let pathExists := (← SceneAction.station).files.pathExists
  let media := media.dropLostProxies pathExists
  let pending := pending timeline media pathExists
  let renderStart := if pending.isEmpty then Scalar.zero else maker.proxyWeight * 100
  match ← maker.makeProxies audience renderStart pending.length 0 pending { media } with
  | .error outcome => return outcome
  | .ok progress => do
    if !pending.isEmpty then report audience .proxy renderStart 100 "Proxies ready"
    if ← hasBeenCancelled then return progress.ending .cancelled
    maker.render audience now timeline renderStart progress

/-- Makes the preview of a timeline, unless one is being made. -/
def run (maker : PreviewMaker) (now : Nat) (onProxy : String → String → PreviewAction Unit)
    (timeline : Timeline Double) (media : MediaLibrary)
    (onReport : PreviewReport Double → PreviewAction Unit := fun _ => pure ()) :
    PreviewAction PreviewOutcome := do
  let job ← SceneAction.job
  if job.running then throw .previewRunning
  SceneAction.setJob { job with running := true, cancelled := false, overall := Scalar.zero }
  let ended : PreviewAction Unit := do
    SceneAction.setJob { (← SceneAction.job) with running := false }
  let outcome ← tryCatch (maker.make { onReport, onProxy } now timeline media) fun failure => do
    ended
    throw failure
  ended
  return outcome

end PreviewMaker

end Montage
