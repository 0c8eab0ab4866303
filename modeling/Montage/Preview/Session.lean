import Montage.Command.Basic
import Montage.Command.ConcatList
import Montage.Complexity
import Montage.Compose.Overlay
import Montage.Schedule.Run

/-!
Editing sessions with a preview. The preview is kept in chunks. Each edit invalidates the chunks
whose content it changes, and what is missing is rendered chunk by chunk, what was edited last
before all else. A chunk that failed is tried again once it is to show something else.
-/

namespace Montage

/-- A run of the encoder that a session asks for. -/
structure EncoderCall (τ : Type) where
  key : String
  /-- The length of what is rendered, where progress is measured. -/
  duration : Option τ := none
  command : List String

/-- What became of a run of the encoder: how it ended, unless it broke down, and what it wrote. -/
structure EncoderReply where
  result : Except String RunOutcome
  content : Option (List UInt8) := none

/-- What is edited, and how it is rendered. -/
structure Session (τ : Type) [Scalar τ] where
  timeline : Timeline τ := {}
  media : MediaLibrary := []
  settings : OutputFormat τ
  encoderPath : String
  /-- How many chunks on each side of the playhead are rendered first. -/
  prefetchRadius : Int
  /-- The hashes of what is being rendered. -/
  inFlight : List (Nat × String) := []
  /-- The runs of the encoder so far. -/
  calls : List (EncoderCall τ) := []

/-- The render of a chunk while the encoder runs. -/
structure ChunkRender where
  contentHash : String
  isComplex : Bool
  outputPath : String

/-- What the player shows at a time: a rendered chunk or, without a path, the timeline itself. -/
structure Playback (τ : Type) where
  index : Option Nat := none
  path : Option String := none
  start : τ
  isComplex : Bool := false

namespace Session

variable {τ : Type} [Scalar τ]

def access (session : Session τ) (files : FileTree) : MediaAccess where
  media := session.media
  useProxies := true
  pathExists := files.pathExists

/-- The hash of what a chunk is to show now. -/
def hashOf (session : Session τ) (files : FileTree) (chunk : Chunk τ) : String :=
  ContentHash.ofWindow session.timeline (session.access files) chunk.window

/-- The session while something is rendered for a chunk. -/
def start (session : Session τ) (index : Nat) (contentHash : String) : Session τ :=
  { session with
    inFlight := (index, contentHash) :: session.inFlight.filter (·.1 ≠ index) }

/-- The session after something was rendered for a chunk. -/
def stop (session : Session τ) (index : Nat) (contentHash : String) : Session τ :=
  { session with inFlight := session.inFlight.filter (· ≠ (index, contentHash)) }

/-- The key of the job that renders a chunk. -/
def chunkKey (index : Nat) : String := "chunk-" ++ toString index

end Session

/-! ### Rendering a chunk -/

namespace ChunkRender

variable {τ : Type} [Scalar τ]

abbrev Action (τ α : Type) [Scalar τ] := WorkerAction τ (Session τ) α

/-- Composes a chunk and calls the encoder. -/
def prepare (chunk : Chunk τ) (contentHash : String) : Action τ (WorkerStep ChunkRender) := do
  let (store, session) ← get
  let access := session.access store.disk.files
  let isComplex := (session.timeline.segment chunk.start chunk.stop).isComplex
  match composeOverlay session.timeline access session.settings chunk.window with
  | .error .nothingToRender =>
    let cause : RenderFailure := .nothingToRender none
    return .ends { error := some cause.message, contentHash := some contentHash }
  | .error cause => throw (.ofCompose cause)
  | .ok composition => do
    let path := store.cache.outputPath chunk.index contentHash
    match store.disk.files.makeFolders path.parent with
    | .error cause => throw (.file cause)
    | .ok files => set ({ store with disk := { store.disk with files } }, session)
    let command : List String ←
      (liftM (previewCommand session.encoderPath composition path.text .chunk) :
        Except Failure _)
    let call : EncoderCall τ :=
      { key := Session.chunkKey chunk.index, duration := some chunk.duration, command }
    modify fun (store, session) => (store, { session with calls := session.calls ++ [call] })
    return .waits { contentHash, isComplex, outputPath := path.text }

/-- The render of a chunk begins with the hash of what it is to show. -/
def begin (chunk : Chunk τ) : Action τ (WorkerStep ChunkRender) := do
  let (store, session) ← get
  let contentHash := session.hashOf store.disk.files chunk
  let stop : Action τ Unit :=
    modify fun (store, session) => (store, session.stop chunk.index contentHash)
  -- Edits made while the encoder runs are compared with this hash.
  set (store, session.start chunk.index contentHash)
  match ← tryCatch (Except.ok <$> prepare chunk contentHash) (fun cause => return .error cause) with
  | .ok (.waits kept) => return .waits kept
  | .ok (.ends outcome) => do
    stop
    return .ends outcome
  | .error cause => do
    stop
    throw cause

/-- What is known once the encoder has ended. -/
def outcome (kept : ChunkRender) (result : RunOutcome) : RenderOutcome :=
  if result.cancelled then { cancelled := true }
  else if result.success then
    { success := true, outputPath := some kept.outputPath
      contentHash := some kept.contentHash, isComplex := some kept.isComplex }
  else { error := result.error, contentHash := some kept.contentHash }

/-- Goes on when the encoder has ended. -/
def resume (chunk : Chunk τ) (kept : ChunkRender) (reply : EncoderReply) :
    Action τ RenderOutcome := do
  modify fun (store, session) => (store, session.stop chunk.index kept.contentHash)
  if let some content := reply.content then
    let (store, session) ← get
    match store.disk.files.write kept.outputPath content with
    | .error cause => throw (.file cause)
    | .ok files => set ({ store with disk := { store.disk with files } }, session)
  match reply.result with
  | .ok result => return kept.outcome result
  | .error message => throw (.told message)

/-- Renders the chunks of a session. -/
def worker : Worker τ (Session τ) ChunkRender EncoderReply where
  begin := begin
  resume := resume
  abandon chunk kept session := session.stop chunk.index kept.contentHash

end ChunkRender

/-! ### Edits -/

/-- What is done in a session. -/
abbrev SessionAction (τ α : Type) [Scalar τ] :=
  WorkshopAction τ (Session τ) ChunkRender EncoderReply α

namespace SessionAction

variable {τ : Type} [Scalar τ]

def session : SessionAction τ (Session τ) := return (← get).shared

def cache : SessionAction τ (Cache τ) := return (← get).store.cache

def files : SessionAction τ FileTree := return (← get).store.disk.files

def setSession (session : Session τ) : SessionAction τ Unit :=
  modify fun shop => { shop with shared := session }

/-- The hash of what a chunk is to show now. -/
def hashOf (chunk : Chunk τ) : SessionAction τ String :=
  return (← session).hashOf (← files) chunk

/-- Whether a chunk shows, or is being rendered to show, something else than it is to show now.
A render that has not begun will show what is right then. -/
def isOutdated (chunk : Chunk τ) : SessionAction τ Bool := do
  match chunk.status with
  | .valid => return chunk.contentHash ≠ some (← hashOf chunk)
  | .rendering =>
    match (← session).inFlight.lookup chunk.index with
    | none => return false
    | some rendered => return rendered ≠ (← hashOf chunk)
  | _ => return false

/-- Runs an action for the chunk at a place as it is now. -/
def visit (action : Chunk τ → SessionAction τ Unit) (index : Nat) : SessionAction τ Unit := do
  match (← cache).chunks[index]? with
  | some chunk => action chunk
  | none => return

/-- Runs an action for each chunk as it is when its turn comes. -/
def forChunks (action : Chunk τ → SessionAction τ Unit) : SessionAction τ Unit := do
  (List.range (← cache).chunks.length).forM (visit action)

/-- Invalidates a chunk that is outdated. -/
def refresh (chunk : Chunk τ) : SessionAction τ Unit := do
  if ← isOutdated chunk then
    let _ ← WorkshopAction.onCache (CacheAction.invalidate chunk.start chunk.stop)

/-- Invalidates every chunk that is outdated. -/
def reconcile : SessionAction τ Unit := forChunks refresh

/-- Whether a chunk has to be queued. -/
def isPending (retryErrors : Bool) (chunk : Chunk τ) : SessionAction τ Bool := do
  match chunk.status with
  | .missing | .stale => return true
  | .error => return retryErrors || chunk.failedHash ≠ some (← hashOf chunk)
  | .rendering => return !(← WorkshopAction.scheduler).hasJob chunk.index
  | .valid => return false

/-- Queues every chunk that waits for a render: what is missing or stale, what failed to show
something else than it is to show now, and what was given up. -/
def queueWaiting (urgency : Urgency) (retryErrors : Bool := false) : SessionAction τ Unit :=
  forChunks fun chunk => do
    if ← isPending retryErrors chunk then
      let _ ← WorkshopAction.queue chunk.index urgency

/-- What is shown now, with the chunks that were rendered for it before. -/
def load (timeline : Timeline τ) (media : MediaLibrary) (projectPath : Option String)
    (projectTime : Option τ) : SessionAction τ Unit := do
  setSession { (← session) with timeline, media }
  WorkshopAction.onCache (CacheAction.openProject projectPath timeline.duration projectTime)

/-- Opens a project: restores what was rendered for it and queues the rest. -/
def openProject (timeline : Timeline τ) (media : MediaLibrary) (projectPath : Option String)
    (projectTime : Option τ) : SessionAction τ Unit := do
  load timeline media projectPath projectTime
  reconcile
  queueWaiting .normal

/-- New settings, and whether they make a difference. -/
def changeSettings (settings : OutputFormat τ) : SessionAction τ Bool := do
  setSession { (← session) with settings }
  WorkshopAction.onCache (CacheAction.applySettings settings)

/-- Cuts the timeline anew if its length is another. The windows depend on nothing else. -/
def fit (duration : τ) : SessionAction τ Unit := do
  if !(duration == (← cache).totalDuration) then
    WorkshopAction.onCache (CacheAction.repartition duration)

/-- What is shown from now on, in chunks of its length. Tells whether the settings make a
difference. -/
def change (timeline : Timeline τ) (media : Option MediaLibrary)
    (settings : Option (OutputFormat τ)) : SessionAction τ Bool := do
  let before ← session
  setSession { before with timeline, media := media.getD before.media }
  let changed ← match settings with
    | some settings => changeSettings settings
    | none => pure false
  fit timeline.duration
  return changed

/-- An edit. Gives the places of the chunks that wait for a render then. -/
def update (timeline : Timeline τ) (media : Option MediaLibrary)
    (settings : Option (OutputFormat τ)) : SessionAction τ (List Nat) := do
  let changed ← change timeline media settings
  reconcile
  queueWaiting .high changed
  return (← cache).waitingChunks.map (·.index)

/-- Renders a stretch of time anew. -/
def invalidate (start stop : τ) : SessionAction τ (List Nat) := do
  let affected ← WorkshopAction.onCache (CacheAction.invalidate start stop)
  queueWaiting .high
  return affected

/-- Stops all renders, and deletes what was rendered. -/
def clear (fuel : Nat) : SessionAction τ Unit := do
  WorkshopAction.stopAll ChunkRender.worker fuel
  WorkshopAction.onCache CacheAction.wipe

/-! ### Playback -/

/-- The chunks around a place that are to be rendered first, the nearest first and of two that are
equally near the earlier one. -/
def nearby (chunks : List (Chunk τ)) (center : Nat) (radius : Int) : List (Chunk τ) :=
  let distance (chunk : Chunk τ) : Nat := ((chunk.index : Int) - center).natAbs
  let near := chunks.filter fun chunk =>
    (distance chunk : Int) ≤ radius && (chunk.status.needsRender || chunk.status = .error)
  near.mergeSort fun a b =>
    distance a < distance b || (distance a = distance b && a.index ≤ b.index)

/-- Brings the chunks around the playhead to the front. Gives those that moved. -/
def prioritizeNear (t : τ) (radius : Option Int) : SessionAction τ (List Nat) := do
  let center : Option Nat ← (liftM ((← cache).indexAt? t) : Except Failure _)
  match center with
  | none => return []
  | some center => do
    let radius := radius.getD (← session).prefetchRadius
    let moved ← (nearby (← cache).chunks center radius).filterM fun chunk => do
      if ← WorkshopAction.setUrgency chunk.index .high then return true
      WorkshopAction.queue chunk.index .high
    return moved.map (·.index)

/-- What the player shows at a time. -/
def playbackAt (t : τ) : SessionAction τ (Playback τ) := do
  let cache ← cache
  let index : Option Nat ← (liftM (cache.indexAt? t) : Except Failure _)
  match index.bind fun i => cache.chunks[i]? with
  | none => return { start := Scalar.zero }
  | some chunk => do
    let files ← files
    let playable := chunk.output?.filter fun path =>
      chunk.status = .valid && files.pathExists path
    let segment := (← session).timeline.segment chunk.start chunk.stop
    return {
      index, start := chunk.start, path := playable
      isComplex := if playable.isSome then chunk.isComplex else segment.isComplex }

/-! ### Assembly -/

def assemblyKey : String := "preview-concat"

/-- The files of all chunks, in order, if all chunks are valid. -/
def chunkFiles? (cache : Cache τ) : Option (List String) :=
  if cache.chunks.isEmpty then none
  else cache.chunks.mapM fun chunk => if chunk.status = .valid then chunk.output? else none

/-- The path of the list from which the whole preview is joined. -/
def listPath (cache : Cache τ) : Path := cache.folder.join "concat_list.txt"

/-- Writes the list of all chunks and calls the encoder to join them; nothing happens unless all
chunks are valid. -/
def assemble (outputPath : String) : SessionAction τ (Option (EncoderCall τ)) := do
  let cache ← cache
  match chunkFiles? cache with
  | none => return none
  | some paths => do
    let output := Path.ofText outputPath
    let list := (listPath cache).text
    match (← files).makeFolders output.parent with
    | .error cause => throw (.file cause)
    | .ok files => WorkshopAction.onCache (CacheAction.setFiles files)
    match (← files).writeText list (ConcatList.write paths) with
    | .error cause => throw (.file cause)
    | .ok files => WorkshopAction.onCache (CacheAction.setFiles files)
    let session ← session
    let call : EncoderCall τ :=
      { key := assemblyKey, command := concatCommand session.encoderPath list output.text }
    setSession { session with calls := session.calls ++ [call] }
    return some call

end SessionAction

end Montage
