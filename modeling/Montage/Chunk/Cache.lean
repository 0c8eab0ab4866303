import Montage.Chunk.Basic
import Montage.Chunk.Partition
import Montage.Config
import Montage.ContentHash
import Montage.Decode.Manifest
import Montage.Encode.Manifest
import Montage.Failure

/-!
The cache of rendered chunks. Each chunk goes from missing or stale to rendering, and from there
to valid, to stale, or to an error. An invalidation makes valid chunks stale; a chunk that is
invalidated while it renders ends up stale. The valid chunks are recorded in a manifest beside
their files, so that a project that is opened again finds them.
-/

namespace Montage

/-- Files, and the clock that dates what is written. -/
structure Disk where
  files : FileTree := {}
  now : Timestamp

structure Cache (τ : Type) where
  folder : Path
  chunkDuration : τ
  settings : OutputFormat τ
  totalDuration : τ
  projectHash : String := ContentHash.ofProject none
  projectTime : Option τ := none
  chunks : List (Chunk τ) := []
  /-- The serial number of the next new chunk. -/
  nextSerial : Nat := 0
  createdAt : Timestamp

/-- A cache and the disk that it is on. -/
structure CacheState (τ : Type) where
  cache : Cache τ
  disk : Disk

/-- What is done to a cache. Where it fails, it keeps what was done so far. -/
abbrev CacheAction (τ α : Type) := EStateM Failure (CacheState τ) α

variable {τ : Type} [Scalar τ]

namespace Cache

/-- A cache without chunks. -/
def create (config : Config) (now : Timestamp) (folder : Path) (chunkDuration : Option Double)
    (settings : Option (OutputFormat Double)) : Except Failure (Cache Double) := do
  let chunkDuration := (chunkDuration.filter (!·.isZero)).getD config.chunkDuration
  if chunkDuration ≤ Scalar.zero then throw .chunkDuration
  let settings : OutputFormat Double ← match settings with
    | some settings => pure settings
    | none => config.outputFormat
  return { folder, chunkDuration, settings, totalDuration := Scalar.zero, createdAt := now }

/-- The chunk at a place of the partition. -/
def get (cache : Cache τ) (index : Int) : Except RenderFailure (Chunk τ) :=
  match (if index < 0 then none else cache.chunks[index.toNat]?) with
  | some chunk => .ok chunk
  | none => .error (.chunkNotFound (some index))

/-- The cache with a chunk changed. -/
def put (cache : Cache τ) (chunk : Chunk τ) : Cache τ :=
  { cache with
    chunks := cache.chunks.map fun other =>
      if other.serial = chunk.serial then chunk else other }

/-- The place of the chunk that shows a time. -/
def indexAt? (cache : Cache τ) (t : τ) : Except NumberError (Option Nat) :=
  if t < Scalar.zero ∨ cache.totalDuration ≤ t then .ok none
  else do
    let place ← Scalar.truncate (Scalar.floorDiv t cache.chunkDuration)
    let index := min place (cache.chunks.length - 1)
    return if 0 ≤ index then some index.toNat else none

/-- The chunks that wait for a render. -/
def waitingChunks (cache : Cache τ) : List (Chunk τ) :=
  cache.chunks.filter (·.status.needsRender)

/-- The path of the render of a chunk. -/
def outputPath (cache : Cache τ) (index : Int) (contentHash : String) : Path :=
  cache.folder.join
    ("chunk-" ++ toString index ++ "-" ++ String.ofList (contentHash.toList.take 8) ++ ".mp4")

/-! ### Manifests -/

def manifestFile (cache : Cache τ) : Path := cache.folder.join "manifest.json"

/-- The path under which a manifest is written before it takes its place. -/
def draftPath (cache : Cache τ) : Path := cache.folder.join "manifest.json.tmp"

/-- The entry of a chunk in the manifest; only valid chunks with a file and a hash have one. -/
def entry? (chunk : Chunk τ) : Option ManifestEntry :=
  match chunk.status, chunk.output?, chunk.contentHash.filter (· ≠ "") with
  | .valid, some path, some contentHash => some {
      index := chunk.index, contentHash, fileName := (Path.ofText path).name
      isComplex := chunk.isComplex }
  | _, _, _ => none

/-- The manifest of a cache. -/
def manifest (cache : Cache τ) (now : Timestamp) : Manifest τ where
  version := Manifest.currentVersion
  projectHash := cache.projectHash
  projectTime := cache.projectTime
  chunkDuration := cache.chunkDuration
  totalDuration := cache.totalDuration
  resolution := (cache.settings.width, cache.settings.height)
  frameRate := cache.settings.frameRate.value
  entries := cache.chunks.filterMap entry?
  createdAt := cache.createdAt
  updatedAt := now

/-- Whether the files of a manifest show what this cache would render. -/
def accepts (cache : Cache τ) (manifest : Manifest τ) : Bool :=
  manifest.version = Manifest.currentVersion && manifest.projectHash = cache.projectHash &&
    manifest.resolution = (cache.settings.width, cache.settings.height) &&
    manifest.frameRate == cache.settings.frameRate.value &&
    manifest.chunkDuration == cache.chunkDuration

/-- Failing to write a manifest. -/
def manifestFailure (cache : Cache τ) (cause : FileError) : Failure :=
  .render (.manifest {
    message := some ("Failed to write manifest " ++ cache.manifestFile.text ++ ": " ++
      cause.message) })

/-! ### Pure steps -/

/-- A chunk without its file. -/
def dropOutput (chunk : Chunk τ) (files : FileTree) : Except FileError (Chunk τ × FileTree) :=
  match chunk.output? with
  | none => .ok (chunk, files)
  | some path => do
    return ({ chunk with outputPath := none }, ← files.remove (Path.ofText path).text)

/-- Chunks after a change to some of them, the places of those that were affected, and what
stopped the change before its end. -/
structure Sweep (τ : Type) where
  chunks : List (Chunk τ)
  files : FileTree
  affected : List Nat := []
  failure : Option FileError := none

/-- The outcome with a chunk in front that is not affected. -/
def Sweep.skip (chunk : Chunk τ) (sweep : Sweep τ) : Sweep τ :=
  { sweep with chunks := chunk :: sweep.chunks }

/-- The outcome with an affected chunk in front. -/
def Sweep.hit (chunk : Chunk τ) (sweep : Sweep τ) : Sweep τ :=
  { sweep with chunks := chunk :: sweep.chunks, affected := chunk.index :: sweep.affected }

/-- Invalidates those of some chunks that meet a condition: a valid one becomes stale and loses
its file, and one that renders will end up stale. -/
def invalidateWhere (meets : Chunk τ → Bool) : List (Chunk τ) → FileTree → Sweep τ
  | [], files => { chunks := [], files }
  | chunk :: rest, files =>
    if !meets chunk then (invalidateWhere meets rest files).skip chunk
    else
      match chunk.status with
      | .valid =>
        let chunk := { chunk with status := .stale, generation := chunk.generation + 1 }
        match dropOutput chunk files with
        | .ok (chunk, files) => (invalidateWhere meets rest files).hit chunk
        | .error cause => { chunks := chunk :: rest, files, failure := some cause }
      | .rendering =>
        (invalidateWhere meets rest files).hit { chunk with generation := chunk.generation + 1 }
      | _ => (invalidateWhere meets rest files).skip chunk

/-- Removes the files of those of some chunks that meet a condition. -/
def dropWhere (meets : Chunk τ → Bool) : List (Chunk τ) → FileTree → Sweep τ
  | [], files => { chunks := [], files }
  | chunk :: rest, files =>
    if !meets chunk then (dropWhere meets rest files).skip chunk
    else
      match dropOutput chunk files with
      | .ok (chunk, files) => (dropWhere meets rest files).hit chunk
      | .error cause => { chunks := chunk :: rest, files, failure := some cause }

/-- Whether the window of a chunk is one of a partition. A window has the same place in every
partition of windows of one length. -/
def stays (windows : List (Window τ)) (chunk : Chunk τ) : Bool :=
  windows[chunk.index]?.any chunk.covers

/-- The chunks of a partition, those whose window stays with their state. New ones get serial
numbers from `serial` on. -/
def arrange : (serial index : Nat) → List (Chunk τ) → List (Window τ) → List (Chunk τ)
  | _, _, _, [] => []
  | serial, index, [], window :: rest =>
    { serial, index, start := window.start, stop := window.stop } ::
      arrange (serial + 1) (index + 1) [] rest
  | serial, index, chunk :: old, window :: rest =>
    if chunk.covers window then chunk :: arrange serial (index + 1) old rest
    else
      { serial, index, start := window.start, stop := window.stop } ::
        arrange (serial + 1) (index + 1) old rest

/-- A chunk whose render begins. -/
def beginRender (chunk : Chunk τ) : Chunk τ :=
  { chunk with
    status := .rendering, renderGeneration := some chunk.generation, error := none
    failedHash := none }

/-- A chunk whose render is done. It is stale at once if it was invalidated since the render
began. -/
def endRender (chunk : Chunk τ) (outputPath : String) (contentHash : Option String)
    (isComplex : Option Bool) : Chunk τ :=
  { chunk with
    status := if chunk.renderGeneration = some chunk.generation then .valid else .stale
    outputPath := some outputPath
    contentHash := contentHash <|> chunk.contentHash
    isComplex := isComplex.getD chunk.isComplex
    error := none }

/-- Moving a chunk to a status that it may not have. -/
def refusal (chunk : Chunk τ) (target : ChunkState) : RenderFailure :=
  .chunkTransition chunk.index chunk.status.name target.name

/-- A chunk as it is after all files were deleted. One that renders will end up stale. -/
def reset (chunk : Chunk τ) : Chunk τ :=
  if chunk.status = .rendering then
    { chunk with generation := chunk.generation + 1, outputPath := none }
  else
    { chunk with status := .missing, contentHash := none, error := none, outputPath := none }

/-- How often a status occurs. -/
def count (cache : Cache τ) (status : ChunkState) : Nat :=
  (cache.chunks.filter (·.status = status)).length

/-- The number of bytes of all valid chunks that have a file. -/
def totalSize (cache : Cache τ) (files : FileTree) : Nat :=
  let sizes := (cache.chunks.filter (·.status = .valid)).filterMap fun chunk =>
    chunk.output?.bind files.size?
  sizes.foldl (· + ·) 0

end Cache

/-! ### Actions -/

namespace CacheAction

/-- The cache as it is. -/
def cache : CacheAction τ (Cache τ) := return (← get).cache

def files : CacheAction τ FileTree := return (← get).disk.files

def setCache (cache : Cache τ) : CacheAction τ Unit :=
  modify fun state => { state with cache }

def setFiles (files : FileTree) : CacheAction τ Unit :=
  modify fun state => { state with disk := { state.disk with files } }

/-- A change of the files that may fail. -/
def onFiles (change : FileTree → Except FileError FileTree) :
    CacheAction τ (Except FileError Unit) := do
  match change (← files) with
  | .ok files => do
    setFiles files
    return .ok ()
  | .error cause => return .error cause

/-- The manifest is written beside its place and moved there. -/
def save : CacheAction τ Unit := do
  let cache ← cache
  let text := (cache.manifest (← get).disk.now).text
  -- A reader meets the old manifest or the new one, never half of one.
  let steps : List (FileTree → Except FileError FileTree) := [
    fun files => files.makeFolders cache.folder,
    fun files => files.writeText cache.draftPath.text text,
    fun files => files.move cache.draftPath.text cache.manifestFile.text]
  for step in steps do
    if let .error cause ← onFiles step then throw (cache.manifestFailure cause)

/-- The chunks and files that a sweep leaves, and its failure. -/
def finishSweep (sweep : Cache.Sweep τ) : CacheAction τ Unit := do
  setFiles sweep.files
  modify fun state => { state with cache := { state.cache with chunks := sweep.chunks } }
  if let some cause := sweep.failure then throw (.file cause)

/-- Cuts the timeline anew. Chunks whose window stays keep their state; the files of all others
are removed. -/
def repartition (duration : τ) : CacheAction τ Unit := do
  let before ← cache
  let windows : List (Window τ) ← (liftM (partition duration before.chunkDuration) :
    Except Failure _)
  finishSweep (Cache.dropWhere (fun chunk => !Cache.stays windows chunk) before.chunks (← files))
  let after ← cache
  setCache { after with
    chunks := Cache.arrange after.nextSerial 0 before.chunks windows
    nextSerial := after.nextSerial + windows.length
    totalDuration := Scalar.maxOf Scalar.zero duration }
  save

/-- Invalidates the chunks that meet a condition, and gives their places. -/
def invalidateWhere (meets : Chunk τ → Bool) : CacheAction τ (List Nat) := do
  let sweep := Cache.invalidateWhere meets (← cache).chunks (← files)
  finishSweep sweep
  if !sweep.affected.isEmpty then save
  return sweep.affected

/-- Invalidates the chunks that meet a stretch of time. -/
def invalidate (start stop : τ) : CacheAction τ (List Nat) :=
  invalidateWhere fun chunk => chunk.window.intersects start stop

def invalidateEvery : CacheAction τ (List Nat) := invalidateWhere fun _ => true

/-- Renders for another output from here on. If that makes a difference, nothing that was
rendered is valid any more. -/
def applySettings (settings : OutputFormat τ) : CacheAction τ Bool := do
  let before ← cache
  setCache { before with settings }
  if before.settings.sameOutput settings then return false
  let _ ← invalidateEvery
  return true

/-- The chunk at a place. -/
def chunkAt (index : Int) : CacheAction τ (Chunk τ) := do
  match (← cache).get index with
  | .ok chunk => return chunk
  | .error cause => throw (.render cause)

def putChunk (chunk : Chunk τ) : CacheAction τ Unit := do
  setCache ((← cache).put chunk)

/-- The render of a chunk begins. -/
def startRender (index : Int) : CacheAction τ (Chunk τ) := do
  let chunk ← chunkAt index
  if !chunk.status.allows .rendering then
    throw (.render (Cache.refusal chunk .rendering))
  let chunk := Cache.beginRender chunk
  putChunk chunk
  return chunk

/-- A chunk that is not valid loses its file. -/
def dropStale (chunk : Chunk τ) : CacheAction τ (Chunk τ) := do
  if chunk.status = .valid then return chunk
  match Cache.dropOutput chunk (← files) with
  | .ok (chunk, files) => do
    setFiles files
    return chunk
  | .error cause => throw (.file cause)

/-- The render of a chunk is done. -/
def finishRender (index : Int) (outputPath : String) (contentHash : Option String)
    (isComplex : Option Bool) : CacheAction τ (Chunk τ) := do
  let chunk ← chunkAt index
  if chunk.status ≠ .rendering then throw (.render (Cache.refusal chunk .valid))
  let ended := Cache.endRender chunk outputPath contentHash isComplex
  -- Even if its file cannot be removed, the chunk is stale from here on.
  putChunk ended
  let ended := { (← dropStale ended) with renderGeneration := none }
  putChunk ended
  save
  return ended

/-- The render of a chunk has failed. -/
def failRender (index : Int) (message : String) (contentHash : Option String) :
    CacheAction τ (Chunk τ) := do
  let chunk ← chunkAt index
  if !chunk.status.allows .error then throw (.render (Cache.refusal chunk .error))
  let chunk := { chunk with
    status := .error, error := some message, failedHash := contentHash
    renderGeneration := none }
  putChunk chunk
  save
  return chunk

/-- The manifest on disk; none if there is none that can be read. Bytes that are no text are an
error. -/
def readManifest : CacheAction τ (Option (Manifest τ)) := do
  let path := (← cache).manifestFile.text
  match (← files).read path with
  | .error _ => return none
  | .ok bytes =>
    match Text.Utf8.decode? bytes with
    | none => throw .notText
    | some text => return Manifest.read? (← get).disk.now text

/-- Chunks with those restored that a manifest records and whose files are there. -/
def restore (folder : Path) (files : FileTree) (chunks : List (Chunk τ)) :
    List ManifestEntry → Except FileError (List (Chunk τ))
  | [] => .ok chunks
  | entry :: rest => do
    let path := (folder.join entry.fileName).text
    if entry.index < chunks.length then
      if ← files.checkExists path then
        let restored := chunks.map fun chunk =>
          if chunk.index = entry.index then
            { chunk with
              status := .valid, contentHash := some entry.contentHash
              outputPath := some path, isComplex := entry.isComplex }
          else chunk
        return ← restore folder files restored rest
    restore folder files chunks rest

/-- Whether a name is that of a rendered chunk. -/
def isChunkFile (name : String) : Bool :=
  "chunk-".toList.isPrefixOf name.toList && ".mp4".toList.isSuffixOf name.toList &&
    10 ≤ name.length

/-- Deletes the files of all chunks that were ever rendered. -/
def deleteChunkFiles : CacheAction τ Unit := do
  let folder := (← cache).folder
  for name in (← files).namesIn folder.text do
    if isChunkFile name then
      if let .error cause ← onFiles fun files => files.remove (folder.join name).text then
        throw (.file cause)

/-- New chunks with those restored that were rendered before. If the manifest is that of another
project, partition or output, the files are deleted. -/
def recover (found : Option (Manifest τ)) (fresh : List (Chunk τ)) :
    CacheAction τ (List (Chunk τ)) := do
  match found with
  | none => return fresh
  | some manifest =>
    let opened ← cache
    if opened.accepts manifest then
      match restore opened.folder (← files) fresh manifest.entries with
      | .ok chunks => return chunks
      | .error cause => throw (.file cause)
    else
      -- The files show something else than this cache would render.
      deleteChunkFiles
      setCache { (← cache) with createdAt := (← get).disk.now }
      return fresh

/-- The manifest on disk; a cache is as old as the manifest that it finds. -/
def findManifest : CacheAction τ (Option (Manifest τ)) := do
  let found ← readManifest
  if let some manifest := found then
    setCache { (← cache) with createdAt := manifest.createdAt }
  return found

/-- Cuts the timeline of a project, and restores the chunks that were rendered for it before. -/
def openProject (projectPath : Option String) (duration : τ) (projectTime : Option τ) :
    CacheAction τ Unit := do
  setCache { (← cache) with
    projectHash := ContentHash.ofProject projectPath, projectTime, chunks := [] }
  let found ← findManifest
  let opened ← cache
  let windows : List (Window τ) ← (liftM (partition duration opened.chunkDuration) :
    Except Failure _)
  setCache { opened with nextSerial := opened.nextSerial + windows.length }
  let chunks ← recover found (Cache.arrange opened.nextSerial 0 [] windows)
  setCache { (← cache) with chunks, totalDuration := Scalar.maxOf Scalar.zero duration }
  save

/-- Deletes all files of chunks and forgets what was rendered. -/
def wipe : CacheAction τ Unit := do
  deleteChunkFiles
  let cache ← cache
  setCache { cache with chunks := cache.chunks.map Cache.reset }
  save

end CacheAction

end Montage
