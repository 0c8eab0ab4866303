import Montage.Encode.Chunk
import Montage.Service.Request

/-!
Steps on a cache of chunks and on the files around it.
-/

namespace Montage.Service

variable (report : Failure → Value)

/-- A step on files, if it is one; the state holds the disk. -/
def fileStep? {σ : Type} (disk : σ → Disk) (setDisk : σ → Disk → σ) (step : Value) :
    Option (EStateM Failure σ Value) :=
  let path := textOf (field step "path")
  let onFiles (change : FileTree → Except FileError FileTree) : EStateM Failure σ Value := do
    let state ← get
    match change (disk state).files with
    | .ok files => do
      set (setDisk state { disk state with files })
      return .null
    | .error cause => throw (.file cause)
  match textOf (field step "do") with
  | "write_file" => some (onFiles fun files => files.writeNested path (bytesOf (field step "data")))
  | "mkdir" => some (onFiles fun files => files.makeFolders (Path.ofText path))
  | "delete" => some (onFiles fun files => do
      let place ← files.locate path
      match files.node? place with
      | none => .error (.notFound path)
      | some _ => return files.eraseBelow place)
  | "read_file" => some do
      match (disk (← get)).files.read path with
      | .error cause => throw (.file cause)
      | .ok bytes =>
        match Text.Utf8.decode? bytes with
        | some text => return .text text
        | none => throw .notText
  | "set_clock" => some do
      match Timestamp.read? (textOf (field step "time")) with
      | some now => do
        modify fun state => setDisk state { disk state with now }
        return .null
      | none => throw (.number .notNumeral)
  | _ => none

/-- A new cache as a request describes it. -/
def cacheOf (config : Result Config) (now : Timestamp) (input : Value) :
    Result (Cache Double) := do
  let settings ← settingsOf? (field input "settings")
  let chunkDuration ← optionalDouble (field input "chunk_duration")
  Cache.create (← config) now (Path.ofText "cache") chunkDuration settings

/-- A step on the cache, if it is one. -/
def cacheStep? (step : Value) : Option (CacheAction Double Value) :=
  let index := intOf (field step "index")
  let hash := optionalText (field step "hash")
  let complex := optionalBool (field step "is_complex")
  let double (name : String) : CacheAction Double Double := doubleOf (field step name)
  let chunkCount : CacheAction Double Value := return Json.int (← get).cache.chunks.length
  match textOf (field step "do") with
  | "initialize" => some do
      CacheAction.repartition (← double "duration")
      chunkCount
  | "get" => some do return Encode.chunk (← CacheAction.chunkAt index)
  | "index_at" => some do
      let cache := (← get).cache
      return .list ((items (field step "times")).map fun given => shown report do
        let t ← doubleOf given
        let found : Option Nat ← cache.indexAt? t
        return Json.ofInt? (found.map Int.ofNat))
  | "needing_render" => some do
      return Encode.indices ((← get).cache.waitingChunks.map (·.index))
  | "invalidate" => some do
      let start ← double "start"
      return Encode.indices (← CacheAction.invalidate start (← double "end"))
  | "invalidate_all" => some do return Encode.indices (← CacheAction.invalidateEvery)
  | "apply_settings" => some do
      let settings ← (settingsOf (field step "settings") : Result _)
      return .bool (← CacheAction.applySettings settings)
  | "mark_rendering" => some do return Encode.chunk (← CacheAction.startRender index)
  | "mark_valid" => some do
      let path := textOf (field step "path")
      return Encode.chunk (← CacheAction.finishRender index path hash complex)
  | "finish" => some do
      let path := ((← get).cache.outputPath index (hash.getD "")).text
      let size := match field step "size" with
        | .null => 4
        | j => (intOf j).toNat
      match (← get).disk.files.writeNested path (List.replicate size 0) with
      | .ok files => CacheAction.setFiles files
      | .error cause => throw (.file cause)
      return Encode.chunk (← CacheAction.finishRender index path hash complex)
  | "mark_error" => some do
      return Encode.chunk (← CacheAction.failRender index (textOf (field step "message")) hash)
  | "output_path" => some do
      return .text ((← get).cache.outputPath index (hash.getD "")).text
  | "open" => some do
      let projectTime ← (optionalDouble (field step "project_mtime") : Result _)
      CacheAction.openProject (optionalText (field step "project_path")) (← double "duration")
        projectTime
      chunkCount
  | "save_manifest" => some do
      CacheAction.save
      return .null
  | "load_manifest" => some do
      return ((← CacheAction.readManifest).map (Encode.manifest Timestamp.text)).getD .null
  | "can_reuse" => some do
      let found ← CacheAction.readManifest
      let cache := (← get).cache
      return (found.map fun manifest => Json.bool (cache.accepts manifest)).getD .null
  | "entry_for" => some do
      let found ← CacheAction.readManifest
      return .list ((items (field step "indices")).map fun i =>
        ((found.bind fun manifest => manifest.entryFor? (intOf i)).map
          Encode.manifestEntry).getD .null)
  | "clear_all" => some do
      CacheAction.wipe
      return .null
  | "stats" => some do
      let state ← get
      return .object (Encode.cacheStats state.cache state.disk.files)
  | _ => fileStep? (·.disk) (fun state disk => { state with disk }) step

end Montage.Service
