import Montage.Proofs.Chunk.Clear
import Montage.Proofs.Chunk.Partition
import Montage.Proofs.Chunk.Restore

/-!
# What a project finds when it is opened again

A cache saves its manifest, and another one in the same folder opens a project. If the manifest is one
that it accepts, each chunk of the new partition is what stood at its place, as long as that was valid
and its file is still there, and all others are missing. If it is not, all chunks are missing and the
files are deleted.

Projects are told apart by their hashes alone, so no path and an empty one are one project. Opening
goes through only if the windows can be counted, if the files can be asked for and if what is named
like a rendered chunk can be deleted.

## Main definitions

* `CacheState.Inherits` — another cache in the folder of one that saved its manifest

## Main results

* `CacheAction.openProject_reopens` — a project whose manifest is accepted is opened with its chunks
* `CacheAction.openProject_clears` — any other is opened without, and the files are deleted
* `CacheAction.openProject_after_save` — both, for a new cache in the folder
-/

namespace Montage

/-- Another cache in the folder of one that saved its manifest: nothing has changed on disk since then
but files other than the manifest. -/
structure CacheState.Inherits {τ : Type} (fresh saved : CacheState τ) : Prop where
  folder : fresh.cache.folder = saved.cache.folder
  folders : saved.disk.files.SameFolders fresh.disk.files
  manifest : fresh.disk.files.read fresh.cache.manifestFile.text =
    saved.disk.files.read saved.cache.manifestFile.text

namespace CacheAction

open FileTree

section Reopen

variable {before saved fresh : CacheState Double} {path : Option String} {duration : Double}
  {time : Option Double} {windows : List (Window Double)}

/-- A new cache in the folder takes over what was saved. -/
theorem inherits_of_save {cache : Cache Double} (ran : save before = .ok () saved)
    (folder : cache.folder = before.cache.folder) :
    CacheState.Inherits { cache, disk := saved.disk } saved := by
  obtain ⟨after, -, rfl⟩ := save_eq_ok ran
  refine ⟨folder, .refl _, ?_⟩
  rw [Cache.manifestFile, folder]
  rfl

/-- What was saved is found. -/
theorem finds_of_inherits (readable : (before.cache.manifest before.disk.now).Readable)
    (ran : save before = .ok () saved) (inherits : fresh.Inherits saved) :
    Finds (beginOpen path time fresh) (before.cache.manifest before.disk.now).kept := by
  obtain ⟨after, saves, rfl⟩ := save_eq_ok ran
  refine finds_of_holds ?_ readable
  change fresh.disk.files.Holds fresh.cache _
  rw [Holds, inherits.manifest]
  exact saves.holds

/-- Where a manifest was saved, one can be saved again. -/
theorem takesManifest_of_inherits (ran : save before = .ok () saved)
    (inherits : fresh.Inherits saved) : fresh.disk.files.TakesManifest fresh.cache := by
  obtain ⟨after, saves, rfl⟩ := save_eq_ok ran
  exact (saves.takesManifest.of_sameFolders inherits.folders).of_folder inherits.folder

/-- The manifest of a cache is accepted by one that begins to open a project. -/
theorem accepts_beginOpen_iff {now : Timestamp} :
    (beginOpen path time fresh).cache.accepts (before.cache.manifest now) = true ↔
      before.cache.projectHash = ContentHash.ofProject path ∧
      (before.cache.chunkDuration == fresh.cache.chunkDuration) = true ∧
      before.cache.settings.SameFrames fresh.cache.settings := Cache.accepts_manifest_iff

/-- A project is opened with what stands in a manifest that is accepted. -/
theorem openProject_reopens (orderly : before.cache.Orderly)
    (readable : (before.cache.manifest before.disk.now).Readable)
    (ran : save before = .ok () saved) (inherits : fresh.Inherits saved)
    (lie : ∀ chunk ∈ before.cache.chunks, ∀ path contentHash, chunk.Recorded path contentHash →
      Path.ofText path = before.cache.folder.join (Path.ofText path).name)
    (askable : ∀ chunk ∈ before.cache.chunks, ∀ path contentHash, chunk.Recorded path contentHash →
      ∃ there, fresh.disk.files.checkExists (Path.ofText path).text = .ok there)
    (cut : partition duration fresh.cache.chunkDuration = .ok windows)
    (accepted : (beginOpen path time fresh).cache.accepts
      (before.cache.manifest before.disk.now) = true) :
    ∃ next, openProject path duration time fresh = .ok () next ∧
      next.cache.chunks.map Chunk.window = windows ∧
      ∀ (i : Nat) (chunk : Chunk Double), next.cache.chunks[i]? = some chunk →
        chunk.Reopened fresh.disk.files before.cache.chunks[i]? := by
  let opened := withFound (before.cache.manifest before.disk.now).kept windows
    (beginOpen path time fresh)
  let new := Cache.arrange fresh.cache.nextSerial 0 [] windows
  let again := new.map (restored before.cache.folder fresh.disk.files
    before.cache.entries)
  have reopens : Ensures (openProject path duration time) fresh
      (fun _ next => next.cache.chunks = again) (fun _ => False) := by
    have restores : restore opened.cache.folder opened.disk.files new
        (before.cache.manifest before.disk.now).kept.entries = .ok again := by
      have sameFolder : fresh.cache.folder = before.cache.folder := by
        obtain ⟨after, -, rfl⟩ := save_eq_ok ran
        exact inherits.folder
      change restore fresh.cache.folder fresh.disk.files new
        before.cache.entries = _
      rw [sameFolder]
      refine restore_manifest orderly lie askable fun chunk hchunk => ?_
      obtain ⟨i, hi⟩ := List.mem_iff_getElem?.mp hchunk
      rw [(Cache.arrange_fresh hi).1]
      exact (List.getElem?_eq_some_iff.mp hi).1
    have accepted' : opened.cache.accepts (before.cache.manifest before.disk.now).kept = true :=
      accepted
    rw [ensures_openProject (finds_of_inherits readable ran inherits) cut,
      ensures_recover_of_accepts accepted', restores]
    refine Ensures.mono (save_of_takesManifest ?_) (fun _ next saves => ?_) fun _ h => h
    · exact (takesManifest_of_inherits ran inherits).of_folder rfl
    · obtain ⟨after, -, rfl⟩ := saves
      rfl
  obtain ⟨_, next, ran, chunks⟩ := reopens.exists_ok
  refine ⟨next, ran, ?_, fun i chunk hchunk => ?_⟩
  · have same : Chunk.window ∘ restored before.cache.folder fresh.disk.files
        before.cache.entries = (Chunk.window : Chunk Double → Window Double) :=
      funext (restored_window _ _ _)
    rw [chunks, List.map_map, same, Cache.map_window_arrange]
  · rw [chunks, List.getElem?_map, Option.map_eq_some_iff] at hchunk
    obtain ⟨fresh, hfresh, rfl⟩ := hchunk
    obtain ⟨place, missing⟩ := Cache.arrange_fresh hfresh
    rw [← place]
    exact restored_reopened orderly lie missing

/-- A project is opened without any chunk if the manifest is not accepted, and the files of chunks are
deleted. -/
theorem openProject_clears (readable : (before.cache.manifest before.disk.now).Readable)
    (ran : save before = .ok () saved) (inherits : fresh.Inherits saved)
    (inside : fresh.cache.folder.Inside)
    (clearable : fresh.disk.files.Clearable fresh.cache.folder)
    (cut : partition duration fresh.cache.chunkDuration = .ok windows)
    (refused : ¬ (beginOpen path time fresh).cache.accepts
      (before.cache.manifest before.disk.now) = true) :
    ∃ next, openProject path duration time fresh = .ok () next ∧
      next.cache.chunks.map Chunk.window = windows ∧
      (∀ chunk ∈ next.cache.chunks, chunk.status = .missing) ∧
      next.disk.files.Cleared fresh.cache.folder := by
  let opened := withFound (before.cache.manifest before.disk.now).kept windows
    (beginOpen path time fresh)
  have opens : Ensures (openProject path duration time) fresh
      (fun _ next => next.cache.chunks = Cache.arrange fresh.cache.nextSerial 0 [] windows ∧
        next.disk.files.Cleared fresh.cache.folder) (fun _ => False) := by
    have refused' : ¬ opened.cache.accepts (before.cache.manifest before.disk.now).kept = true :=
      refused
    rw [ensures_openProject (finds_of_inherits readable ran inherits) cut,
      ensures_recover_of_not_accepts refused']
    have writable := takesManifest_of_inherits ran inherits
    have clears : Ensures deleteChunkFiles opened _ _ :=
      deleteChunkFiles_clears inside writable.folder clearable
    refine clears.mono (fun _ middle cleared => ?_) fun _ h => h
    have folder : middle.cache.folder = fresh.cache.folder := congrArg (·.cache.folder) cleared.1
    have writable' := (writable.of_sameFolders cleared.2.1.sameFolders).of_folder folder
    refine Ensures.mono (save_of_takesManifest ?_) (fun _ next saves => ?_) fun _ h => h
    · exact writable'.of_folder rfl
    · obtain ⟨after, saves, rfl⟩ := saves
      obtain ⟨-, -, cleared⟩ := cleared
      have cleared' : middle.disk.files.Cleared middle.cache.folder := folder ▸ cleared
      have stays : after.Cleared middle.cache.folder :=
        saves.cleared cleared' (folder ▸ inside) writable'.folder
      exact ⟨rfl, folder ▸ stays⟩
  obtain ⟨_, next, ran, chunks, cleared⟩ := opens.exists_ok
  refine ⟨next, ran, ?_, fun chunk hchunk => ?_, cleared⟩
  · rw [chunks, Cache.map_window_arrange]
  · rw [chunks] at hchunk
    obtain ⟨i, hi⟩ := List.mem_iff_getElem?.mp hchunk
    exact (Cache.arrange_fresh hi).2

/-- A project is opened in the folder in which a manifest was saved, with one chunk for each window. If
the manifest is for the same project, windows of the same length and frames of the same kind, each
chunk is what the manifest says if its file is there, and missing otherwise; if it is not, all chunks
are missing and no file of a chunk is left. -/
theorem openProject_after_save {text : String} (path : Option String) (duration : Double)
    (time : Option Double) (orderly : before.cache.Orderly)
    (readable : (before.cache.manifest before.disk.now).Readable)
    (ran : save before = .ok () saved) (inherits : fresh.Inherits saved)
    (path_folder : before.cache.folder = Path.ofText text)
    (lie : ∀ chunk ∈ before.cache.chunks, ∀ path contentHash, chunk.Recorded path contentHash →
      Path.ofText path = before.cache.folder.join (Path.ofText path).name)
    (length : Scalar.zero < fresh.cache.chunkDuration)
    (countable : duration ≤ Scalar.zero ∨
      (duration / fresh.cache.chunkDuration).isFinite = true) :
    let same : Prop := before.cache.projectHash = ContentHash.ofProject path ∧
      (before.cache.chunkDuration == fresh.cache.chunkDuration) = true ∧
      before.cache.settings.SameFrames fresh.cache.settings
    let askable : Prop := ∀ chunk ∈ before.cache.chunks, ∀ path contentHash,
      chunk.Recorded path contentHash →
        ∃ there, fresh.disk.files.checkExists (Path.ofText path).text = .ok there
    ∃ windows, partition duration fresh.cache.chunkDuration = .ok windows ∧
      (same → askable → ∃ next, openProject path duration time fresh = .ok () next ∧
        next.cache.chunks.map Chunk.window = windows ∧
        ∀ (i : Nat) (chunk : Chunk Double), next.cache.chunks[i]? = some chunk →
          chunk.Reopened fresh.disk.files before.cache.chunks[i]?) ∧
      (¬ same → fresh.disk.files.Clearable fresh.cache.folder →
        ∃ next, openProject path duration time fresh = .ok () next ∧
          next.cache.chunks.map Chunk.window = windows ∧
          (∀ chunk ∈ next.cache.chunks, chunk.status = .missing) ∧
          next.disk.files.Cleared fresh.cache.folder) := by
  intro same askable
  obtain ⟨windows, cut⟩ := exists_partition length countable
  refine ⟨windows, cut, fun agrees asked => ?_, fun differs clearable => ?_⟩
  · exact openProject_reopens orderly readable ran inherits lie asked cut (accepts_beginOpen_iff.mpr agrees)
  · have writable := takesManifest_of_inherits ran inherits
    obtain ⟨after, -, rfl⟩ := save_eq_ok ran
    have folder : fresh.cache.folder = Path.ofText text := inherits.folder.trans path_folder
    have inside : fresh.cache.folder.Inside := folder ▸ Path.inside_ofText text
    exact openProject_clears readable ran inherits inside clearable cut fun accepted =>
      differs (accepts_beginOpen_iff.mp accepted)

end Reopen

end CacheAction

/-! ### A project of one window -/

namespace Kept

open CacheAction Repainted

/-- A chunk that was rendered to some path. -/
def rendered (path : String) : Chunk Double where
  serial := 0
  index := 0
  start := Scalar.zero
  stop := half
  status := .valid
  contentHash := some "aa"
  outputPath := some path

/-- A cache with one chunk, which has a file at some path, and with more in its folder. -/
def kept (path : String) (more : List (Place × FileNode)) : CacheState Double where
  cache := { created.cache with
    totalDuration := half, chunks := [rendered path], nextSerial := 1 }
  disk := { files := ⟨(["cache"], .folder) :: more⟩, now := day }

/-- The chunk has a file, which is there. -/
def before : CacheState Double := kept "cache/chunk-0-aa.mp4" [(["cache", "chunk-0-aa.mp4"], .file [1])]

/-- A folder is named like a chunk. -/
def blocked : CacheState Double := kept "cache/chunk-0-aa.mp4" [(["cache", "chunk-0.mp4"], .folder)]

/-- The file of the chunk has some name in the folder, and is not there. -/
def named (name : String) : CacheState Double := kept (created.cache.folder.join name).text []

/-- A new cache in the folder, after the manifest was saved. -/
def afresh (state : CacheState Double) (chunkDuration : Double) : CacheState Double where
  cache := { created.cache with chunkDuration }
  disk := (leaves save state).disk

/-- The greatest power of ten that is a double, and the least. -/
def huge : Double := Double.ofRatio false (Nat.pow 10 308) 1

def tiny : Double := Double.ofRatio false 1 (Nat.pow 10 308)

/-- The same letter over and over. -/
def repeated (n : Nat) : String := String.ofList (List.replicate n 'a')

-- What is evaluated stands together, since each evaluation takes its time.
theorem defaults_known : ShortNumeral Manifest.currentVersion ∧ ShortNumeral 0 ∧
    ShortNumeral ({} : OutputFormat Double).width ∧ ShortNumeral ({} : OutputFormat Double).height ∧
    ({} : OutputFormat Double).frameRate.value.isFinite = true ∧
    ({} : OutputFormat Double).SameFrames {} ∧
    day.isValid = true ∧ day.year < 10 ^ 4 ∧ day.microsecond < 10 ^ 6 ∧
    ∀ minutes ∈ day.offset, minutes.natAbs < 1440 := by decide +kernel

theorem numbers_known : half.isFinite = true ∧ huge.isFinite = true ∧ tiny.isFinite = true ∧
    Scalar.zero < half ∧ (half / half).isFinite = true ∧ (half == half) = true ∧
    partition half half = .ok [⟨Scalar.zero, half⟩] ∧ partition half 1 = .ok [⟨Scalar.zero, half⟩] ∧
    partition huge tiny = .error .infinite ∧
    FileTree.maxNameBytes < (repeated 256).utf8ByteSize := by decide +kernel

theorem takesManifest_known : before.disk.files.TakesManifest before.cache ∧
    blocked.disk.files.TakesManifest blocked.cache ∧
    FileTree.TakesManifest ⟨[(["cache"], .folder)]⟩ created.cache := by decide +kernel

theorem before_known :
    (afresh before half).disk.files.checkExists (Path.ofText "cache/chunk-0-aa.mp4").text = .ok true ∧
    Path.ofText "cache/chunk-0-aa.mp4" =
      before.cache.folder.join (Path.ofText "cache/chunk-0-aa.mp4").name := by decide +kernel

theorem blocked_known :
    ¬ (beginOpen none none (afresh blocked 1)).cache.accepts
      (blocked.cache.manifest blocked.disk.now).kept = true ∧
    succeeds deleteChunkFiles (withFound (blocked.cache.manifest blocked.disk.now).kept
      [⟨Scalar.zero, half⟩] (beginOpen none none (afresh blocked 1))) = false := by decide +kernel

theorem day_regular : day.Regular :=
  have ⟨_, _, _, _, _, _, valid, year, microsecond, offset⟩ := defaults_known
  { valid, year, microsecond, offset }

theorem mem_chunks {path : String} {more : List (Place × FileNode)} {chunk : Chunk Double} :
    chunk ∈ (kept path more).cache.chunks ↔ chunk = rendered path := List.mem_singleton

theorem readable (path : String) (more : List (Place × FileNode)) :
    ((kept path more).cache.manifest (kept path more).disk.now).Readable where
  version := defaults_known.1
  chunkDuration := by
    simp only [Cache.manifest, kept, created]
    exact numbers_known.1
  totalDuration := by
    simp only [Cache.manifest, kept]
    exact numbers_known.1
  width := defaults_known.2.2.1
  height := defaults_known.2.2.2.1
  frameRate := defaults_known.2.2.2.2.1
  indices entry h := by
    obtain ⟨chunk, hchunk, made⟩ := List.mem_filterMap.mp h
    rw [← (Cache.entry?_eq_some made).2.1, mem_chunks.mp hchunk]
    exact defaults_known.2.1
  createdAt := day_regular
  updatedAt := day_regular

theorem orderly (path : String) (more : List (Place × FileNode)) :
    (kept path more).cache.Orderly where
  placed i chunk h := by
    cases i with
    | zero => exact (Option.some.inj h) ▸ rfl
    | succ i => exact absurd h (by simp [kept])
  distinct := List.nodup_singleton _
  numbered chunk h := mem_chunks.mp h ▸ Nat.one_pos
  begun chunk h g hg := by
    rw [mem_chunks.mp h] at hg
    exact absurd hg (by simp [rendered])

theorem inherits {state : CacheState Double} (saves : save state = .ok () (leaves save state))
    (folder : created.cache.folder = state.cache.folder) (length : Double) :
    (afresh state length).Inherits (leaves save state) := inherits_of_save saves folder

theorem before_saves : save before = .ok () (leaves save before) :=
  save_eq_leaves takesManifest_known.1

theorem before_inherits : (afresh before half).Inherits (leaves save before) :=
  inherits before_saves rfl half

theorem before_orderly : before.cache.Orderly := orderly _ _

theorem before_readable : (before.cache.manifest before.disk.now).Readable := readable _ _

/-- The path of the file of the one chunk. -/
theorem path_eq {chunk : Chunk Double} (h : chunk ∈ before.cache.chunks) {path contentHash : String}
    (recorded : chunk.Recorded path contentHash) : path = "cache/chunk-0-aa.mp4" := by
  have output := recorded.output
  rw [mem_chunks.mp h, Chunk.output?, rendered, Option.filter_some_pos (by decide)] at output
  exact (Option.some.inj output).symm

theorem before_lies : ∀ chunk ∈ before.cache.chunks, ∀ path contentHash,
    chunk.Recorded path contentHash →
      Path.ofText path = before.cache.folder.join (Path.ofText path).name := by
  intro chunk h path contentHash recorded
  obtain rfl := path_eq h recorded
  exact before_known.2

theorem before_askable : ∀ chunk ∈ before.cache.chunks, ∀ path contentHash,
    chunk.Recorded path contentHash →
      ∃ there, (afresh before half).disk.files.checkExists (Path.ofText path).text = .ok there := by
  intro chunk h path contentHash recorded
  obtain rfl := path_eq h recorded
  exact ⟨true, before_known.1⟩

theorem half_cut (state : CacheState Double) :
    partition half (afresh state half).cache.chunkDuration = .ok [⟨Scalar.zero, half⟩] := by
  simp only [afresh]
  exact numbers_known.2.2.2.2.2.2.1

/-- The manifest of a cache of one chunk is one for no project, with the same windows and frames as the
new one. -/
theorem same_project (state : CacheState Double) (path : String) (more : List (Place × FileNode))
    (h : state = kept path more) :
    state.cache.projectHash = ContentHash.ofProject none ∧
      (state.cache.chunkDuration == (afresh state half).cache.chunkDuration) = true ∧
      state.cache.settings.SameFrames (afresh state half).cache.settings := by
  subst h
  refine ⟨rfl, ?_⟩
  simp only [afresh, kept, created]
  exact ⟨numbers_known.2.2.2.2.2.1, defaults_known.2.2.2.2.2.1⟩

end Kept

open CacheAction Repainted Kept

/-- The chunk is found again by a new cache that opens the project. -/
theorem kept_chunk_is_found : ∃ next, openProject none half none (afresh before half) = .ok () next ∧
    next.cache.chunks.map Chunk.window = [⟨Scalar.zero, half⟩] ∧
    ∀ (i : Nat) (chunk : Chunk Double), next.cache.chunks[i]? = some chunk →
      chunk.Reopened (afresh before half).disk.files before.cache.chunks[i]? := by
  have folder : before.cache.folder = Path.ofText "cache" := rfl
  have length : Scalar.zero < (afresh before half).cache.chunkDuration := by
    simp only [afresh]
    exact numbers_known.2.2.2.1
  have countable : half ≤ Scalar.zero ∨
      (half / (afresh before half).cache.chunkDuration).isFinite = true := by
    simp only [afresh]
    exact .inr numbers_known.2.2.2.2.1
  obtain ⟨windows, cut, reopens, -⟩ := openProject_after_save none half none before_orderly
    before_readable before_saves before_inherits folder before_lies length countable
  obtain rfl := Except.ok.inj ((half_cut before).symm.trans cut)
  exact reopens (same_project before _ _ rfl) before_askable

namespace Kept

/-- The chunk is found by every project that goes for the one without a path. -/
theorem project_finds_chunk {path : Option String}
    (same : ContentHash.ofProject none = ContentHash.ofProject path) : ∃ next,
    openProject path half none (afresh before half) = .ok () next ∧
      ∃ chunk ∈ next.cache.chunks, chunk.status = .valid := by
  have accepts : (beginOpen path none (afresh before half)).cache.accepts
      (before.cache.manifest before.disk.now) = true := by
    obtain ⟨project, alike⟩ := same_project before _ _ rfl
    exact accepts_beginOpen_iff.mpr ⟨project.trans same, alike⟩
  obtain ⟨next, ran, windows, reopened⟩ := openProject_reopens before_orderly before_readable
    before_saves before_inherits before_lies before_askable (half_cut before) accepts
  refine ⟨next, ran, ?_⟩
  have one : next.cache.chunks.length = 1 := by
    rw [← List.length_map Chunk.window, windows]
    rfl
  obtain ⟨chunk, chunks⟩ := List.length_eq_one_iff.mp one
  refine ⟨chunk, chunks ▸ List.mem_singleton_self chunk, ?_⟩
  rcases reopened 0 chunk (by rw [chunks]; rfl) with ⟨_, _, _, -, valid, -⟩ | ⟨missing, -⟩
  · exact valid
  · refine absurd ?_ (missing "cache/chunk-0-aa.mp4" "aa" (rendered "cache/chunk-0-aa.mp4"))
    exact ⟨rfl, ⟨rfl, Option.filter_some_pos (by decide), Option.filter_some_pos (by decide)⟩,
      checkExists_eq_ok before_known.1⟩

theorem blocked_saves : save blocked = .ok () (leaves save blocked) :=
  save_eq_leaves takesManifest_known.2.1

/-- A folder of the name of a chunk cannot be deleted, so no other project is opened. -/
theorem blocked_fails : succeeds (openProject none half none) (afresh blocked 1) = false := by
  have cut : partition half (afresh blocked 1).cache.chunkDuration = .ok [⟨Scalar.zero, half⟩] := by
    simp only [afresh]
    exact numbers_known.2.2.2.2.2.2.2.1
  exact openProject_fails_of_delete (finds_of_inherits (readable _ _) blocked_saves
    (inherits blocked_saves rfl 1)) cut blocked_known.1 blocked_known.2

theorem folder_inside : created.cache.folder.Inside := Path.inside_ofText "cache"

theorem named_saves (name : String) : save (named name) = .ok () (leaves save (named name)) :=
  save_eq_leaves (takesManifest_known.2.2.of_folder rfl)

/-- The entry for a chunk whose file has some name in the folder. -/
def namedEntry (name : String) : ManifestEntry where
  index := 0
  contentHash := "aa"
  fileName := name
  isComplex := false

theorem named_entries {name : String} (plain : Path.Plain name) :
    (named name).cache.entries = [namedEntry name] := by
  have inside := folder_inside.join plain
  have names : (created.cache.folder.join name).names = created.cache.folder.names ++ [name] :=
    Path.names_join plain
  have recorded : (rendered (created.cache.folder.join name).text).Recorded
      (created.cache.folder.join name).text "aa" :=
    ⟨rfl, Option.filter_some_pos (by simpa using Path.text_ne_empty _),
      Option.filter_some_pos (by decide)⟩
  have entry : Cache.entry? (rendered (created.cache.folder.join name).text) =
      some (namedEntry name) := by
    refine Cache.entry?_eq_some_iff.mpr ⟨_, _, recorded, ?_⟩
    rw [inside.ofText_text, Path.name, names, List.getLast?_concat]
    rfl
  exact List.filterMap_cons_some entry

/-- A file of a name that is too long cannot be asked for, so the same project is not opened. -/
theorem named_fails {name : String} (plain : Path.Plain name)
    (long : FileTree.maxNameBytes < name.utf8ByteSize)
    (noNull : (created.cache.folder.join name).text.toList.contains (Char.ofNat 0) = false) :
    succeeds (openProject none half none) (afresh (named name) half) = false := by
  have accepts : (beginOpen none none (afresh (named name) half)).cache.accepts
      ((named name).cache.manifest (named name).disk.now).kept = true := by
    rw [Cache.accepts_kept]
    exact accepts_beginOpen_iff.mpr (same_project (named name) _ _ rfl)
  refine openProject_fails_of_restore (finds_of_inherits (readable _ _) (named_saves name)
    (inherits (named_saves name) rfl half)) (half_cut _) accepts ?_
  have folder : (afresh (named name) half).disk.files.isFolder created.cache.folder.text = true :=
    (takesManifest_of_inherits (named_saves name) (inherits (named_saves name) rfl half)).folder
  have here : (namedEntry name).index < (Cache.arrange created.cache.nextSerial 0 []
      [(⟨Scalar.zero, half⟩ : Window Double)]).length := by
    rw [Cache.length_arrange]
    exact Nat.one_pos
  have unasked := FileTree.checkExists_of_long folder_inside plain folder long noNull
  have stuck : restore created.cache.folder (afresh (named name) half).disk.files
      (Cache.arrange created.cache.nextSerial 0 [] [⟨Scalar.zero, half⟩])
      [namedEntry name] = .error _ := restore_cons_error here unasked
  rw [← named_entries plain] at stuck
  rw [Cache.entries_kept]
  exact congrArg Except.toBool stuck

theorem repeated_plain {n : Nat} (h : 2 ≤ n) : Path.Plain (repeated n) where
  nonempty same := by
    have length := congrArg String.length same
    rw [repeated, String.length_ofList, List.length_replicate, String.length_empty] at length
    omega
  not_here same := by
    have length := congrArg String.length same
    rw [repeated, String.length_ofList, List.length_replicate, show ".".length = 1 from rfl] at length
    omega
  no_slash c hc := by
    rw [repeated, String.toList_ofList] at hc
    rw [List.eq_of_mem_replicate hc]
    decide

theorem repeated_noNull {n : Nat} (h : 2 ≤ n) :
    (created.cache.folder.join (repeated n)).text.toList.contains (Char.ofNat 0) = false := by
  have inside := folder_inside.join (repeated_plain h)
  have path : created.cache.folder.join (repeated n) = { names := ["cache", repeated n] } := by
    have folder : created.cache.folder = { names := ["cache"] } := by decide +kernel
    rw [Path.join_of_plain _ (repeated_plain h), folder]
    rfl
  have text : "/".intercalate ["cache", repeated n] = "cache/" ++ repeated n := by
    simp [String.intercalate_cons_cons]
  rw [path] at inside ⊢
  rw [inside.text_eq, if_neg (by simp), String.empty_append, text, Bool.eq_false_iff, ne_eq,
    List.contains_iff_mem, String.toList_append, List.mem_append, not_or]
  refine ⟨by decide, ?_⟩
  rw [repeated, String.toList_ofList]
  exact fun h => absurd (List.eq_of_mem_replicate h) (by decide)

/-- The number of windows is beyond the doubles, so no project is opened. -/
theorem uncounted_fails : succeeds (openProject none huge none) (afresh before tiny) = false := by
  have cut : partition huge (afresh before tiny).cache.chunkDuration = .error .infinite := by
    simp only [afresh]
    exact numbers_known.2.2.2.2.2.2.2.2.1
  exact openProject_fails_of_partition cut

theorem succeeds_save {state : CacheState Double} (saves : save state = .ok () (leaves save state)) :
    succeeds save state = true := by
  rw [succeeds, saves]

end Kept

/-- Of a cache with one valid chunk, whose manifest was saved: a cache of another project, whose path is
empty, finds the chunk; and no project is opened where a folder is named like a chunk, where the name
of its file is too long, or where there are too many windows to be counted. -/
theorem exists_reopening_exception :
    (succeeds save before = true ∧ ∃ next,
      openProject (some "") half none (afresh before half) = .ok () next ∧
        ∃ chunk ∈ next.cache.chunks, chunk.status = .valid) ∧
    (succeeds save blocked = true ∧
      succeeds (openProject none half none) (afresh blocked 1) = false) ∧
    (succeeds save (named (repeated 256)) = true ∧
      succeeds (openProject none half none) (afresh (named (repeated 256)) half) = false) ∧
    (huge.isFinite = true ∧ tiny.isFinite = true ∧
      succeeds (openProject none huge none) (afresh before tiny) = false) := by
  refine ⟨⟨succeeds_save before_saves, project_finds_chunk rfl⟩,
    ⟨succeeds_save blocked_saves, blocked_fails⟩, ⟨succeeds_save (named_saves _), ?_⟩,
    numbers_known.2.1, numbers_known.2.2.1, uncounted_fails⟩
  exact named_fails (repeated_plain (by decide)) numbers_known.2.2.2.2.2.2.2.2.2
    (repeated_noNull (by decide))

end Montage
