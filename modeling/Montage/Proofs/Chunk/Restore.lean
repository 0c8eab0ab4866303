import Montage.Proofs.Chunk.Cache
import Montage.Proofs.Chunk.Save

/-!
# What is restored from a manifest

A manifest has an entry for each chunk that is valid and has a file and a hash. When a project is
opened, new chunks are cut; if the manifest is accepted, each of them becomes what the entry for its
place says, provided that the file is still there, and the others stay missing.

## Main definitions

* `Chunk.Recorded` — a chunk that stands in a manifest
* `Chunk.Reopened` — what becomes of a chunk when its project is opened again

## Main results

* `CacheAction.restore_manifest` — each chunk is restored on its own
* `CacheAction.restored_reopened` — what is restored is what stood there
* `CacheAction.ensures_openProject` — opening a project whose manifest is found
-/

namespace Montage

variable {τ : Type}

namespace Chunk

/-- A chunk that stands in a manifest: it is valid, and has a file and a hash. -/
structure Recorded (chunk : Chunk τ) (path contentHash : String) : Prop where
  valid : chunk.status = .valid
  output : chunk.output? = some path
  contentHash : chunk.contentHash.filter (· ≠ "") = some contentHash

/-- What becomes of the chunk that stood at a place when its project is opened again: it is as it was
recorded if its file is there, and missing otherwise. -/
def Reopened (files : FileTree) (old? : Option (Chunk τ)) (chunk : Chunk τ) : Prop :=
  let found (path contentHash : String) (old : Chunk τ) : Prop :=
    old? = some old ∧ old.Recorded path contentHash ∧
      files.pathExists (Path.ofText path).text = true
  (∃ path contentHash old, found path contentHash old ∧ chunk.status = .valid ∧
    chunk.contentHash = some contentHash ∧ chunk.isComplex = old.isComplex ∧
    chunk.outputPath = some (Path.ofText path).text) ∨
  ((∀ path contentHash old, ¬ found path contentHash old) ∧ chunk.status = .missing)

end Chunk

namespace Cache

/-- The manifest has an entry for a chunk that is recorded. -/
theorem entry?_eq_some_iff {chunk : Chunk τ} {entry : ManifestEntry} :
    entry? chunk = some entry ↔ ∃ path contentHash, chunk.Recorded path contentHash ∧
      entry = { index := chunk.index, contentHash, fileName := (Path.ofText path).name
                isComplex := chunk.isComplex } := by
  constructor
  · intro h
    unfold entry? at h
    split at h
    · next path contentHash valid output hash =>
      exact ⟨path, contentHash, ⟨valid, output, hash⟩, (Option.some.inj h).symm⟩
    · exact absurd h (by simp)
  · rintro ⟨path, contentHash, recorded, rfl⟩
    rw [ entry?, recorded.valid, recorded.output, recorded.contentHash]

/-- What the manifest of a cache lists. -/
def entries (cache : Cache τ) : List ManifestEntry := cache.chunks.filterMap entry?

/-- No two entries of a manifest are for one place. -/
theorem Orderly.nodup_entries {cache : Cache τ} (orderly : cache.Orderly) :
    (cache.entries.map (·.index)).Nodup := by
  have indices : cache.chunks.map (·.index) = List.range cache.chunks.length := by
    refine List.ext_getElem (by simp) fun i below _ => ?_
    rw [List.getElem_map, List.getElem_range]
    exact orderly.placed i _ (List.getElem?_eq_getElem (by simpa using below))
  have distinct : (cache.chunks.map (·.index)).Nodup := indices ▸ List.nodup_range
  refine List.pairwise_map.mpr (List.pairwise_filterMap.mpr ((List.pairwise_map.mp distinct).imp ?_))
  intro chunk other differ entry hentry entry' hentry' same
  rw [← (entry?_eq_some hentry).2.1, ← (entry?_eq_some hentry').2.1] at same
  exact differ same

variable [Scalar τ]

theorem map_window_arrange (serial index : Nat) (windows : List (Window τ)) :
    (arrange serial index [] windows).map Chunk.window = windows := by
  induction windows generalizing serial index with
  | nil => rfl
  | cons window rest ih =>
    rw [arrange, List.map_cons, ih]
    rfl

/-- Every window of a cut has a chunk. -/
theorem length_arrange (serial index : Nat) (old : List (Chunk τ)) (windows : List (Window τ)) :
    (arrange serial index old windows).length = windows.length := by
  fun_induction arrange serial index old windows with
  | case1 => rfl
  | case2 serial index window rest ih => rw [List.length_cons, List.length_cons, ih]
  | case3 serial index chunk old window rest same ih => rw [List.length_cons, List.length_cons, ih]
  | case4 serial index chunk old window rest differ ih => rw [List.length_cons, List.length_cons, ih]

/-- New chunks are missing and stand at their places. -/
theorem arrange_fresh {serial : Nat} {windows : List (Window τ)} {i : Nat} {chunk : Chunk τ}
    (h : (arrange serial 0 [] windows)[i]? = some chunk) :
    chunk.index = i ∧ chunk.status = .missing := by
  rcases arrange_getElem? h with kept | ⟨place, -, missing, -⟩
  · exact absurd kept (by simp)
  · exact ⟨place.trans (Nat.zero_add i), missing⟩

end Cache

/-- The time of the project plays no part in what is accepted. -/
theorem Cache.accepts_kept (cache : Cache Double) (manifest : Manifest Double) :
    cache.accepts manifest.kept = cache.accepts manifest := rfl

theorem Cache.entries_kept (cache : Cache Double) (now : Timestamp) :
    (cache.manifest now).kept.entries = cache.entries := rfl

namespace CacheAction

open FileTree

/-! ### Restoring chunks -/

/-- The entry of a manifest for the place of a chunk, if its file is there. -/
def onDisk? (folder : Path) (files : FileTree) (entries : List ManifestEntry)
    (chunk : Chunk τ) : Option ManifestEntry :=
  entries.find? fun entry => entry.index == chunk.index &&
    files.pathExists (folder.join entry.fileName).text

/-- A chunk as an entry of a manifest says, if the entry is for its place. -/
def putEntry (folder : Path) (entry : ManifestEntry) (chunk : Chunk τ) : Chunk τ :=
  if chunk.index = entry.index then
    { chunk with
      status := .valid, contentHash := some entry.contentHash
      outputPath := some (folder.join entry.fileName).text, isComplex := entry.isComplex }
  else chunk

theorem putEntry_index (folder : Path) (entry : ManifestEntry) (chunk : Chunk τ) :
    (putEntry folder entry chunk).index = chunk.index := by
  unfold putEntry
  split <;> rfl

/-- A chunk after the entries of a manifest were restored. -/
def restored (folder : Path) (files : FileTree) (entries : List ManifestEntry)
    (chunk : Chunk τ) : Chunk τ :=
  (onDisk? folder files entries chunk).elim chunk fun entry => putEntry folder entry chunk

theorem restored_window (folder : Path) (files : FileTree) (entries : List ManifestEntry)
    (chunk : Chunk τ) : (restored folder files entries chunk).window = chunk.window := by
  unfold restored
  cases onDisk? folder files entries chunk with
  | none => rfl
  | some entry =>
    rw [Option.elim_some, putEntry]
    split <;> rfl

theorem checkExists_eq_ok {files : FileTree} {path : String} {there : Bool}
    (h : files.checkExists path = .ok there) : files.pathExists path = there := by
  unfold checkExists at h
  unfold pathExists
  split at h
  · next found =>
    rw [found]
    exact Except.ok.inj h
  · next missing =>
    rw [missing]
    split at h
    · exact Except.ok.inj h
    · exact absurd h (by simp)
  · next missing =>
    rw [missing]
    exact Except.ok.inj h

/-- Each chunk is restored on its own if there is one entry for a place at most. -/
theorem restore_eq_ok {folder : Path} {files : FileTree} {entries : List ManifestEntry}
    (distinct : (entries.map (·.index)).Nodup)
    (askable : ∀ entry ∈ entries, ∃ there,
      files.checkExists (folder.join entry.fileName).text = .ok there)
    {chunks : List (Chunk τ)} (placed : ∀ chunk ∈ chunks, chunk.index < chunks.length) :
    restore folder files chunks entries = .ok (chunks.map (restored folder files entries)) := by
  induction entries generalizing chunks with
  | nil =>
    have same : restored (τ := τ) folder files [] = id := rfl
    rw [restore, same, List.map_id]
  | cons entry rest ih =>
    obtain ⟨first, distinct⟩ := List.nodup_cons.mp distinct
    obtain ⟨⟨there, asked⟩, askable⟩ := List.forall_mem_cons.mp askable
    have there_eq := checkExists_eq_ok asked
    -- An entry that restores nothing is no entry for any chunk.
    have skipped (none : ∀ chunk ∈ chunks, (entry.index == chunk.index && there) = false) :
        chunks.map (restored folder files rest) =
          chunks.map (restored folder files (entry :: rest)) := by
      refine List.map_congr_left fun chunk hchunk => ?_
      have passed := none chunk hchunk
      rw [← there_eq] at passed
      rw [restored, restored, onDisk?, onDisk?, List.find?_cons, passed]
    rw [restore]
    split
    · rw [asked]
      cases there with
      | false =>
        rw [← skipped (by simp)]
        exact ih distinct askable placed
      | true =>
        have placed' : ∀ chunk ∈ chunks.map (putEntry folder entry),
            chunk.index < (chunks.map (putEntry folder entry)).length := by
          intro chunk hchunk
          obtain ⟨old, hold, rfl⟩ := List.mem_map.mp hchunk
          rw [putEntry_index, List.length_map]
          exact placed old hold
        refine (ih distinct askable placed').trans ?_
        rw [List.map_map]
        refine congrArg Except.ok (List.map_congr_left fun chunk _ => ?_)
        rw [Function.comp_apply, restored, restored, onDisk?, onDisk?, putEntry_index,
          List.find?_cons, there_eq]
        by_cases here : entry.index = chunk.index
        · -- No other entry is for the place of the chunk.
          have other : rest.find? (fun entry => entry.index == chunk.index &&
              files.pathExists (folder.join entry.fileName).text) = none := by
            refine List.find?_eq_none.mpr fun later hlater => ?_
            have differ : later.index ≠ chunk.index := fun same =>
              first (List.mem_map.mpr ⟨later, hlater, same.trans here.symm⟩)
            simp [differ]
          rw [other, beq_iff_eq.mpr here]
          rfl
        · have elsewhere : putEntry folder entry chunk = chunk := if_neg fun same => here same.symm
          rw [beq_eq_false_iff_ne.mpr here, elsewhere]
          rfl
    · next beyond =>
      rw [← skipped]
      · exact ih distinct askable placed
      · intro chunk hchunk
        have := placed chunk hchunk
        simp only [Bool.and_eq_false_imp, beq_iff_eq]
        omega

/-- Nothing is restored if the file of an entry cannot be asked for. -/
theorem restore_cons_error {folder : Path} {files : FileTree} {chunks : List (Chunk τ)}
    {entry : ManifestEntry} {rest : List ManifestEntry} {cause : FileError}
    (here : entry.index < chunks.length)
    (unasked : files.checkExists (folder.join entry.fileName).text = .error cause) :
    restore folder files chunks (entry :: rest) = .error cause := by
  rw [restore, if_pos here, unasked]
  rfl

/-- Each chunk is restored on its own from the manifest of a cache. -/
theorem restore_manifest {cache : Cache τ} (orderly : cache.Orderly) {files : FileTree}
    (lie : ∀ chunk ∈ cache.chunks, ∀ path contentHash, chunk.Recorded path contentHash →
      Path.ofText path = cache.folder.join (Path.ofText path).name)
    (askable : ∀ chunk ∈ cache.chunks, ∀ path contentHash, chunk.Recorded path contentHash →
      ∃ there, files.checkExists (Path.ofText path).text = .ok there)
    {fresh : List (Chunk τ)} (placed : ∀ chunk ∈ fresh, chunk.index < fresh.length) :
    restore cache.folder files fresh cache.entries =
      .ok (fresh.map (restored cache.folder files cache.entries)) := by
  refine restore_eq_ok orderly.nodup_entries (fun entry hentry => ?_) placed
  obtain ⟨old, hold, made⟩ := List.mem_filterMap.mp hentry
  obtain ⟨path, contentHash, recorded, rfl⟩ := Cache.entry?_eq_some_iff.mp made
  rw [← lie old hold path contentHash recorded]
  exact askable old hold path contentHash recorded

/-- What is restored from the manifest of a cache is what stood there. -/
theorem restored_reopened {cache : Cache τ} (orderly : cache.Orderly) {files : FileTree}
    (lie : ∀ chunk ∈ cache.chunks, ∀ path contentHash, chunk.Recorded path contentHash →
      Path.ofText path = cache.folder.join (Path.ofText path).name)
    {fresh : Chunk τ} (missing : fresh.status = .missing) :
    (restored cache.folder files cache.entries fresh).Reopened files
      cache.chunks[fresh.index]? := by
  unfold restored
  cases hentry : onDisk? cache.folder files cache.entries fresh with
  | some entry =>
    have here := List.find?_some hentry
    obtain ⟨old, hold, made⟩ := List.mem_filterMap.mp (List.mem_of_find?_eq_some hentry)
    obtain ⟨path, contentHash, recorded, rfl⟩ := Cache.entry?_eq_some_iff.mp made
    simp only [Bool.and_eq_true, beq_iff_eq] at here
    obtain ⟨place, there⟩ := here
    rw [← lie old hold path contentHash recorded] at there
    refine .inl ⟨path, contentHash, old, ⟨?_, recorded, there⟩, ?_⟩
    · rw [← place]
      exact orderly.getElem?_index hold
    · rw [Option.elim_some, putEntry, if_pos place.symm]
      refine ⟨rfl, rfl, rfl, ?_⟩
      rw [← lie old hold path contentHash recorded]
  | none =>
    refine .inr ⟨?_, missing⟩
    rintro path contentHash old ⟨hold, recorded, there⟩
    have place := orderly.placed _ old hold
    have known := List.mem_of_getElem? hold
    rw [lie old known path contentHash recorded] at there
    refine List.find?_eq_none.mp hentry _ (List.mem_filterMap.mpr
      ⟨old, known, Cache.entry?_eq_some_iff.mpr ⟨path, contentHash, recorded, rfl⟩⟩) ?_
    simp [place, there]

/-! ### Opening a project -/

section Open

variable [Scalar τ]

/-- A cache that begins to open a project: it has no chunks yet. -/
def beginOpen (path : Option String) (time : Option τ) (state : CacheState τ) : CacheState τ :=
  { state with cache := { state.cache with
      projectHash := ContentHash.ofProject path, projectTime := time, chunks := [] } }

/-- A cache that has found a manifest and counted its windows. -/
def withFound (manifest : Manifest τ) (windows : List (Window τ)) (state : CacheState τ) :
    CacheState τ :=
  { state with cache := { state.cache with
      createdAt := manifest.createdAt, nextSerial := state.cache.nextSerial + windows.length } }

/-- Once a manifest was found and the windows are counted, a project is opened with what is recovered
from the manifest, unless the new manifest cannot be saved. -/
theorem ensures_openProject {state : CacheState τ} {path : Option String} {duration : τ}
    {time : Option τ} {manifest : Manifest τ} {windows : List (Window τ)}
    (found : Finds (beginOpen path time state) manifest)
    (cut : partition duration state.cache.chunkDuration = .ok windows)
    {returns : Unit → CacheState τ → Prop} {fails : CacheState τ → Prop} :
    Ensures (openProject path duration time) state returns fails ↔
      Ensures (recover (some manifest) (Cache.arrange state.cache.nextSerial 0 [] windows))
        (withFound manifest windows (beginOpen path time state))
        (fun chunks next => Ensures save { next with cache := { next.cache with
          chunks, totalDuration := Scalar.maxOf Scalar.zero duration } } returns fails) fails := by
  have cut' : partition duration (beginOpen path time state).cache.chunkDuration = .ok windows := cut
  have lifted : (liftM (partition duration (beginOpen path time state).cache.chunkDuration) :
      Except Failure (List (Window τ))) = .ok windows := by
    rw [cut']
    rfl
  unfold openProject findManifest
  rw [ensures_bind, ensures_cache, ensures_bind, ensures_setCache, ensures_bind, ensures_bind]
  change Ensures readManifest (beginOpen path time state) _ _ ↔ _
  rw [ensures_of_ok found]
  dsimp only
  rw [ensures_bind, ensures_cache, ensures_bind, ensures_setCache, ensures_pure, ensures_bind,
    ensures_cache, ensures_bind, ensures_liftM]
  dsimp only
  rw [lifted]
  dsimp only
  rw [ensures_bind, ensures_setCache, ensures_bind]
  change Ensures (recover (some manifest) (Cache.arrange state.cache.nextSerial 0 [] windows))
    (withFound manifest windows (beginOpen path time state)) _ _ ↔ _
  simp only [ensures_bind, ensures_cache, ensures_setCache]

variable {manifest : Manifest τ} {fresh : List (Chunk τ)} {state : CacheState τ}
  {returns : List (Chunk τ) → CacheState τ → Prop} {fails : CacheState τ → Prop}

theorem ensures_recover_of_accepts (accepted : state.cache.accepts manifest = true) :
    Ensures (recover (some manifest) fresh) state returns fails ↔
      match restore state.cache.folder state.disk.files fresh manifest.entries with
      | .ok chunks => returns chunks state
      | .error _ => fails state := by
  unfold recover
  dsimp only
  rw [ensures_bind, ensures_cache, if_pos accepted, ensures_bind, ensures_files]
  cases restore state.cache.folder state.disk.files fresh manifest.entries <;> rfl

theorem ensures_recover_of_not_accepts (refused : ¬ state.cache.accepts manifest = true) :
    Ensures (recover (some manifest) fresh) state returns fails ↔
      Ensures deleteChunkFiles state (fun _ next => returns fresh
        { next with cache := { next.cache with createdAt := next.disk.now } }) fails := by
  unfold recover
  dsimp only
  rw [ensures_bind, ensures_cache, if_neg refused, ensures_bind]
  simp only [ensures_bind, ensures_cache, ensures_get, ensures_setCache, ensures_pure]

end Open

section Failures

variable [Scalar τ] {state : CacheState τ} {path : Option String} {duration : τ} {time : Option τ}
  {manifest : Manifest τ} {windows : List (Window τ)}

/-- A cache that cannot count the windows of a project has no chunks, and nothing was done to the disk. -/
theorem openProject_of_uncut {cause : NumberError}
    (cut : partition duration state.cache.chunkDuration = .error cause) :
    Ensures (openProject path duration time) state (fun _ _ => False)
      (fun next => next.disk = state.disk ∧ next.cache.folder = state.cache.folder ∧
        next.cache.chunks = []) := by
  unfold openProject
  rw [ensures_bind, ensures_cache, ensures_bind, ensures_setCache, ensures_bind]
  refine (findManifest_finds _).mono ?_ ?_
  · rintro found next ⟨-, createdAt, rfl⟩
    rw [ensures_bind, ensures_cache, ensures_bind, ensures_liftM]
    dsimp only
    rw [cut]
    exact ⟨rfl, rfl, rfl⟩
  · rintro next rfl
    exact ⟨rfl, rfl, rfl⟩

/-- A project is not opened if its windows cannot be counted. -/
theorem openProject_fails_of_partition {cause : NumberError}
    (cut : partition duration state.cache.chunkDuration = .error cause) :
    succeeds (openProject path duration time) state = false :=
  (openProject_of_uncut cut).not_succeeds

/-- A project is not opened if the files of a manifest that is not accepted cannot be deleted. -/
theorem openProject_fails_of_delete (found : Finds (beginOpen path time state) manifest)
    (cut : partition duration state.cache.chunkDuration = .ok windows)
    (refused : ¬ (beginOpen path time state).cache.accepts manifest = true)
    (stuck : succeeds deleteChunkFiles (withFound manifest windows (beginOpen path time state)) =
      false) : succeeds (openProject path duration time) state = false := by
  refine Ensures.not_succeeds (?_ : Ensures _ _ _ fun _ => True)
  have refused' : ¬ (withFound manifest windows (beginOpen path time state)).cache.accepts manifest =
    true := refused
  rw [ensures_openProject found cut, ensures_recover_of_not_accepts refused']
  unfold succeeds at stuck
  unfold Ensures
  cases hrun : deleteChunkFiles (withFound manifest windows (beginOpen path time state)) with
  | ok _ next =>
    rw [hrun] at stuck
    exact absurd stuck (by simp)
  | error _ next => trivial

/-- A project is not opened if a file of a manifest that is accepted cannot be asked for. -/
theorem openProject_fails_of_restore (found : Finds (beginOpen path time state) manifest)
    (cut : partition duration state.cache.chunkDuration = .ok windows)
    (accepted : (beginOpen path time state).cache.accepts manifest = true)
    (stuck : (restore state.cache.folder state.disk.files
      (Cache.arrange state.cache.nextSerial 0 [] windows) manifest.entries).toBool = false) :
    succeeds (openProject path duration time) state = false := by
  refine Ensures.not_succeeds (?_ : Ensures _ _ _ fun _ => True)
  have accepted' : (withFound manifest windows (beginOpen path time state)).cache.accepts manifest =
    true := accepted
  rw [ensures_openProject found cut, ensures_recover_of_accepts accepted']
  split
  · next restored =>
    have restored' : restore state.cache.folder state.disk.files
      (Cache.arrange state.cache.nextSerial 0 [] windows) manifest.entries = .ok _ := restored
    rw [restored'] at stuck
    exact absurd stuck (by simp [Except.toBool])
  · trivial

end Failures

end CacheAction

end Montage
