import Montage.Proofs.Chunk.Clear
import Montage.Proofs.Chunk.Coherence
import Montage.Proofs.Chunk.Sweep

/-!
# What a change of a cache costs

A new cut drops the chunks whose windows are gone, and an invalidation makes valid chunks stale. Both
remove the files of those chunks and write the manifest anew. Where each chunk has a file of its own
that can be removed, and none lies where the manifest is written, both go through, and nothing else is
lost: every other valid chunk is there as it was, with its file as it was.

## Main definitions

* `Cache.FilesApart` — the files of the chunks lie apart from each other and from the manifest
* `CacheState.Costs` — some valid chunks and their files are gone, and the others are as they were
* `CacheState.Drops` — the files of some chunks are gone, and nothing else on disk has changed

## Main results

* `CacheState.Costs.invalidateWhere` — an invalidation costs what it is about
* `CacheAction.repartition_costs` — a new cut costs the chunks whose windows are gone
-/

namespace Montage

variable {τ : Type}

/-! ### Removing files -/

namespace FileTree

variable {tree after : FileTree} {place : Place} {path : String} {paths : List String}

theorem SameFolders.locate_iff (same : tree.SameFolders after) :
    tree.locate path = .ok place ↔ after.locate path = .ok place :=
  ⟨same.keeps.locate, same.symm.keeps.locate⟩

/-- A file that is where it was holds what it held. -/
theorem SameFolders.read_eq (same : tree.SameFolders after) (located : tree.locate path = .ok place)
    (node : after.node? place = tree.node? place) : after.read path = tree.read path := by
  unfold read find
  rw [located, same.locate_iff.mp located]
  simp only [bind, Except.bind, node]

/-- There is no file where nothing is. -/
theorem SameFolders.pathExists_eq_false (same : tree.SameFolders after)
    (located : tree.locate path = .ok place) (empty : after.node? place = none) :
    after.pathExists path = false := by
  unfold pathExists find
  rw [same.locate_iff.mp located]
  simp [empty, bind, Except.bind, Except.toBool]

/-- A removal leaves all places alone but the one that its path leads to. -/
theorem node?_remove_of_ne (h : tree.remove path = .ok after)
    (elsewhere : tree.locate path ≠ .ok place) : after.node? place = tree.node? place := by
  unfold remove at h
  split at h
  · obtain rfl := Except.ok.inj h
    rfl
  · cases h
  · next there located =>
    have differ : place ≠ there := fun same => elsewhere (same ▸ located)
    split at h
    · obtain rfl := Except.ok.inj h
      rfl
    · obtain rfl := Except.ok.inj h
      exact node?_erase_of_ne differ
    · cases h

/-- Where no folder stands in the place of a file, the files are removed, and nothing else is. -/
theorem removeEach_of_canWrite (files : ∀ path ∈ paths, tree.CanWrite (Path.ofText path).text) :
    ∃ after, removeEach paths tree = .ok after ∧ tree.Loses after ∧
      ∀ place, ((∃ path ∈ paths, tree.locate (Path.ofText path).text = .ok place) →
          after.node? place = none) ∧
        ((∀ path ∈ paths, tree.locate (Path.ofText path).text ≠ .ok place) →
          after.node? place = tree.node? place) := by
  induction paths generalizing tree with
  | nil => exact ⟨tree, rfl, .refl tree, fun _ => ⟨by simp, fun _ => rfl⟩⟩
  | cons path rest ih =>
    obtain ⟨here, others⟩ := List.forall_mem_cons.mp files
    obtain ⟨goal, located, file⟩ := here
    obtain ⟨middle, removed, empty, loses⟩ := remove_of_located located file
    have same : tree.SameFolders middle := loses.sameFolders
    obtain ⟨after, removed', loses', each⟩ :=
      ih fun path h => same.canWrite (others path h)
    have both : removeEach (path :: rest) tree = .ok after := by
      unfold removeEach at removed' ⊢
      rw [List.foldlM_cons, removed]
      exact removed'
    refine ⟨after, both, loses.trans loses', fun place => ⟨?_, fun elsewhere => ?_⟩⟩
    · rintro ⟨other, hother, leads⟩
      rcases List.mem_cons.mp hother with rfl | hother
      · obtain rfl := Except.ok.inj (located.symm.trans leads)
        exact loses'.node?_eq_none empty
      · exact (each place).1 ⟨other, hother, same.locate_iff.mp leads⟩
    · obtain ⟨first, rest⟩ := List.forall_mem_cons.mp elsewhere
      rw [(each place).2 fun other h leads => rest other h (same.locate_iff.mpr leads)]
      exact node?_remove_of_ne removed first

/-- Where a manifest lies depends on the folders and on that of the cache alone. -/
theorem SameFolders.manifestAt_iff (same : tree.SameFolders after) {cache other : Cache τ}
    (folder : other.folder = cache.folder) :
    after.ManifestAt other place ↔ tree.ManifestAt cache place := by
  unfold ManifestAt Cache.draftPath Cache.manifestFile
  rw [folder, same.locate_iff, same.locate_iff]

end FileTree

/-! ### The files of the chunks -/

/-- The place at which the file of a chunk lies. -/
def Chunk.place? (chunk : Chunk τ) (tree : FileTree) : Option Place :=
  chunk.output?.bind fun path => (tree.locate (Path.ofText path).text).toOption

theorem Chunk.mem_place? {chunk : Chunk τ} {tree : FileTree} {place : Place} :
    place ∈ chunk.place? tree ↔
      ∃ path ∈ chunk.output?, tree.locate (Path.ofText path).text = .ok place := by
  unfold Chunk.place?
  rw [Option.mem_def, Option.bind_eq_some_iff]
  refine exists_congr fun path => and_congr_right fun _ => ?_
  cases tree.locate (Path.ofText path).text <;> simp [Except.toOption]

/-- The manifest of a cache can be written, the file of each chunk can be removed, no other chunk has
that file, and it does not lie where the manifest is written. -/
structure Cache.FilesApart (cache : Cache τ) (tree : FileTree) : Prop where
  takes : tree.TakesManifest cache
  removable : ∀ chunk ∈ cache.chunks, ∀ path ∈ chunk.output?, tree.CanWrite (Path.ofText path).text
  alone : ∀ chunk ∈ cache.chunks, ∀ other ∈ cache.chunks, ∀ place ∈ chunk.place? tree,
    place ∈ other.place? tree → chunk.serial = other.serial
  beside : ∀ chunk ∈ cache.chunks, ∀ place ∈ chunk.place? tree, ¬ tree.ManifestAt cache place

instance (tree : FileTree) (cache : Cache τ) (place : Place) : Decidable (tree.ManifestAt cache place) :=
  inferInstanceAs (Decidable (_ ∨ _))

instance (cache : Cache τ) (tree : FileTree) : Decidable (cache.FilesApart tree) :=
  decidable_of_iff (tree.TakesManifest cache ∧
    (∀ chunk ∈ cache.chunks, ∀ path ∈ chunk.output?, tree.CanWrite (Path.ofText path).text) ∧
    (∀ chunk ∈ cache.chunks, ∀ other ∈ cache.chunks, ∀ place ∈ chunk.place? tree,
      place ∈ other.place? tree → chunk.serial = other.serial) ∧
    ∀ chunk ∈ cache.chunks, ∀ place ∈ chunk.place? tree, ¬ tree.ManifestAt cache place)
    ⟨fun h => ⟨h.1, h.2.1, h.2.2.1, h.2.2.2⟩, fun h => ⟨h.takes, h.removable, h.alone, h.beside⟩⟩

/-- Valid chunks that are out are gone with their files. All other valid chunks are there, and no file
is gone but those of chunks that are out or were not valid. -/
structure CacheState.Costs (out : Chunk τ → Prop) (before now : CacheState τ) : Prop where
  folder : now.cache.folder = before.cache.folder
  length : now.cache.chunkDuration = before.cache.chunkDuration
  folders : before.disk.files.SameFolders now.disk.files
  kept : ∀ chunk, chunk.status = .valid →
    (chunk ∈ now.cache.chunks ↔ chunk ∈ before.cache.chunks ∧ ¬ out chunk)
  gone : ∀ chunk ∈ before.cache.chunks, chunk.status = .valid → out chunk →
    ∀ place ∈ chunk.place? before.disk.files, now.disk.files.node? place = none
  others : ∀ place, ¬ before.disk.files.ManifestAt before.cache place →
    (∀ chunk ∈ before.cache.chunks, place ∈ chunk.place? before.disk.files →
      chunk.status = .valid ∧ ¬ out chunk) →
    now.disk.files.node? place = before.disk.files.node? place

namespace CacheState.Costs

variable {out out' : Chunk τ → Prop} {before now : CacheState τ}

protected theorem refl (state : CacheState τ) : state.Costs (fun _ => False) state where
  folder := rfl
  length := rfl
  folders := .refl _
  kept _ _ := by simp
  gone _ _ _ := False.elim
  others _ _ _ := rfl

/-- What is out matters for the valid chunks alone. -/
theorem congr (costs : before.Costs out now)
    (same : ∀ chunk ∈ before.cache.chunks, chunk.status = .valid → (out chunk ↔ out' chunk)) :
    before.Costs out' now where
  folder := costs.folder
  length := costs.length
  folders := costs.folders
  kept chunk valid := by
    rw [costs.kept chunk valid]
    exact and_congr_right fun h => not_congr (same chunk h valid)
  gone chunk h valid gone := costs.gone chunk h valid ((same chunk h valid).mpr gone)
  others place elsewhere each := costs.others place elsewhere fun chunk h lies =>
    ⟨(each chunk h lies).1, fun gone => (each chunk h lies).2
      ((same chunk h (each chunk h lies).1).mp gone)⟩

/-- A manifest that is written costs nothing. -/
theorem saves (costs : before.Costs out now) (apart : before.cache.FilesApart before.disk.files)
    {text : String} {after : FileTree} (saves : now.disk.files.Saves now.cache text after) :
    before.Costs out { now with disk := { now.disk with files := after } } := by
  have takes : now.disk.files.TakesManifest now.cache :=
    (apart.takes.of_sameFolders costs.folders).of_folder costs.folder
  have elsewhere {place : Place} (h : ¬ before.disk.files.ManifestAt before.cache place) :
      after.node? place = now.disk.files.node? place :=
    saves.node?_of_not_manifestAt takes.folder
      ((costs.folders.manifestAt_iff costs.folder).not.mpr h)
  refine ⟨costs.folder, costs.length, costs.folders.trans (saves.sameFolders takes.folder),
    costs.kept, fun chunk h valid gone place lies => ?_, fun place h each => ?_⟩
  · exact (elsewhere (apart.beside chunk h place lies)).trans
      (costs.gone chunk h valid gone place lies)
  · exact (elsewhere h).trans (costs.others place h each)

/-- The manifest is saved. -/
theorem save [Scalar τ] (costs : before.Costs out now)
    (apart : before.cache.FilesApart before.disk.files) :
    Ensures CacheAction.save now
      (fun _ next => before.Costs out next ∧ next.cache = now.cache) (fun _ => False) := by
  have takes : now.disk.files.TakesManifest now.cache :=
    (apart.takes.of_sameFolders costs.folders).of_folder costs.folder
  refine (CacheAction.save_of_takesManifest takes).mono ?_ fun _ => id
  rintro - _ ⟨after, saves, rfl⟩
  exact ⟨costs.saves apart saves, rfl⟩

/-- The file of a valid chunk that is not out is as it was. -/
theorem read_eq (costs : before.Costs out now) (orderly : before.cache.Orderly)
    (apart : before.cache.FilesApart before.disk.files) {chunk : Chunk τ}
    (h : chunk ∈ before.cache.chunks) (valid : chunk.status = .valid) (left : ¬ out chunk)
    {path : String} (output : path ∈ chunk.output?) :
    now.disk.files.read (Path.ofText path).text = before.disk.files.read (Path.ofText path).text := by
  obtain ⟨place, located, -⟩ := apart.removable chunk h path output
  have lies : place ∈ chunk.place? before.disk.files := Chunk.mem_place?.mpr ⟨path, output, located⟩
  have same : now.disk.files.node? place = before.disk.files.node? place := by
    refine costs.others place (apart.beside chunk h place lies) fun other hother lies' => ?_
    obtain rfl := orderly.eq_of_serial h hother (apart.alone chunk h other hother place lies lies')
    exact ⟨valid, left⟩
  exact costs.folders.read_eq located same

/-- The file of a valid chunk that is out is gone. -/
theorem pathExists_eq_false (costs : before.Costs out now)
    (apart : before.cache.FilesApart before.disk.files) {chunk : Chunk τ}
    (h : chunk ∈ before.cache.chunks) (valid : chunk.status = .valid) (gone : out chunk)
    {path : String} (output : path ∈ chunk.output?) :
    now.disk.files.pathExists (Path.ofText path).text = false := by
  obtain ⟨place, located, -⟩ := apart.removable chunk h path output
  have empty := costs.gone chunk h valid gone place (Chunk.mem_place?.mpr ⟨path, output, located⟩)
  exact costs.folders.pathExists_eq_false located empty

end CacheState.Costs

/-! ### Invalidations -/

namespace Cache

variable {meets : Chunk τ → Bool} {chunks : List (Chunk τ)} {chunk : Chunk τ} {path : String}

theorem mem_pathsOf : path ∈ pathsOf meets chunks ↔
    ∃ chunk ∈ chunks, meets chunk = true ∧ chunk.status = .valid ∧ path ∈ chunk.output? := by
  unfold pathsOf
  rw [List.mem_flatMap]
  refine exists_congr fun chunk => and_congr_right fun _ => ?_
  split
  · next about => simp [about]
  · next about =>
    refine iff_of_false List.not_mem_nil ?_
    rintro ⟨hit, valid, -⟩
    exact about ⟨hit, valid⟩

/-- No chunk is valid after an invalidation that is about it. -/
theorem invalidated_status (chunk : Chunk τ) : chunk.invalidated.status ≠ .valid := by
  unfold Chunk.invalidated
  cases status : chunk.status <;> simp [status]

/-- What is valid after an invalidation was so before. -/
theorem mem_sweep_of_valid (valid : chunk.status = .valid) :
    chunk ∈ sweep meets chunks ↔ chunk ∈ chunks ∧ ¬ meets chunk = true := by
  unfold sweep
  rw [List.mem_map]
  constructor
  · rintro ⟨old, hold, rfl⟩
    split at valid
    · exact absurd valid (invalidated_status old)
    · next missed =>
      rw [if_neg missed]
      exact ⟨hold, missed⟩
  · rintro ⟨h, missed⟩
    exact ⟨chunk, h, if_neg missed⟩

end Cache

namespace CacheState.Costs

variable {out : Chunk τ → Prop} {before now : CacheState τ}

/-- Chunks and files that an invalidation leaves. -/
theorem sweep (costs : before.Costs out now) (apart : before.cache.FilesApart before.disk.files)
    (meets : Chunk τ → Bool) :
    ∃ files, FileTree.removeEach (Cache.pathsOf meets now.cache.chunks) now.disk.files = .ok files ∧
      before.Costs (fun chunk => out chunk ∨ meets chunk = true) {
        cache := { now.cache with chunks := Cache.sweep meets now.cache.chunks }
        disk := { now.disk with files } } := by
  -- What an invalidation removes are files of chunks that were valid from the first.
  have owned {path : String} (hpath : path ∈ Cache.pathsOf meets now.cache.chunks) :
      ∃ chunk ∈ before.cache.chunks, meets chunk = true ∧ chunk.output? = some path := by
    obtain ⟨chunk, h, hit, valid, output⟩ := Cache.mem_pathsOf.mp hpath
    exact ⟨chunk, ((costs.kept chunk valid).mp h).1, hit, output⟩
  have removable : ∀ path ∈ Cache.pathsOf meets now.cache.chunks,
      now.disk.files.CanWrite (Path.ofText path).text := by
    intro path hpath
    obtain ⟨chunk, h, -, output⟩ := owned hpath
    exact costs.folders.canWrite (apart.removable chunk h path output)
  obtain ⟨files, removed, loses, each⟩ := FileTree.removeEach_of_canWrite removable
  refine ⟨files, removed, costs.folder, costs.length, costs.folders.trans loses.sameFolders,
    fun chunk valid => ?_, fun chunk h valid gone place lies => ?_, fun place elsewhere kept => ?_⟩
  · rw [Cache.mem_sweep_of_valid valid, costs.kept chunk valid, not_or, and_assoc]
  · by_cases before : out chunk
    · exact loses.node?_eq_none (costs.gone chunk h valid before place lies)
    · obtain ⟨path, output, leads⟩ := Chunk.mem_place?.mp lies
      refine (each place).1 ⟨path, Cache.mem_pathsOf.mpr ?_, costs.folders.locate_iff.mp leads⟩
      exact ⟨chunk, (costs.kept chunk valid).mpr ⟨h, before⟩, gone.resolve_left before, valid, output⟩
  · rw [(each place).2 ?_, costs.others place elsewhere fun chunk h lies =>
      ⟨(kept chunk h lies).1, fun gone => (kept chunk h lies).2 (.inl gone)⟩]
    intro path hpath leads
    obtain ⟨chunk, h, hit, output⟩ := owned hpath
    have leads := costs.folders.locate_iff.mpr leads
    exact (kept chunk h (Chunk.mem_place?.mpr ⟨path, output, leads⟩)).2 (.inr hit)

/-- An invalidation costs the valid chunks that it is about. -/
theorem invalidateWhere [Scalar τ] (costs : before.Costs out now)
    (apart : before.cache.FilesApart before.disk.files) (meets : Chunk τ → Bool) :
    Ensures (CacheAction.invalidateWhere meets) now
      (fun _ next => before.Costs (fun chunk => out chunk ∨ meets chunk = true) next)
      (fun _ => False) := by
  obtain ⟨files, removed, swept⟩ := costs.sweep apart meets
  have whole := Cache.invalidateWhere_eq meets now.cache.chunks now.disk.files
  rw [removed] at whole
  unfold CacheAction.invalidateWhere
  rw [ensures_bind, CacheAction.ensures_cache, ensures_bind, CacheAction.ensures_files,
    ensures_bind, CacheAction.ensures_finishSweep]
  dsimp only at whole ⊢
  rw [whole]
  dsimp only
  split
  · rw [ensures_bind]
    exact (swept.save apart).mono (fun _ _ saved => saved.1) fun _ => id
  · exact swept

end CacheState.Costs

/-! ### Cuts -/

namespace Cache

variable {meets : Chunk τ → Bool} {chunks : List (Chunk τ)} {chunk : Chunk τ}

/-- The paths of the chunks that meet a condition. -/
def droppedPaths (meets : Chunk τ → Bool) (chunks : List (Chunk τ)) : List String :=
  chunks.flatMap fun chunk => if meets chunk then chunk.output?.toList else []

theorem mem_droppedPaths {path : String} : path ∈ droppedPaths meets chunks ↔
    ∃ chunk ∈ chunks, meets chunk = true ∧ path ∈ chunk.output? := by
  unfold droppedPaths
  rw [List.mem_flatMap]
  refine exists_congr fun chunk => and_congr_right fun _ => ?_
  split
  · next met => simp [met]
  · next missed => simp [missed]

/-- Chunks that can lose their files lose them. -/
theorem dropWhere_of_removed {files rest : FileTree}
    (removed : FileTree.removeEach (droppedPaths meets chunks) files = .ok rest) :
    (dropWhere meets chunks files).files = rest ∧ (dropWhere meets chunks files).failure = none := by
  induction chunks generalizing files with
  | nil =>
    obtain rfl := Except.ok.inj removed
    exact ⟨rfl, rfl⟩
  | cons chunk back ih =>
    rw [droppedPaths, List.flatMap_cons, FileTree.removeEach_append] at removed
    unfold dropWhere
    split
    · next missed =>
      rw [if_neg (by simpa using missed)] at removed
      exact ih removed
    · next met =>
      rw [if_pos (by simpa using met)] at removed
      have dropped := dropOutput_cases chunk files
      cases first : FileTree.removeEach chunk.output?.toList files with
      | error cause =>
        rw [first] at removed
        cases removed
      | ok middle =>
        rw [first] at removed dropped
        dsimp only at dropped
        rw [dropped]
        exact ih removed

variable [Scalar τ] {windows : List (Window τ)} {serial index i : Nat}

/-- What is left in a new cut, and not new, is what has the window at its place. -/
theorem getElem?_arrange_of_made {old : List (Chunk τ)} (made : chunk.status ≠ .missing) :
    (arrange serial index old windows)[i]? = some chunk ↔
      old[i]? = some chunk ∧ windows[i]?.any chunk.covers = true := by
  have fresh {serial index : Nat} {start stop : τ} :
      some { serial, index, start, stop : Chunk τ } ≠ some chunk := by
    intro same
    obtain rfl := Option.some.inj same
    exact made rfl
  fun_induction arrange serial index old windows generalizing i with
  | case1 => simp
  | case2 serial index window rest ih =>
    cases i with
    | zero => exact iff_of_false fresh (by simp)
    | succ i => simpa using ih
  | case3 serial index here old window rest covers ih =>
    cases i with
    | zero =>
      refine ⟨fun same => ⟨same, ?_⟩, And.left⟩
      obtain rfl := Option.some.inj same
      exact covers
    | succ i => simpa using ih
  | case4 serial index here old window rest differs ih =>
    cases i with
    | zero =>
      refine iff_of_false fresh ?_
      rintro ⟨same, covers⟩
      obtain rfl := Option.some.inj same
      exact differs covers
    | succ i => simpa using ih

/-- A new cut keeps what is not missing if its window stays. -/
theorem Orderly.mem_arrange_of_made {cache : Cache τ} (orderly : cache.Orderly)
    (made : chunk.status ≠ .missing) :
    chunk ∈ arrange serial index cache.chunks windows ↔
      chunk ∈ cache.chunks ∧ stays windows chunk = true := by
  rw [List.mem_iff_getElem?]
  constructor
  · rintro ⟨i, h⟩
    obtain ⟨there, covers⟩ := (getElem?_arrange_of_made made).mp h
    refine ⟨List.mem_of_getElem? there, ?_⟩
    rw [stays, orderly.placed i chunk there]
    exact covers
  · rintro ⟨h, stays⟩
    exact ⟨chunk.index, (getElem?_arrange_of_made made).mpr ⟨orderly.getElem?_index h, stays⟩⟩

end Cache

/-- Where the files of the chunks can be removed whose windows are gone, all that is left to do is to
save the manifest. -/
theorem CacheAction.ensures_repartition [Scalar τ] {state : CacheState τ} {duration : τ}
    {windows : List (Window τ)} {files : FileTree}
    (cut : partition duration state.cache.chunkDuration = .ok windows)
    (removed : FileTree.removeEach (Cache.droppedPaths (fun chunk => !Cache.stays windows chunk)
      state.cache.chunks) state.disk.files = .ok files)
    {returns : Unit → CacheState τ → Prop} {fails : CacheState τ → Prop} :
    Ensures (repartition duration) state returns fails ↔ Ensures save {
      cache := { state.cache with
        chunks := Cache.arrange state.cache.nextSerial 0 state.cache.chunks windows
        nextSerial := state.cache.nextSerial + windows.length
        totalDuration := Scalar.maxOf Scalar.zero duration }
      disk := { state.disk with files } } returns fails := by
  obtain ⟨swept, through⟩ := Cache.dropWhere_of_removed removed
  have lifted : (liftM (partition duration state.cache.chunkDuration) :
      Except Failure (List (Window τ))) = .ok windows := by rw [cut]; rfl
  unfold repartition
  rw [ensures_bind, ensures_cache, ensures_bind, ensures_liftM, lifted]
  dsimp only
  rw [ensures_bind, ensures_files, ensures_bind, ensures_finishSweep, swept, through]
  dsimp only
  rw [ensures_bind, ensures_cache, ensures_bind, ensures_setCache]

/-- Chunks that are out have lost their files, and all other places are as they were but those of the
manifest. -/
structure CacheState.Drops (out : Chunk τ → Prop) (before now : CacheState τ) : Prop where
  folders : before.disk.files.SameFolders now.disk.files
  gone : ∀ chunk ∈ before.cache.chunks, out chunk → ∀ place ∈ chunk.place? before.disk.files,
    now.disk.files.node? place = none
  others : ∀ place, ¬ before.disk.files.ManifestAt before.cache place →
    (∀ chunk ∈ before.cache.chunks, out chunk → place ∉ chunk.place? before.disk.files) →
    now.disk.files.node? place = before.disk.files.node? place

/-- A cache after its timeline was cut into windows. -/
def Cache.cutInto [Scalar τ] (cache : Cache τ) (duration : τ) (windows : List (Window τ)) : Cache τ :=
  { cache with
    chunks := arrange cache.nextSerial 0 cache.chunks windows
    nextSerial := cache.nextSerial + windows.length
    totalDuration := Scalar.maxOf Scalar.zero duration }

/-- A new cut removes the files of the chunks whose windows are gone, and writes the manifest. -/
theorem CacheAction.repartition_drops [Scalar τ] {state : CacheState τ} {duration : τ}
    {windows : List (Window τ)} (apart : state.cache.FilesApart state.disk.files)
    (cut : partition duration state.cache.chunkDuration = .ok windows) :
    Ensures (repartition duration) state
      (fun _ next => next.cache = state.cache.cutInto duration windows ∧
        state.Drops (fun chunk => ¬ Cache.stays windows chunk = true) next ∧
        ∃ files : FileTree,
          files.Saves next.cache (next.cache.manifest state.disk.now).text next.disk.files)
      (fun _ => False) := by
  let goes (chunk : Chunk τ) : Bool := !Cache.stays windows chunk
  have owned {path : String} : path ∈ Cache.droppedPaths goes state.cache.chunks ↔
      ∃ chunk ∈ state.cache.chunks, ¬ Cache.stays windows chunk = true ∧ path ∈ chunk.output? := by
    simp only [Cache.mem_droppedPaths, goes, Bool.not_eq_true', Bool.not_eq_true]
  have removable : ∀ path ∈ Cache.droppedPaths goes state.cache.chunks,
      state.disk.files.CanWrite (Path.ofText path).text := by
    intro path hpath
    obtain ⟨chunk, h, -, output⟩ := owned.mp hpath
    exact apart.removable chunk h path output
  obtain ⟨files, removed, loses, each⟩ := FileTree.removeEach_of_canWrite removable
  have takes : files.TakesManifest (state.cache.cutInto duration windows) :=
    (apart.takes.of_sameFolders loses.sameFolders).of_folder rfl
  rw [ensures_repartition cut removed]
  refine (save_of_takesManifest takes).mono ?_ fun _ => id
  rintro - _ ⟨after, saves, rfl⟩
  have elsewhere {place : Place} (h : ¬ state.disk.files.ManifestAt state.cache place) :
      after.node? place = files.node? place :=
    saves.node?_of_not_manifestAt takes.folder ((loses.sameFolders.manifestAt_iff rfl).not.mpr h)
  refine ⟨rfl, ⟨loses.sameFolders.trans (saves.sameFolders takes.folder),
    fun chunk h out place lies => ?_, fun place beside kept => ?_⟩, files, saves⟩
  · rw [elsewhere (apart.beside chunk h place lies)]
    obtain ⟨path, output, leads⟩ := Chunk.mem_place?.mp lies
    exact (each place).1 ⟨path, owned.mpr ⟨chunk, h, out, output⟩, leads⟩
  · rw [elsewhere beside]
    refine (each place).2 fun path hpath leads => ?_
    obtain ⟨chunk, h, out, output⟩ := owned.mp hpath
    exact kept chunk h out (Chunk.mem_place?.mpr ⟨path, output, leads⟩)

/-- A new cut costs the chunks whose windows are gone. -/
theorem CacheAction.repartition_costs [Scalar τ] {state : CacheState τ} {duration : τ}
    {windows : List (Window τ)} (orderly : state.cache.Orderly)
    (apart : state.cache.FilesApart state.disk.files)
    (cut : partition duration state.cache.chunkDuration = .ok windows) :
    Ensures (repartition duration) state
      (fun _ next => state.Costs (fun chunk => ¬ Cache.stays windows chunk = true) next)
      (fun _ => False) := by
  refine (repartition_drops apart cut).mono ?_ fun _ => id
  rintro - next ⟨same, drops, -⟩
  refine ⟨by rw [same]; rfl, by rw [same]; rfl, drops.folders, fun chunk valid => ?_,
    fun chunk h _ out => drops.gone chunk h out, fun place beside kept => ?_⟩
  · rw [same, Cache.cutInto, orderly.mem_arrange_of_made (by simp [valid]), not_not]
  · exact drops.others place beside fun chunk h out lies => (kept chunk h lies).2 out

end Montage
