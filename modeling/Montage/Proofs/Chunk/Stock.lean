import Montage.Proofs.Chunk.Naming
import Montage.Proofs.Chunk.Upkeep
import Montage.Proofs.Chunk.Wipe

/-!
# The stock of a cache

What is named like a rendered chunk in the folder of a cache is the file of a valid chunk, or a stray:
a file that a render wrote and no valid chunk has. The stock of a cache is in order if the strays are
known, so that what lies in the folder is accounted for. A file can be written, removed or forgotten
only by making it a stray or taking it off the strays, and the manifest can be saved all the while.

The manifest that lies in the folder claims places, too: a cache that opens it may find chunks there
that are valid. While no job renders at a place that is claimed, no job writes over the file of a valid
chunk.

## Main definitions

* `Cache.validFiles` — the files of the valid chunks
* `CacheState.chunkFiles` — what lies in the folder and is named like a rendered chunk
* `CacheState.Stock` — what lies in the folder is accounted for
* `CacheState.Stocked` — the manifest lists no chunk that is not valid, too
* `CacheState.Claims` — a place has a valid chunk, or the manifest lists it

## Main results

* `CacheState.Stock.mem_chunkFiles` — what lies in the folder is what valid chunks have, and the strays
* `CacheState.Stock.rechunk` — a cache with other chunks has other strays
* `CacheState.Stock.write`, `CacheState.Stock.remove` — files become strays, and strays are removed
* `CacheState.Stock.save` — the stock stays as it is when the manifest is saved
-/

namespace Montage

variable {τ : Type}

/-! ### Files of chunks -/

namespace FileTree.ChunkFile

variable {tree after : FileTree} {folder : Path} {name other : String}

/-- A file of a chunk is there as long as something stands in its place. -/
theorem of_node? (h : tree.ChunkFile folder name) (inside : folder.Inside)
    (same : tree.SameFolders after)
    (node : after.node? (folder.place ++ [name]) = tree.node? (folder.place ++ [name])) :
    after.ChunkFile folder name where
  plain := h.plain
  named := h.named
  readable := by
    obtain ⟨content, located, there⟩ := h.file inside
    exact ⟨content, read_eq_ok.mpr ⟨_, same.keeps.locate located, node.trans there⟩⟩

theorem node?_ne_none (h : tree.ChunkFile folder name) (inside : folder.Inside) :
    tree.node? (folder.place ++ [name]) ≠ none := by
  obtain ⟨content, -, there⟩ := h.file inside
  simp [there]

end FileTree.ChunkFile

namespace Path

variable {folder : Path} {name other : String}

/-- Names in a folder are told apart by their paths. -/
theorem Inside.eq_of_join (inside : folder.Inside) (plain : Plain name) (plain' : Plain other)
    (same : (folder.join name).text = (folder.join other).text) : name = other := by
  have paths := congrArg ofText same
  rw [(inside.join plain).ofText_text, (inside.join plain').ofText_text] at paths
  have names := congrArg Path.names paths
  rw [names_join plain, names_join plain'] at names
  exact List.singleton_inj.mp (List.append_cancel_left names)

/-- The path of a name in a folder is read back from its text. -/
theorem Inside.ofText_join (inside : folder.Inside) (plain : Plain name) :
    ofText (folder.join name).text = folder.join name :=
  (inside.join plain).ofText_text

end Path

/-- A chunk has a file in the folder, named for its place and for what it shows, or no file. -/
structure Chunk.Shelved (files : FileTree) (folder : Path) (chunk : Chunk τ) : Prop where
  valid : chunk.status = .valid → ∃ contentHash, chunk.contentHash = some contentHash ∧
    chunk.outputPath = some (folder.join (Cache.chunkName chunk.index contentHash)).text ∧
    files.ChunkFile folder (Cache.chunkName chunk.index contentHash)
  bare : chunk.status ≠ .valid → chunk.outputPath = none

theorem Chunk.Shelved.of_bare {files : FileTree} {folder : Path} {chunk : Chunk τ}
    (invalid : chunk.status ≠ .valid) (bare : chunk.outputPath = none) :
    chunk.Shelved files folder :=
  ⟨fun valid => absurd valid invalid, fun _ => bare⟩

namespace Cache

/-- The files of the valid chunks. -/
def validFiles (cache : Cache τ) : List String :=
  (cache.chunks.filter (·.status = .valid)).filterMap (·.output?)

/-- There is a valid chunk at a place. -/
def HasValid (cache : Cache τ) (index : Nat) : Prop :=
  ∃ chunk ∈ cache.chunks, chunk.status = .valid ∧ chunk.index = index

theorem mem_validFiles {cache : Cache τ} {path : String} : path ∈ cache.validFiles ↔
    ∃ chunk ∈ cache.chunks, chunk.status = .valid ∧ chunk.output? = some path := by
  simp [validFiles, and_assoc]

end Cache

theorem Chunk.output?_of_text {chunk : Chunk τ} {path : Path} (output : chunk.outputPath = some path.text) :
    chunk.output? = some path.text := by
  unfold Chunk.output?
  rw [output]
  exact Option.filter_some_pos (by simpa using Path.text_ne_empty path)

/-! ### The stock -/

/-- The entry of a manifest names the file of a chunk. -/
structure ManifestEntry.NamesFile (entry : ManifestEntry) : Prop where
  plain : Path.Plain entry.fileName
  named : entry.fileName = Cache.chunkName entry.index entry.contentHash

namespace CacheState

/-- What lies in the folder of a cache and is named like a rendered chunk. -/
def chunkFiles (state : CacheState τ) : List String :=
  ((state.disk.files.namesIn state.cache.folder.text).filter CacheAction.isChunkFile).map fun name =>
    (state.cache.folder.join name).text

/-- What lies in the folder and is named like a rendered chunk is a file, and it is that of a valid
chunk or a stray. -/
structure Stock (strays : List String) (state : CacheState Double) : Prop where
  inside : state.cache.folder.Inside
  takes : state.disk.files.TakesManifest state.cache
  tidy : ∀ name, CacheAction.isChunkFile name = true →
    state.disk.files.node? (state.cache.folder.place ++ [name]) ≠ none →
    state.disk.files.ChunkFile state.cache.folder name
  shelved : ∀ chunk ∈ state.cache.chunks, chunk.Shelved state.disk.files state.cache.folder
  stray : ∀ name, state.disk.files.ChunkFile state.cache.folder name →
    ((state.cache.folder.join name).text ∈ strays ↔
      (state.cache.folder.join name).text ∉ state.cache.validFiles)
  owned : ∀ path ∈ strays, ∃ name, state.disk.files.ChunkFile state.cache.folder name ∧
    path = (state.cache.folder.join name).text

/-- The file of a chunk can be written at a path, or removed from there. -/
def TakesFile (state : CacheState τ) (path : String) : Prop :=
  ∃ name, Path.Plain name ∧ name ≠ ".." ∧ state.disk.files.CanWrite path ∧
    path = (state.cache.folder.join name).text

theorem TakesFile.of_sameFolders {state : CacheState τ} {path : String} (h : state.TakesFile path)
    {files : FileTree} (same : state.disk.files.SameFolders files) :
    TakesFile { state with disk := { state.disk with files } } path :=
  h.imp fun _ => And.imp_right (And.imp_right (And.imp_left same.canWrite))

/-- A place has a valid chunk, or the manifest that lies in the folder lists it. -/
def Claims (state : CacheState Double) (index : Nat) : Prop :=
  state.cache.HasValid index ∨
    ∃ manifest, state.Contains manifest ∧ ∃ entry ∈ manifest.entries, entry.index = index

/-- The manifest that lies in the folder lists no chunk that is not valid; but a cache that could not
open it has no chunks. -/
structure Stocked (strays : List String) (state : CacheState Double) : Prop
    extends state.Stock strays where
  listed : ∀ manifest, state.Contains manifest → ∀ entry ∈ manifest.entries,
    entry.NamesFile ∧ (state.cache.chunks = [] ∨ state.cache.HasValid entry.index)

namespace Stock

variable {strays : List String} {state : CacheState Double} {name : String}

/-- The file of a valid chunk lies in the folder. -/
theorem exists_of_mem_validFiles (h : state.Stock strays) {path : String}
    (valid : path ∈ state.cache.validFiles) :
    ∃ name, state.disk.files.ChunkFile state.cache.folder name ∧
      path = (state.cache.folder.join name).text := by
  obtain ⟨chunk, hchunk, valid, output⟩ := Cache.mem_validFiles.mp valid
  obtain ⟨contentHash, -, path', file⟩ := (h.shelved chunk hchunk).valid valid
  exact ⟨_, file, Option.some.inj (output.symm.trans (Chunk.output?_of_text path'))⟩

/-- The place of the folder. -/
theorem located (h : state.Stock strays) :
    state.disk.files.locate state.cache.folder.text = .ok state.cache.folder.place ∧
      state.disk.files.node? state.cache.folder.place = some .folder := by
  obtain ⟨place, located, there⟩ := FileTree.isFolder_iff.mp h.takes.folder
  obtain rfl := FileTree.eq_place_of_locate h.inside located
  exact ⟨located, there⟩

/-- What lies in the folder and is named like a rendered chunk. -/
theorem mem_names (h : state.Stock strays) :
    name ∈ (state.disk.files.namesIn state.cache.folder.text).filter CacheAction.isChunkFile ↔
      state.disk.files.ChunkFile state.cache.folder name := by
  rw [List.mem_filter, FileTree.mem_namesIn]
  constructor
  · rintro ⟨⟨place, located, there⟩, named⟩
    obtain rfl := Except.ok.inj (h.located.1.symm.trans located)
    exact h.tidy name named there
  · intro file
    exact ⟨⟨_, h.located.1, file.node?_ne_none h.inside⟩, file.named⟩

/-- What lies in the folder is accounted for: it is what valid chunks have, and the strays. -/
theorem mem_chunkFiles (h : state.Stock strays) {path : String} :
    path ∈ state.chunkFiles ↔ path ∈ state.cache.validFiles ∨ path ∈ strays := by
  unfold chunkFiles
  rw [List.mem_map]
  constructor
  · rintro ⟨name, hname, rfl⟩
    rw [h.stray name (h.mem_names.mp hname)]
    exact Decidable.em _
  · rintro (valid | stray)
    · obtain ⟨name, file, rfl⟩ := h.exists_of_mem_validFiles valid
      exact ⟨name, h.mem_names.mpr file, rfl⟩
    · obtain ⟨name, file, rfl⟩ := h.owned path stray
      exact ⟨name, h.mem_names.mpr file, rfl⟩

/-- No valid chunk has a stray. -/
theorem not_mem_validFiles (h : state.Stock strays) {path : String} (stray : path ∈ strays) :
    path ∉ state.cache.validFiles := by
  obtain ⟨name, file, rfl⟩ := h.owned path stray
  exact (h.stray name file).mp stray

/-- Nothing lies in the folder but what valid chunks have exactly if there are no strays. -/
theorem chunkFiles_eq_iff (h : state.Stock strays) :
    (∀ path, path ∈ state.chunkFiles ↔ path ∈ state.cache.validFiles) ↔ strays = [] := by
  rw [List.eq_nil_iff_forall_not_mem]
  constructor
  · intro same path stray
    exact h.not_mem_validFiles stray ((same path).mp (h.mem_chunkFiles.mpr (.inr stray)))
  · intro none path
    rw [h.mem_chunkFiles, or_iff_left (none path)]

/-- The order of the strays does not matter, nor how often they are counted. -/
theorem congr (h : state.Stock strays) {strays' : List String}
    (same : ∀ path, path ∈ strays' ↔ path ∈ strays) : state.Stock strays' where
  inside := h.inside
  takes := h.takes
  tidy := h.tidy
  shelved := h.shelved
  stray name file := (same _).trans (h.stray name file)
  owned path stray := h.owned path ((same path).mp stray)

/-- Every file that is accounted for can be removed. -/
theorem takesFile (h : state.Stock strays) {path : String}
    (known : path ∈ state.cache.validFiles ∨ path ∈ strays) : state.TakesFile path := by
  obtain ⟨name, file, rfl⟩ : ∃ name, state.disk.files.ChunkFile state.cache.folder name ∧
      path = (state.cache.folder.join name).text :=
    known.elim h.exists_of_mem_validFiles (h.owned path)
  obtain ⟨content, located, there⟩ := file.file h.inside
  exact ⟨name, file.plain, file.up, ⟨_, located, by simp [there]⟩, rfl⟩

/-! ### Other chunks -/

/-- Other chunks have other files: what valid chunks had is stray if no valid chunk has it now. -/
theorem rechunk (h : state.Stock strays) {cache : Cache Double} {strays' : List String}
    (folder : cache.folder = state.cache.folder)
    (shelved : ∀ chunk ∈ cache.chunks, chunk.Shelved state.disk.files state.cache.folder)
    (stray : ∀ path, path ∈ strays' ↔
      (path ∈ strays ∨ path ∈ state.cache.validFiles) ∧ path ∉ cache.validFiles) :
    Stock strays' { state with cache } where
  inside := folder ▸ h.inside
  takes := h.takes.of_folder folder
  tidy := folder ▸ h.tidy
  shelved := folder ▸ shelved
  stray name file := by
    dsimp only at file ⊢
    rw [folder] at file ⊢
    have known : (state.cache.folder.join name).text ∈ strays ∨
        (state.cache.folder.join name).text ∈ state.cache.validFiles := by
      rw [h.stray name file]
      exact (Decidable.em _).symm
    rw [stray, and_iff_right known]
  owned path hpath := by
    dsimp only
    rw [folder]
    rcases ((stray path).mp hpath).1 with before | valid
    · exact h.owned path before
    · exact h.exists_of_mem_validFiles valid

/-- What no valid chunk has after the chunks were replaced is stray. -/
theorem replace (h : state.Stock strays) {cache : Cache Double}
    (folder : cache.folder = state.cache.folder)
    (shelved : ∀ chunk ∈ cache.chunks, chunk.Shelved state.disk.files state.cache.folder) :
    Stock ((strays ++ state.cache.validFiles).filter (· ∉ cache.validFiles)) { state with cache } := by
  refine h.rechunk folder shelved fun path => ?_
  rw [List.mem_filter, List.mem_append, decide_eq_true_iff]

/-! ### Other files -/

/-- Where nothing changes but what is not named like a rendered chunk, the stock stays as it is. -/
theorem of_node? (h : state.Stock strays) {files : FileTree}
    (same : state.disk.files.SameFolders files)
    (nodes : ∀ name, CacheAction.isChunkFile name = true →
      files.node? (state.cache.folder.place ++ [name]) =
        state.disk.files.node? (state.cache.folder.place ++ [name])) :
    Stock strays { state with disk := { state.disk with files } } := by
  have forth {name : String} (file : state.disk.files.ChunkFile state.cache.folder name) :
      files.ChunkFile state.cache.folder name := file.of_node? h.inside same (nodes name file.named)
  have back {name : String} (file : files.ChunkFile state.cache.folder name) :
      state.disk.files.ChunkFile state.cache.folder name :=
    file.of_node? h.inside same.symm (nodes name file.named).symm
  exact {
    inside := h.inside
    takes := h.takes.of_sameFolders same
    tidy := fun name named there => forth (h.tidy name named (nodes name named ▸ there))
    shelved := fun chunk hchunk => {
      valid := fun valid => by
        obtain ⟨contentHash, known, path, file⟩ := (h.shelved chunk hchunk).valid valid
        exact ⟨contentHash, known, path, forth file⟩
      bare := (h.shelved chunk hchunk).bare }
    stray := fun name file => h.stray name (back file)
    owned := fun path stray => by
      obtain ⟨name, file, rfl⟩ := h.owned path stray
      exact ⟨name, forth file, rfl⟩ }

/-- The file of one name changes, which no valid chunk has. -/
theorem refile (h : state.Stock strays) {files : FileTree} {strays' : List String}
    (same : state.disk.files.SameFolders files) (plain : Path.Plain name)
    (unused : (state.cache.folder.join name).text ∉ state.cache.validFiles)
    (nodes : ∀ other ≠ name, files.node? (state.cache.folder.place ++ [other]) =
      state.disk.files.node? (state.cache.folder.place ++ [other]))
    (here : CacheAction.isChunkFile name = true →
      files.node? (state.cache.folder.place ++ [name]) ≠ none →
      files.ChunkFile state.cache.folder name)
    (stray : ∀ path, path ∈ strays' ↔ path ≠ (state.cache.folder.join name).text ∧ path ∈ strays ∨
      path = (state.cache.folder.join name).text ∧ files.ChunkFile state.cache.folder name) :
    Stock strays' { state with disk := { state.disk with files } } := by
  have forth {other : String} (differ : other ≠ name)
      (file : state.disk.files.ChunkFile state.cache.folder other) :
      files.ChunkFile state.cache.folder other := file.of_node? h.inside same (nodes other differ)
  have back {other : String} (differ : other ≠ name) (file : files.ChunkFile state.cache.folder other) :
      state.disk.files.ChunkFile state.cache.folder other :=
    file.of_node? h.inside same.symm (nodes other differ).symm
  have apart {other : String} (plain' : Path.Plain other) (differ : other ≠ name) :
      (state.cache.folder.join other).text ≠ (state.cache.folder.join name).text :=
    fun paths => differ (h.inside.eq_of_join plain' plain paths)
  refine ⟨h.inside, h.takes.of_sameFolders same, fun other named there => ?_,
    fun chunk hchunk => ⟨fun valid => ?_, (h.shelved chunk hchunk).bare⟩, fun other file => ?_,
    fun path hpath => ?_⟩
  · by_cases one : other = name
    · exact one ▸ here (one ▸ named) (one ▸ there)
    · exact forth one (h.tidy other named (nodes other one ▸ there))
  · obtain ⟨contentHash, known, path, file⟩ := (h.shelved chunk hchunk).valid valid
    refine ⟨contentHash, known, path, forth (fun one => unused ?_) file⟩
    rw [← one]
    exact Cache.mem_validFiles.mpr ⟨chunk, hchunk, valid, Chunk.output?_of_text path⟩
  · rw [stray]
    by_cases one : other = name
    · subst one
      simp [unused, file]
    · rw [and_iff_right (apart file.plain one), or_iff_left fun both => apart file.plain one both.1]
      exact h.stray other (back one file)
  · rcases (stray path).mp hpath with ⟨differ, before⟩ | ⟨rfl, file⟩
    · obtain ⟨other, file, rfl⟩ := h.owned path before
      exact ⟨other, forth (fun one => differ (by rw [one])) file, rfl⟩
    · exact ⟨name, file, rfl⟩

/-- A file that is written is a stray until a valid chunk has it. -/
theorem write (h : state.Stock strays) (plain : Path.Plain name)
    (named : CacheAction.isChunkFile name = true)
    (unused : (state.cache.folder.join name).text ∉ state.cache.validFiles) {content : List UInt8}
    {files : FileTree}
    (written : state.disk.files.write (state.cache.folder.join name).text content = .ok files) :
    Stock ((state.cache.folder.join name).text :: strays)
      { state with disk := { state.disk with files } } := by
  have up := CacheAction.ne_of_unlike named CacheAction.unlike_up
  have file : files.ChunkFile state.cache.folder name :=
    ⟨plain, named, content, FileTree.read_of_write written⟩
  obtain ⟨place, located, -, rfl⟩ := FileTree.write_eq_ok.mp written
  obtain rfl := FileTree.eq_place_of_locate (h.inside.join plain) located
  have place : (state.cache.folder.join name).place = state.cache.folder.place ++ [name] :=
    Path.place_join plain up
  refine h.refile (FileTree.sameFolders_of_write written) plain unused (fun other differ => ?_)
    (fun _ _ => file) fun path => ?_
  · rw [place]
    refine FileTree.node?_put_of_ne fun one => differ ?_
    exact List.singleton_inj.mp (List.append_cancel_left one)
  · rw [List.mem_cons, and_iff_left file]
    by_cases one : path = (state.cache.folder.join name).text
    · exact iff_of_true (.inl one) (.inr one)
    · rw [or_iff_right one, or_iff_left one, and_iff_right one]

/-- A stray that is removed is none any more. -/
theorem remove (h : state.Stock strays) {path : String} (takes : state.TakesFile path)
    (unused : path ∉ state.cache.validFiles) :
    ∃ files, state.disk.files.remove (Path.ofText path).text = .ok files ∧
      state.disk.files.SameFolders files ∧
      Stock (strays.filter (· ≠ path)) { state with disk := { state.disk with files } } := by
  obtain ⟨name, plain, up, ⟨place, located, file⟩, rfl⟩ := takes
  obtain ⟨files, removed, gone, loses⟩ := FileTree.remove_of_located located file
  obtain rfl := FileTree.eq_place_of_locate (h.inside.join plain) located
  rw [Path.place_join plain up] at located gone
  refine ⟨files, (h.inside.ofText_join plain).symm ▸ removed, loses.sameFolders, ?_⟩
  refine h.refile loses.sameFolders plain unused (fun other differ => ?_)
    (fun _ still => absurd gone still) fun path => ?_
  · refine FileTree.node?_remove_of_ne removed fun leads => differ ?_
    have one := Except.ok.inj (located.symm.trans leads)
    exact (List.singleton_inj.mp (List.append_cancel_left one)).symm
  · have missing : ¬ files.ChunkFile state.cache.folder name := fun left =>
      left.node?_ne_none h.inside gone
    rw [List.mem_filter, decide_eq_true_iff, and_comm, or_iff_left fun both => missing both.2]

/-- Strays that are removed are none any more. -/
theorem removeEach (h : state.Stock strays) {paths : List String}
    (each : ∀ path ∈ paths, state.TakesFile path ∧ path ∉ state.cache.validFiles) :
    ∃ files, FileTree.removeEach paths state.disk.files = .ok files ∧
      state.disk.files.SameFolders files ∧
      Stock (strays.filter (· ∉ paths)) { state with disk := { state.disk with files } } := by
  induction paths generalizing state strays with
  | nil => exact ⟨state.disk.files, rfl, .refl _, by simpa using h⟩
  | cons path rest ih =>
    obtain ⟨⟨takes, unused⟩, others⟩ := List.forall_mem_cons.mp each
    obtain ⟨middle, removed, same, stock⟩ := h.remove takes unused
    obtain ⟨files, removed', same', stock'⟩ := ih stock fun other hother =>
      ⟨(others other hother).1.of_sameFolders same, (others other hother).2⟩
    refine ⟨files, ?_, same.trans same', ?_⟩
    · unfold FileTree.removeEach at removed' ⊢
      rw [List.foldlM_cons, removed]
      exact removed'
    · rw [List.filter_filter] at stock'
      simpa [Bool.and_comm] using stock'

/-- In a folder that was cleared there are no strays. -/
theorem clear (h : state.Stock strays) {files : FileTree} (loses : state.disk.files.Loses files)
    (cleared : files.Cleared state.cache.folder) (cache : Cache Double)
    (folder : cache.folder = state.cache.folder)
    (bare : ∀ chunk ∈ cache.chunks, chunk.status ≠ .valid ∧ chunk.outputPath = none) :
    Stock [] { state with cache, disk := { state.disk with files } } := by
  have located := (loses.sameFolders.keeps.locate h.located.1)
  have nothing (name : String) (named : CacheAction.isChunkFile name = true) :
      files.node? (state.cache.folder.place ++ [name]) = none := by
    by_contra there
    have unnamed := cleared name (FileTree.mem_namesIn.mpr ⟨_, located, there⟩)
    exact absurd (named.symm.trans unnamed) (by simp)
  have none (name : String) : ¬ files.ChunkFile state.cache.folder name := fun file =>
    file.node?_ne_none h.inside (nothing name file.named)
  exact {
    inside := folder ▸ h.inside
    takes := (h.takes.of_sameFolders loses.sameFolders).of_folder folder
    tidy := fun name named there => absurd (folder ▸ nothing name named) there
    shelved := fun chunk hchunk => .of_bare (bare chunk hchunk).1 (bare chunk hchunk).2
    stray := fun name file => absurd (folder ▸ file) (none name)
    owned := fun _ stray => absurd stray List.not_mem_nil }

/-- What is named like a rendered chunk can be deleted. -/
theorem clearable (h : state.Stock strays) : state.disk.files.Clearable state.cache.folder := by
  intro name held named
  have file := h.mem_names.mp (List.mem_filter.mpr ⟨held, named⟩)
  obtain ⟨content, located, there⟩ := file.file h.inside
  exact ⟨file.plain, _, located, by simp [there]⟩

/-! ### The manifest -/

/-- What is listed is valid, and has the name of its file. -/
theorem namesFile_of_mem_entries (h : state.Stock strays) {entry : ManifestEntry}
    (listed : entry ∈ state.cache.entries) : entry.NamesFile ∧ state.cache.HasValid entry.index := by
  obtain ⟨chunk, hchunk, made⟩ := List.mem_filterMap.mp listed
  obtain ⟨path, hash, recorded, rfl⟩ := Cache.entry?_eq_some_iff.mp made
  obtain ⟨contentHash, known, output, file⟩ := (h.shelved chunk hchunk).valid recorded.valid
  have same : hash = contentHash := by
    have written := (Option.filter_eq_some_iff.mp recorded.contentHash).1
    exact Option.some.inj (written.symm.trans known)
  have lies : path = (state.cache.folder.join (Cache.chunkName chunk.index contentHash)).text :=
    Option.some.inj (recorded.output.symm.trans (Chunk.output?_of_text output))
  have name : (Path.ofText path).name = Cache.chunkName chunk.index contentHash := by
    rw [lies, h.inside.ofText_join file.plain, Path.name, Path.names_join file.plain,
      List.getLast?_concat]
    rfl
  exact ⟨⟨name ▸ file.plain, name.trans (by rw [same])⟩, chunk, hchunk, recorded.valid, rfl⟩

/-- The stock stays as it is when the manifest is saved, and the manifest lists what is valid. -/
theorem save (h : state.Stock strays) : Ensures CacheAction.save state
    (fun _ next => next.Stocked strays ∧ next.cache = state.cache ∧
      ∀ index, next.Claims index → state.cache.HasValid index) (fun _ => False) := by
  refine (CacheAction.save_of_takesManifest h.takes).mono ?_ fun _ => id
  rintro - _ ⟨files, saves, rfl⟩
  have lists {manifest : Manifest Double}
      (there : Contains { state with disk := { state.disk with files } } manifest) :
      manifest.entries = state.cache.entries := there.entries_of_saves h.inside saves
  have stock : Stock strays { state with disk := { state.disk with files } } := by
    refine h.of_node? (saves.sameFolders h.takes.folder) fun name named => ?_
    exact saves.node?_eq h.inside h.located.1 h.located.2
      (CacheAction.ne_of_unlike named CacheAction.unlike_manifest)
      (CacheAction.ne_of_unlike named CacheAction.unlike_draft)
  refine ⟨⟨stock, fun manifest there entry hentry => ?_⟩, rfl, fun index claimed => ?_⟩
  · exact (h.namesFile_of_mem_entries (lists there ▸ hentry)).imp_right .inr
  · rcases claimed with valid | ⟨manifest, there, entry, hentry, rfl⟩
    · exact valid
    · exact (h.namesFile_of_mem_entries (lists there ▸ hentry)).2

end Stock

end CacheState

end Montage
