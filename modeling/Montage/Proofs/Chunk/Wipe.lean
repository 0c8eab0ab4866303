import Montage.Proofs.Chunk.Change
import Montage.Proofs.Chunk.Disk

/-!
# The files of chunks in a folder

A wipe that returns has deleted every file in the folder of the cache that is named like a rendered
chunk, and the manifest that is saved afterwards brings none back: it may make the folder, but in a
folder that was not there nothing can lie.

## Main definitions

* `FileTree.ChunkFile` — a file in a folder is named like a rendered chunk
* `FileTree.Founded` — a folder is there, or no file lies in it

## Main results

* `CacheAction.deleteChunkFiles_spec` — a deletion that returns leaves no file of a chunk
* `CacheAction.wipe_clears` — a wipe that returns leaves none, and resets every chunk
* `CacheState.Trims.founded` — a folder is founded after every call if it was before
-/

namespace Montage

variable {τ : Type}

namespace FileTree

variable {tree after : FileTree} {folder : Path} {place : Place} {name : String}

/-- A file in a folder is named like a rendered chunk. -/
structure ChunkFile (tree : FileTree) (folder : Path) (name : String) : Prop where
  plain : Path.Plain name
  named : CacheAction.isChunkFile name = true
  readable : ∃ content, tree.read (folder.join name).text = .ok content

/-- A folder is there, or no file lies in it. -/
def Founded (tree : FileTree) (folder : Path) : Prop :=
  tree.isFolder folder.text = true ∨
    ∀ name content, tree.node? (folder.place ++ [name]) ≠ some (.file content)

namespace ChunkFile

theorem up (h : tree.ChunkFile folder name) : name ≠ ".." :=
  CacheAction.ne_of_unlike h.named CacheAction.unlike_up

/-- Where the file lies. -/
theorem file (h : tree.ChunkFile folder name) (inside : folder.Inside) : ∃ content,
    tree.locate (folder.join name).text = .ok (folder.place ++ [name]) ∧
      tree.node? (folder.place ++ [name]) = some (.file content) := by
  obtain ⟨content, read⟩ := h.readable
  obtain ⟨place, located, there⟩ := read_eq_ok.mp read
  obtain rfl := eq_place_of_locate (inside.join h.plain) located
  rw [Path.place_join h.plain h.up] at located there
  exact ⟨content, located, there⟩

/-- What is left was there before files were lost. -/
theorem of_loses (h : after.ChunkFile folder name) (loses : tree.Loses after) :
    tree.ChunkFile folder name where
  plain := h.plain
  named := h.named
  readable := h.readable.imp fun _ read => loses.read read

end ChunkFile

/-! ### Manifests -/

section Manifest

variable {cache : Cache τ} {text : String}

/-- A file under another name that is there when the manifest has been written was there before. -/
theorem Saves.file_of_file (saves : tree.Saves cache text after) (inside : cache.folder.Inside)
    (differ : name ≠ "manifest.json") (differ' : name ≠ "manifest.json.tmp") {content : List UInt8}
    (there : after.node? (cache.folder.place ++ [name]) = some (.file content)) :
    tree.node? (cache.folder.place ++ [name]) = some (.file content) := by
  obtain ⟨made, drafted, folders, written, moved⟩ := saves
  have apart {other : String} (differ : name ≠ other) :
      cache.folder.place ++ [name] ≠ cache.folder.place ++ [other] := fun same =>
    differ (List.singleton_inj.mp (List.append_cancel_left same))
  obtain ⟨draft, located, -, rfl⟩ := write_eq_ok.mp written
  obtain rfl := eq_place_of_locate (inside.join plain_draft) located
  obtain ⟨_, source, goal, located', -, located'', -, rfl⟩ := move_eq_ok.mp moved
  obtain rfl := eq_place_of_locate (inside.join plain_draft) located'
  obtain rfl := eq_place_of_locate (inside.join plain_manifest) located''
  rw [Path.place_join plain_draft (by decide)] at there
  rw [Path.place_join plain_manifest (by decide), node?_put_of_ne (apart differ),
    node?_erase_of_ne (apart differ'), node?_put_of_ne (apart differ')] at there
  exact (sameFiles_of_makeFolders folders _ _).mp there

/-- A manifest that is written does not bring files of chunks with it. -/
theorem ChunkFile.of_saves (h : after.ChunkFile cache.folder name)
    (saves : tree.Saves cache text after) (inside : cache.folder.Inside)
    (founded : tree.Founded cache.folder) : tree.ChunkFile cache.folder name where
  plain := h.plain
  named := h.named
  readable := by
    obtain ⟨content, located, there⟩ := h.file inside
    have before := saves.file_of_file inside
      (CacheAction.ne_of_unlike h.named CacheAction.unlike_manifest)
      (CacheAction.ne_of_unlike h.named CacheAction.unlike_draft) there
    rcases founded with folder | none
    · have same := (saves.sameFolders folder).symm.keeps.locate located
      exact ⟨content, read_eq_ok.mpr ⟨_, same, before⟩⟩
    · exact absurd before (none name content)

theorem Saves.founded (saves : tree.Saves cache text after) : after.Founded cache.folder :=
  .inl saves.takesManifest.folder

theorem Founded.of_stopsShort (h : tree.Founded cache.folder)
    (stops : tree.StopsShort cache text after) : after.Founded cache.folder := by
  obtain rfl | ⟨made, folders, rfl | drafted⟩ := stops
  · exact h
  · exact .inl (isFolder_of_makeFolders folders)
  · exact .inl ((sameFolders_of_write drafted).keeps.isFolder (isFolder_of_makeFolders folders))

theorem Founded.of_loses (h : tree.Founded folder) (loses : tree.Loses after) :
    after.Founded folder := by
  rcases h with there | none
  · exact .inl (loses.sameFolders.keeps.isFolder there)
  · refine .inr fun name content here => ?_
    rcases loses (folder.place ++ [name]) with same | ⟨gone, -⟩
    · exact none name content (same.symm.trans here)
    · exact absurd (gone.symm.trans here) (by simp)

/-- In a folder that is not there nothing can be written. -/
theorem founded_of_write {content : List UInt8} (inside : folder.Inside) (plain : Path.Plain name)
    (up : name ≠ "..") (written : tree.write (folder.join name).text content = .ok after) :
    after.Founded folder := by
  obtain ⟨place, located, -, -⟩ := write_eq_ok.mp written
  obtain ⟨above, located', there, -⟩ := locate_below inside plain up located
  exact .inl ((sameFolders_of_write written).keeps.isFolder (isFolder_iff.mpr ⟨above, located', there⟩))

end Manifest

end FileTree

/-! ### Wipes -/

theorem CacheState.Trims.founded [Scalar τ] {state next : CacheState τ} (h : state.Trims next)
    (founded : state.disk.files.Founded state.cache.folder) :
    next.disk.files.Founded next.cache.folder := by
  rcases h with strips | ⟨middle, strips, rfl⟩
  · exact strips.folder ▸ founded.of_loses strips.loses
  · have founded' : middle.disk.files.Founded middle.cache.folder :=
      strips.folder ▸ founded.of_loses strips.loses
    rcases (CacheAction.save_spec middle).ends with ⟨-, files, saves, same⟩ | ⟨-, ⟨files, stops, same⟩, -⟩
    · rw [same]
      exact saves.founded
    · rw [same]
      exact founded'.of_stopsShort stops

namespace CacheAction

open FileTree

/-- A deletion that returns leaves no file of a chunk in the folder. -/
theorem deleteChunkFiles_spec {state : CacheState τ} (inside : state.cache.folder.Inside) :
    Ensures deleteChunkFiles state
      (fun _ next => state.Strips next ∧ next.cache = state.cache ∧
        ∀ name, ¬ next.disk.files.ChunkFile state.cache.folder name)
      state.Strips := by
  unfold deleteChunkFiles
  rw [ensures_bind, ensures_cache, ensures_bind, ensures_files, ensures_bind]
  -- A name of a chunk is still to be visited, or no file of that name is left.
  let visited (left : List String) (next : CacheState τ) : Prop :=
    state.Strips next ∧ next.cache = state.cache ∧
    ∀ name, next.disk.files.ChunkFile state.cache.folder name → name ∈ left
  refine (Ensures.forIn visited (fun name rest next => ?_) ?_).mono ?_ fun _ h => h
  · rintro ⟨strips, same, left⟩
    have others (other : String) (differ : other ≠ name)
        (h : next.disk.files.ChunkFile state.cache.folder other) : other ∈ rest :=
      (List.mem_cons.mp (left other h)).resolve_left differ
    split
    · rw [ensures_bind, ensures_onFiles]
      split
      · next files removed =>
        have loses : next.disk.files.Loses files := loses_of_remove removed
        refine ⟨rfl, keeps_strips_setFiles strips loses, same, fun other h => ?_⟩
        refine others other ?_ (h.of_loses loses)
        rintro rfl
        obtain ⟨content, read⟩ := h.readable
        obtain ⟨place, located, there⟩ := read_eq_ok.mp read
        have still := pathExists_iff.mpr ⟨place, located, by simp [there]⟩
        exact absurd ((pathExists_remove removed).symm.trans still) (by simp)
      · exact strips
    · next unlike =>
      refine ⟨rfl, strips, same, fun other h => others other ?_ h⟩
      rintro rfl
      exact unlike h.named
  · refine ⟨.refl state, rfl, fun name h => ?_⟩
    obtain ⟨content, located, there⟩ := h.file inside
    obtain ⟨above, located', same⟩ := locate_join inside h.plain h.up located
    refine mem_namesIn.mpr ⟨above, located', ?_⟩
    rw [← same, there]
    simp
  · rintro - next ⟨strips, same, none⟩
    exact ⟨strips, same, fun name h => absurd (none name h) List.not_mem_nil⟩

variable [Scalar τ]

/-- A wipe that returns leaves no file of a chunk in the folder, and resets every chunk. -/
theorem wipe_clears {state : CacheState τ} (inside : state.cache.folder.Inside)
    (founded : state.disk.files.Founded state.cache.folder) :
    Ensures wipe state
      (fun _ next =>
        next.cache = { state.cache with chunks := state.cache.chunks.map Cache.reset } ∧
        ∀ name, ¬ next.disk.files.ChunkFile state.cache.folder name)
      (fun _ => True) := by
  unfold wipe
  rw [ensures_bind]
  refine (deleteChunkFiles_spec inside).mono ?_ fun _ _ => trivial
  rintro - middle ⟨strips, same, none⟩
  rw [ensures_bind, ensures_cache, ensures_bind, ensures_setCache, same]
  refine (save_spec _).mono ?_ fun _ _ => trivial
  rintro - _ ⟨files, saves, rfl⟩
  refine ⟨rfl, fun name h => none name ?_⟩
  exact h.of_saves saves inside (founded.of_loses strips.loses)

end CacheAction

end Montage
