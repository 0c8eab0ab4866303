import Montage.Proofs.Chunk.Manifest
import Montage.Proofs.Chunk.Reuse
import Montage.Proofs.Files.Write
import Montage.Proofs.Text.Utf8

/-!
# The manifest on disk is the one that was saved

A manifest is written beside its place and moved there. So once it was saved, the file at its place
holds its text, and what is found there is the manifest; and it can be saved again as long as the
folders stay as they are.

## Main definitions

* `FileTree.TakesManifest` — the manifest of a cache can be written
* `FileTree.Holds` — the file of the manifest holds a text
* `FileTree.Saves`, `FileTree.StopsShort` — the manifest is written, or not to its end
* `FileTree.ManifestAt` — the manifest or its draft lies at a place

## Main results

* `CacheAction.save_eq_ok` — a save that returns has written the manifest
* `CacheAction.save_of_takesManifest` — a manifest that can be written is saved
* `CacheAction.finds_of_holds` — the text of a manifest is found as the manifest
-/

namespace Montage

variable {τ : Type}

namespace FileTree

/-- The manifest of a cache can be written. -/
structure TakesManifest (tree : FileTree) (cache : Cache τ) : Prop where
  folder : tree.isFolder cache.folder.text = true
  draft : tree.CanWrite cache.draftPath.text
  goal : tree.CanWrite cache.manifestFile.text

theorem takesManifest_iff {tree : FileTree} {cache : Cache τ} : tree.TakesManifest cache ↔
    tree.isFolder cache.folder.text = true ∧ tree.CanWrite cache.draftPath.text ∧
      tree.CanWrite cache.manifestFile.text :=
  ⟨fun h => ⟨h.folder, h.draft, h.goal⟩, fun h => ⟨h.1, h.2.1, h.2.2⟩⟩

instance (tree : FileTree) (cache : Cache τ) : Decidable (tree.TakesManifest cache) :=
  decidable_of_iff' _ takesManifest_iff

/-- The file of the manifest holds a text. -/
def Holds (tree : FileTree) (cache : Cache τ) (text : String) : Prop :=
  tree.read cache.manifestFile.text = .ok (Text.Utf8.encode text)

/-- A text is written beside the place of the manifest and moved there. -/
def Saves (tree : FileTree) (cache : Cache τ) (text : String) (after : FileTree) : Prop :=
  ∃ made drafted, tree.makeFolders cache.folder = .ok made ∧
    made.writeText cache.draftPath.text text = .ok drafted ∧
    drafted.move cache.draftPath.text cache.manifestFile.text = .ok after

/-- The writing of a text stops before it is moved to the place of the manifest. -/
def StopsShort (tree : FileTree) (cache : Cache τ) (text : String) (after : FileTree) : Prop :=
  after = tree ∨ ∃ made, tree.makeFolders cache.folder = .ok made ∧
    (after = made ∨ made.writeText cache.draftPath.text text = .ok after)

/-- The manifest of a cache, or its draft, lies at a place. -/
def ManifestAt (tree : FileTree) (cache : Cache τ) (place : Place) : Prop :=
  tree.locate cache.draftPath.text = .ok place ∨ tree.locate cache.manifestFile.text = .ok place

theorem TakesManifest.of_sameFolders {tree after : FileTree} {cache : Cache τ}
    (h : tree.TakesManifest cache) (same : tree.SameFolders after) : after.TakesManifest cache where
  folder := same.keeps.isFolder h.folder
  draft := same.canWrite h.draft
  goal := same.canWrite h.goal

variable {tree after : FileTree} {cache other : Cache τ} {text : String}

/-- Where a manifest lies depends on the folder alone. -/
theorem TakesManifest.of_folder (h : tree.TakesManifest cache) (same : other.folder = cache.folder) :
    tree.TakesManifest other where
  folder := same ▸ h.folder
  draft := by
    unfold Cache.draftPath
    rw [same]
    exact h.draft
  goal := by
    unfold Cache.manifestFile
    rw [same]
    exact h.goal

/-- There is one way to write a manifest. -/
theorem Saves.unique {after' : FileTree} (h : tree.Saves cache text after)
    (h' : tree.Saves cache text after') : after = after' := by
  obtain ⟨made, drafted, hmade, hdrafted, hmoved⟩ := h
  obtain ⟨made', drafted', hmade', hdrafted', hmoved'⟩ := h'
  obtain rfl := Except.ok.inj (hmade.symm.trans hmade')
  obtain rfl := Except.ok.inj (hdrafted.symm.trans hdrafted')
  exact Except.ok.inj (hmoved.symm.trans hmoved')

/-- What was saved can be saved again. -/
theorem Saves.takesManifest (h : tree.Saves cache text after) : after.TakesManifest cache := by
  obtain ⟨made, drafted, hmade, hdrafted, hmoved⟩ := h
  have drafted_same : made.SameFolders drafted := sameFolders_of_write hdrafted
  have moved_same : drafted.SameFolders after := sameFolders_of_move hmoved
  have same : made.SameFolders after := drafted_same.trans moved_same
  exact {
    folder := same.keeps.isFolder (isFolder_of_makeFolders hmade)
    draft := same.canWrite (canWrite_of_write hdrafted)
    goal := moved_same.canWrite (canWrite_of_move hmoved) }

/-- What was saved is in the file of the manifest. -/
theorem Saves.holds (h : tree.Saves cache text after) : after.Holds cache text := by
  obtain ⟨made, drafted, -, hdrafted, hmoved⟩ := h
  exact read_of_move (read_of_write hdrafted) hmoved

/-- A manifest that can be written is written. -/
theorem TakesManifest.saves (h : tree.TakesManifest cache) (text : String) :
    ∃ after, tree.Saves cache text after := by
  obtain ⟨drafted, hdrafted⟩ := h.draft.write (Text.Utf8.encode text)
  have same : tree.SameFolders drafted := sameFolders_of_write hdrafted
  obtain ⟨after, hmoved⟩ := (same.canWrite h.goal).move (read_of_write hdrafted)
  exact ⟨after, tree, drafted, makeFolders_of_isFolder h.folder, hdrafted, hmoved⟩

/-- Where the folder is there already, the folders stay as they are. -/
theorem Saves.sameFolders (h : tree.Saves cache text after)
    (folder : tree.isFolder cache.folder.text = true) : tree.SameFolders after := by
  obtain ⟨made, drafted, hmade, hdrafted, hmoved⟩ := h
  obtain rfl := Except.ok.inj ((makeFolders_of_isFolder folder).symm.trans hmade)
  have drafted_same : tree.SameFolders drafted := sameFolders_of_write hdrafted
  exact drafted_same.trans (sameFolders_of_move hmoved)

/-- Where the folder is there already, every other place is as it was. -/
theorem Saves.node?_of_not_manifestAt (h : tree.Saves cache text after)
    (folder : tree.isFolder cache.folder.text = true) {place : Place}
    (elsewhere : ¬ tree.ManifestAt cache place) : after.node? place = tree.node? place := by
  obtain ⟨made, drafted, hmade, hdrafted, hmoved⟩ := h
  obtain rfl := Except.ok.inj ((makeFolders_of_isFolder folder).symm.trans hmade)
  have same : drafted.SameFolders tree := (sameFolders_of_write hdrafted).symm
  obtain ⟨draft, leads, -, rfl⟩ := write_eq_ok.mp hdrafted
  obtain ⟨_, source, goal, leads', -, leads'', -, rfl⟩ := move_eq_ok.mp hmoved
  have not_draft : place ≠ draft := fun here => elsewhere (.inl (here ▸ leads))
  have not_source : place ≠ source := fun here => elsewhere (.inl (here ▸ same.keeps.locate leads'))
  have not_goal : place ≠ goal := fun here => elsewhere (.inr (here ▸ same.keeps.locate leads''))
  rw [node?_put_of_ne not_goal, node?_erase_of_ne not_source, node?_put_of_ne not_draft]

end FileTree

namespace CacheAction

theorem ensures_onFiles {change : FileTree → Except FileError FileTree} {state : CacheState τ}
    {returns : Except FileError Unit → CacheState τ → Prop} {fails : CacheState τ → Prop} :
    Ensures (onFiles change) state returns fails ↔
      match change state.disk.files with
      | .ok files => returns (.ok ()) { state with disk := { state.disk with files } }
      | .error cause => returns (.error cause) state := by
  unfold onFiles
  rw [ensures_bind, ensures_files]
  cases change state.disk.files <;> rfl

variable [Scalar τ]

/-- A manifest is saved if its file can be written. -/
theorem save_spec (state : CacheState τ) :
    let text := (state.cache.manifest state.disk.now).text
    Ensures save state
      (fun _ next => ∃ after, state.disk.files.Saves state.cache text after ∧
        next = { state with disk := { state.disk with files := after } })
      (fun next => (∃ after, state.disk.files.StopsShort state.cache text after ∧
          next = { state with disk := { state.disk with files := after } }) ∧
        ∀ after, ¬ state.disk.files.Saves state.cache text after) := by
  intro text
  unfold save
  rw [ensures_bind, ensures_cache, ensures_bind, ensures_get]
  simp only [List.forIn_cons, List.forIn_nil]
  rw [ensures_bind, ensures_bind, ensures_bind, ensures_onFiles]
  cases made : state.disk.files.makeFolders state.cache.folder with
  | error cause =>
    refine ⟨⟨_, .inl rfl, rfl⟩, ?_⟩
    rintro after ⟨_, _, made', -⟩
    exact absurd (made.symm.trans made') (by simp)
  | ok files =>
    dsimp only
    rw [ensures_pure]
    dsimp only
    rw [ensures_bind, ensures_bind, ensures_onFiles]
    cases drafted : files.writeText state.cache.draftPath.text
        (state.cache.manifest state.disk.now).text with
    | error cause =>
      refine ⟨⟨files, .inr ⟨files, made, .inl rfl⟩, rfl⟩, ?_⟩
      rintro after ⟨_, _, made', drafted', -⟩
      obtain rfl := Except.ok.inj (made.symm.trans made')
      exact absurd (drafted.symm.trans drafted') (by simp)
    | ok files' =>
      dsimp only
      rw [ensures_pure]
      dsimp only
      rw [ensures_bind, ensures_bind, ensures_onFiles]
      cases moved : files'.move state.cache.draftPath.text state.cache.manifestFile.text with
      | error cause =>
        refine ⟨⟨files', .inr ⟨files, made, .inr drafted⟩, rfl⟩, ?_⟩
        rintro after ⟨_, _, made', drafted', moved'⟩
        obtain rfl := Except.ok.inj (made.symm.trans made')
        obtain rfl := Except.ok.inj (drafted.symm.trans drafted')
        exact absurd (moved.symm.trans moved') (by simp)
      | ok after => exact ⟨after, ⟨files, files', made, drafted, moved⟩, rfl⟩

/-- A save that returns has written the manifest and changed nothing else. -/
theorem save_eq_ok {state next : CacheState τ} (h : save state = .ok () next) :
    ∃ after, state.disk.files.Saves state.cache (state.cache.manifest state.disk.now).text after ∧
      next = { state with disk := { state.disk with files := after } } :=
  (ensures_of_ok h).mp (save_spec state)

/-- A manifest that can be written is saved. -/
theorem save_of_takesManifest {state : CacheState τ}
    (h : state.disk.files.TakesManifest state.cache) :
    Ensures save state
      (fun _ next => ∃ after,
        state.disk.files.Saves state.cache (state.cache.manifest state.disk.now).text after ∧
        next = { state with disk := { state.disk with files := after } })
      (fun _ => False) := by
  obtain ⟨after, saves⟩ := h.saves (state.cache.manifest state.disk.now).text
  exact (save_spec state).mono (fun _ _ saved => saved) fun _ fails => fails.2 after saves

theorem save_eq_leaves {state : CacheState τ} (h : state.disk.files.TakesManifest state.cache) :
    save state = .ok () (leaves save state) := (save_of_takesManifest h).eq_ok

/-- The text of a manifest is found as the manifest. -/
theorem finds_of_holds {state : CacheState Double} {manifest : Manifest Double}
    (holds : state.disk.files.Holds state.cache manifest.text) (readable : manifest.Readable) :
    Finds state manifest.kept := by
  unfold FileTree.Holds at holds
  rw [finds_iff]
  unfold readManifest
  rw [ensures_bind, ensures_cache]
  dsimp only
  rw [ensures_bind, ensures_files, holds]
  dsimp only
  rw [Text.Utf8.decode?_encode]
  dsimp only
  rw [ensures_bind, ensures_get, ensures_pure]
  exact Manifest.read?_text readable _

end CacheAction

end Montage
