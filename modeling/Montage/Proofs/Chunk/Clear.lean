import Montage.Proofs.Chunk.Naming
import Montage.Proofs.Chunk.Reuse
import Montage.Proofs.Chunk.Save
import Montage.Proofs.Files.Folder

/-!
# Clearing the folder of a cache

When what was rendered is of no use any more, every file in the folder that is named like a rendered
chunk is deleted. That goes through unless something of such a name cannot be deleted, such as a
folder; and neither this nor a manifest that is saved afterwards brings such a name back.

## Main definitions

* `FileTree.Clearable` — what is named like a rendered chunk can be deleted
* `FileTree.Cleared` — nothing is named like a rendered chunk

## Main results

* `CacheAction.deleteChunkFiles_clears` — a folder that can be cleared is cleared
* `FileTree.Saves.cleared` — the folder stays so when the manifest is saved
-/

namespace Montage

variable {τ : Type}

namespace FileTree

variable {tree after : FileTree} {folder : Path} {place : Place} {name path : String}

/-- Some files are gone, and all else is as it was. -/
def Loses (tree after : FileTree) : Prop :=
  ∀ place, after.node? place = tree.node? place ∨
    after.node? place = none ∧ tree.node? place ≠ some .folder

protected theorem Loses.refl (tree : FileTree) : tree.Loses tree := fun _ => .inl rfl

protected theorem Loses.trans {last : FileTree} (h : tree.Loses after) (h' : after.Loses last) :
    tree.Loses last := fun place => by
  rcases h' place with same | ⟨gone, file⟩
  · rw [same]
    exact h place
  · rcases h place with same | ⟨gone', file'⟩
    · exact .inr ⟨gone, same ▸ file⟩
    · exact .inr ⟨gone, file'⟩

theorem Loses.sameFolders (h : tree.Loses after) : tree.SameFolders after := fun place => by
  rcases h place with same | ⟨gone, file⟩
  · rw [same]
  · simp [gone, file]

/-- What is gone stays gone. -/
theorem Loses.node?_eq_none (h : tree.Loses after) (gone : tree.node? place = none) :
    after.node? place = none := by
  rcases h place with same | ⟨gone', -⟩
  · exact same.trans gone
  · exact gone'

/-- Where no folder stands, nothing stands after a removal, and all else is as it was. -/
theorem remove_of_located (located : tree.locate path = .ok place)
    (file : tree.node? place ≠ some .folder) :
    ∃ after, tree.remove path = .ok after ∧ after.node? place = none ∧ tree.Loses after := by
  unfold remove
  rw [located]
  dsimp only
  split
  · next none => exact ⟨tree, rfl, none, .refl tree⟩
  · next content there =>
    have below : place ≠ [] := by
      rintro rfl
      exact file node?_root
    have gone : (tree.erase place).node? place = none := node?_erase_self below
    refine ⟨tree.erase place, rfl, gone, fun other => ?_⟩
    by_cases here : other = place
    · exact .inr ⟨here ▸ gone, here ▸ file⟩
    · exact .inl (node?_erase_of_ne here)
  · next there => exact absurd there file

/-- What is named like a rendered chunk is a name that a path can have, and no folder. -/
def Clearable (tree : FileTree) (folder : Path) : Prop :=
  ∀ name ∈ tree.namesIn folder.text, CacheAction.isChunkFile name = true →
    Path.Plain name ∧ tree.CanWrite (folder.join name).text

/-- What is named like a rendered chunk can be deleted, also when other files are gone already. -/
theorem Clearable.remove {now : FileTree} (clearable : tree.Clearable folder)
    (inside : folder.Inside) (located : tree.locate folder.text = .ok place)
    (held : name ∈ tree.namesIn folder.text) (chunk : CacheAction.isChunkFile name = true)
    (loses : tree.Loses now) :
    ∃ after, now.remove (folder.join name).text = .ok after ∧
      after.node? (place ++ [name]) = none ∧ now.Loses after := by
  have up := CacheAction.ne_of_unlike chunk CacheAction.unlike_up
  obtain ⟨plain, goal, leads, file⟩ := clearable name held chunk
  obtain ⟨above, located', rfl⟩ := locate_join inside plain up leads
  obtain rfl := Except.ok.inj (located.symm.trans located')
  exact remove_of_located (loses.sameFolders.keeps.locate leads) fun there =>
    file ((loses.sameFolders _).mpr there)

/-- Nothing in a folder is named like a rendered chunk. -/
def Cleared (tree : FileTree) (folder : Path) : Prop :=
  ∀ name ∈ tree.namesIn folder.text, CacheAction.isChunkFile name = false

theorem plain_manifest : Path.Plain "manifest.json" where
  nonempty := by decide
  not_here := by decide
  no_slash := by simp

theorem plain_draft : Path.Plain "manifest.json.tmp" where
  nonempty := by decide
  not_here := by decide
  no_slash := by simp

/-- A manifest that is saved in a folder that is there changes its own file and the one beside it. -/
theorem Saves.node?_eq {cache : Cache τ} {text : String} (saves : tree.Saves cache text after)
    (inside : cache.folder.Inside) (located : tree.locate cache.folder.text = .ok place)
    (folder : tree.node? place = some .folder) (differ : name ≠ "manifest.json")
    (differ' : name ≠ "manifest.json.tmp") :
    after.node? (place ++ [name]) = tree.node? (place ++ [name]) := by
  refine saves.node?_of_not_manifestAt (isFolder_iff.mpr ⟨place, located, folder⟩) ?_
  -- Both paths lead right below the folder.
  rintro (draft | goal)
  · obtain ⟨above, at_draft, same⟩ := locate_join inside plain_draft (by decide) draft
    obtain rfl := Except.ok.inj (located.symm.trans at_draft)
    exact differ' (by simpa using same)
  · obtain ⟨above, at_goal, same⟩ := locate_join inside plain_manifest (by decide) goal
    obtain rfl := Except.ok.inj (located.symm.trans at_goal)
    exact differ (by simpa using same)

/-- A folder that was cleared stays so when the manifest is saved. -/
theorem Saves.cleared {cache : Cache τ} {text : String} (saves : tree.Saves cache text after)
    (cleared : tree.Cleared cache.folder) (inside : cache.folder.Inside)
    (folder : tree.isFolder cache.folder.text = true) : after.Cleared cache.folder := by
  obtain ⟨place, located, there⟩ := isFolder_iff.mp folder
  have located' := (saves.sameFolders folder).keeps.locate located
  intro name held
  obtain ⟨above, at_folder, held⟩ := mem_namesIn.mp held
  obtain rfl := Except.ok.inj (located'.symm.trans at_folder)
  by_contra chunk
  have named := Bool.eq_true_of_not_eq_false chunk
  rw [saves.node?_eq inside located there
    (CacheAction.ne_of_unlike named CacheAction.unlike_manifest)
    (CacheAction.ne_of_unlike named CacheAction.unlike_draft)] at held
  exact chunk (cleared name (mem_namesIn.mpr ⟨place, located, held⟩))

end FileTree

namespace CacheAction

open FileTree

/-- A folder that can be cleared is cleared, and nothing is lost but files. -/
theorem deleteChunkFiles_clears {state : CacheState τ} (inside : state.cache.folder.Inside)
    (folder : state.disk.files.isFolder state.cache.folder.text = true)
    (clearable : state.disk.files.Clearable state.cache.folder) :
    Ensures deleteChunkFiles state
      (fun _ next => next = { state with disk := { state.disk with files := next.disk.files } } ∧
        state.disk.files.Loses next.disk.files ∧ next.disk.files.Cleared state.cache.folder)
      (fun _ => False) := by
  obtain ⟨above, located, -⟩ := isFolder_iff.mp folder
  unfold deleteChunkFiles
  rw [ensures_bind, ensures_cache, ensures_bind, ensures_files, ensures_bind]
  -- A name of a chunk is still to be visited, or nothing stands there.
  let visited (left : List String) (next : CacheState τ) : Prop :=
    next = { state with disk := { state.disk with files := next.disk.files } } ∧
    state.disk.files.Loses next.disk.files ∧
    left ⊆ state.disk.files.namesIn state.cache.folder.text ∧
    ∀ name ∈ state.disk.files.namesIn state.cache.folder.text, isChunkFile name = true →
      name ∈ left ∨ next.disk.files.node? (above ++ [name]) = none
  refine (Ensures.forIn visited (fun name rest next => ?_) ?_).mono ?_ fun _ h => h
  · rintro ⟨same, loses, left, gone⟩
    obtain ⟨here, left⟩ := List.cons_subset.mp left
    split
    · next chunk =>
      have removed := clearable.remove inside located here chunk loses
      rw [ensures_bind, ensures_onFiles]
      cases hremove : next.disk.files.remove (state.cache.folder.join name).text with
      | error cause =>
        obtain ⟨after, removed, -⟩ := removed
        exact absurd (hremove.symm.trans removed) (by simp)
      | ok after =>
        obtain ⟨after', removed, empty, loses'⟩ := removed
        obtain rfl := Except.ok.inj (hremove.symm.trans removed)
        refine ⟨rfl, by rw [same], loses.trans loses', left, fun other h chunk' => ?_⟩
        rcases gone other h chunk' with waits | none
        · rcases List.mem_cons.mp waits with rfl | waits
          · exact .inr empty
          · exact .inl waits
        · exact .inr (loses'.node?_eq_none none)
    · next other =>
      refine ⟨rfl, same, loses, left, fun name' h chunk => ?_⟩
      rcases gone name' h chunk with waits | none
      · rcases List.mem_cons.mp waits with rfl | waits
        · exact absurd chunk other
        · exact .inl waits
      · exact .inr none
  · exact ⟨rfl, .refl _, List.Subset.refl _, fun _ h _ => .inl h⟩
  · rintro - next ⟨same, loses, -, gone⟩
    rw [ensures_pure]
    refine ⟨same, loses, fun name h => ?_⟩
    -- What is held now was held before, and would have been deleted.
    obtain ⟨place, located', there⟩ := mem_namesIn.mp h
    obtain rfl := Except.ok.inj ((loses.sameFolders.keeps.locate located).symm.trans located')
    by_contra chunk
    have before : name ∈ state.disk.files.namesIn state.cache.folder.text :=
      mem_namesIn.mpr ⟨above, located, fun none => there (loses.node?_eq_none none)⟩
    rcases gone name before (by simpa using chunk) with waits | none
    · exact absurd waits (by simp)
    · exact there none

end CacheAction

end Montage
