import Mathlib.Data.List.Basic
import Montage.Proofs.Files.Remove

/-!
# Writing files

Where a path leads depends on the folders on the way alone. A file that is written, moved or removed
leaves the folders as they are, so every path leads where it led before, and what was written is read
back.

## Main definitions

* `FileTree.SameFolders`, `FileTree.SameFiles` — two trees with the same folders, or the same files

## Main results

* `KeepsFolders.locate` — a path leads to the same place
* `read_of_write`, `read_of_move` — what was written or moved is read
* `isFolder_of_makeFolders` — a folder that was made is there
* `makeFolders_of_isFolder` — a folder that is there is not made again
* `sameFiles_of_makeFolders` — making folders leaves the files alone
-/

namespace Montage.FileTree

variable {tree after : FileTree} {place other : Place} {node : FileNode} {path : String}
  {content : List UInt8}

/-! ### One place -/

theorem node?_put_self (below : place ≠ []) : (tree.put place node).node? place = some node := by
  have gone := lookup_erase_self tree.nodes place
  unfold node? put
  rw [if_neg (by simpa using below), List.lookup_append, gone]
  simp

theorem node?_put_of_ne (differ : other ≠ place) :
    (tree.put place node).node? other = tree.node? other := by
  unfold node? put
  rw [List.lookup_append, lookup_erase_of_ne tree.nodes differ]
  have apart : (other == place) = false := beq_eq_false_iff_ne.mpr differ
  rw [List.lookup_cons, apart, List.lookup_nil, Option.or_none]

theorem isFolder_iff : tree.isFolder path = true ↔
    ∃ place, tree.locate path = .ok place ∧ tree.node? place = some .folder := by
  unfold isFolder find
  cases tree.locate path with
  | error cause => simp [bind, Except.bind]
  | ok place =>
    cases hnode : tree.node? place with
    | none => simp [bind, Except.bind, hnode]
    | some node => cases node <;> simp [bind, Except.bind, pure, Except.pure, hnode]

theorem read_eq_ok : tree.read path = .ok content ↔
    ∃ place, tree.locate path = .ok place ∧ tree.node? place = some (.file content) := by
  unfold read find
  cases tree.locate path with
  | error cause => simp [bind, Except.bind]
  | ok place =>
    cases hnode : tree.node? place with
    | none => simp [bind, Except.bind, hnode]
    | some node => cases node <;> simp [bind, Except.bind, pure, Except.pure, hnode]

/-- A path leads to a place where something stands. -/
theorem pathExists_iff : tree.pathExists path = true ↔
    ∃ place, tree.locate path = .ok place ∧ tree.node? place ≠ none := by
  unfold pathExists find
  cases tree.locate path with
  | error cause => simp [bind, Except.bind, Except.toBool]
  | ok place =>
    cases hnode : tree.node? place with
    | none => simp [bind, Except.bind, hnode, Except.toBool]
    | some node => simp [bind, Except.bind, pure, Except.pure, hnode, Except.toBool]

theorem node?_root : tree.node? [] = some .folder := rfl

/-! ### The folders -/

/-- Every folder of a tree is one of another. -/
def KeepsFolders (tree after : FileTree) : Prop :=
  ∀ place, tree.node? place = some .folder → after.node? place = some .folder

/-- Two trees with the same folders. -/
def SameFolders (tree after : FileTree) : Prop :=
  ∀ place, tree.node? place = some .folder ↔ after.node? place = some .folder

theorem SameFolders.keeps (h : tree.SameFolders after) : tree.KeepsFolders after :=
  fun place => (h place).mp

protected theorem SameFolders.refl (tree : FileTree) : tree.SameFolders tree := fun _ => Iff.rfl

protected theorem SameFolders.symm (h : tree.SameFolders after) : after.SameFolders tree :=
  fun place => (h place).symm

protected theorem SameFolders.trans {last : FileTree} (h : tree.SameFolders after)
    (h' : after.SameFolders last) : tree.SameFolders last := fun place => (h place).trans (h' place)

/-- Names lead from folder to folder. -/
theorem KeepsFolders.walk (kept : tree.KeepsFolders after) {names : List String}
    {place found : Place} (h : tree.walk path place names = .ok found) :
    after.walk path place names = .ok found := by
  induction names generalizing place with
  | nil => exact h
  | cons name rest ih =>
    have folder : tree.node? place = some .folder := by
      rw [FileTree.walk] at h
      split at h
      · exact absurd h (by simp)
      · exact absurd h (by simp)
      · assumption
    rw [FileTree.walk] at h ⊢
    rw [folder] at h
    rw [kept place folder]
    dsimp only at h ⊢
    split_ifs at h ⊢ with long none up
    · exact ih h
    · exact ih h
    · exact ih h

/-- A path leads to the same place. -/
theorem KeepsFolders.locate (kept : tree.KeepsFolders after) (h : tree.locate path = .ok place) :
    after.locate path = .ok place := by
  unfold FileTree.locate at h ⊢
  split_ifs at h ⊢ with long outside
  exact kept.walk h

theorem KeepsFolders.isFolder (kept : tree.KeepsFolders after) (h : tree.isFolder path = true) :
    after.isFolder path = true := by
  rw [isFolder_iff] at h ⊢
  obtain ⟨place, located, folder⟩ := h
  exact ⟨place, kept.locate located, kept place folder⟩

theorem sameFolders_put (empty : tree.node? place ≠ some .folder) :
    tree.SameFolders (tree.put place (.file content)) := by
  intro other
  by_cases here : other = place
  · subst here
    have below : other ≠ [] := by
      rintro rfl
      exact empty node?_root
    rw [node?_put_self below]
    exact ⟨fun folder => absurd folder empty, fun file => absurd file (by simp)⟩
  · rw [node?_put_of_ne here]

theorem sameFolders_erase (file : tree.node? place = some (.file content)) :
    tree.SameFolders (tree.erase place) := by
  have below : place ≠ [] := by
    rintro rfl
    exact absurd (node?_root.symm.trans file) (by simp)
  intro other
  by_cases here : other = place
  · subst here
    rw [node?_erase_self below, file]
    simp
  · rw [node?_erase_of_ne here]

/-! ### Writing -/

/-- A path at which a file can be written. -/
def CanWrite (tree : FileTree) (path : String) : Prop :=
  ∃ place, tree.locate path = .ok place ∧ tree.node? place ≠ some .folder

instance (tree : FileTree) (path : String) : Decidable (tree.CanWrite path) :=
  match located : tree.locate path with
  | .error cause => isFalse (by simp [CanWrite, located])
  | .ok place => decidable_of_iff (tree.node? place ≠ some .folder) (by simp [CanWrite, located])

theorem SameFolders.canWrite (same : tree.SameFolders after) (h : tree.CanWrite path) :
    after.CanWrite path := by
  obtain ⟨place, located, empty⟩ := h
  exact ⟨place, same.keeps.locate located, fun folder => empty ((same place).mpr folder)⟩

theorem write_eq_ok : tree.write path content = .ok after ↔
    ∃ place, tree.locate path = .ok place ∧ tree.node? place ≠ some .folder ∧
      after = tree.put place (.file content) := by
  unfold write
  cases tree.locate path with
  | error cause => simp [bind, Except.bind]
  | ok place =>
    cases hnode : tree.node? place with
    | none => simp [bind, Except.bind, pure, Except.pure, hnode, eq_comm]
    | some node => cases node <;> simp [bind, Except.bind, pure, Except.pure, hnode, eq_comm]

theorem sameFolders_of_write (h : tree.write path content = .ok after) : tree.SameFolders after := by
  obtain ⟨place, -, empty, rfl⟩ := Iff.mp write_eq_ok h
  exact sameFolders_put empty

/-- What was written is read. -/
theorem read_of_write (h : tree.write path content = .ok after) : after.read path = .ok content := by
  obtain ⟨place, located, empty, rfl⟩ := Iff.mp write_eq_ok h
  have below : place ≠ [] := by
    rintro rfl
    exact empty node?_root
  exact Iff.mpr read_eq_ok ⟨place, (sameFolders_put empty).keeps.locate located, node?_put_self below⟩

theorem CanWrite.write (h : tree.CanWrite path) (content : List UInt8) :
    ∃ after, tree.write path content = .ok after := by
  obtain ⟨place, located, empty⟩ := h
  exact ⟨_, Iff.mpr write_eq_ok ⟨place, located, empty, rfl⟩⟩

theorem canWrite_of_write (h : tree.write path content = .ok after) : tree.CanWrite path := by
  obtain ⟨place, located, empty, -⟩ := Iff.mp write_eq_ok h
  exact ⟨place, located, empty⟩

/-! ### Moving -/

variable {source target : String}

theorem move_eq_ok : tree.move source target = .ok after ↔
    ∃ content place goal, tree.locate source = .ok place ∧
      tree.node? place = some (.file content) ∧ tree.locate target = .ok goal ∧
      tree.node? goal ≠ some .folder ∧ after = (tree.erase place).put goal (.file content) := by
  unfold move
  cases hread : tree.read source with
  | error cause =>
    refine ⟨fun h => absurd h (by simp [bind, Except.bind]), ?_⟩
    rintro ⟨content, place, goal, located, file, -⟩
    exact absurd (hread.symm.trans (Iff.mpr read_eq_ok ⟨place, located, file⟩)) (by simp)
  | ok content =>
    obtain ⟨place, located, file⟩ := Iff.mp read_eq_ok hread
    rw [located]
    cases tree.locate target with
    | error cause => simp [bind, Except.bind]
    | ok goal =>
      cases hgoal : tree.node? goal with
      | none => simp [bind, Except.bind, pure, Except.pure, hgoal, file, eq_comm]
      | some node =>
        cases node <;> simp [bind, Except.bind, pure, Except.pure, hgoal, file, eq_comm]

theorem sameFolders_of_move (h : tree.move source target = .ok after) : tree.SameFolders after := by
  obtain ⟨content, place, goal, -, file, -, empty, rfl⟩ := Iff.mp move_eq_ok h
  have erased := sameFolders_erase file
  exact erased.trans (sameFolders_put fun folder => empty ((erased goal).mpr folder))

/-- What was moved is read at its new path. -/
theorem read_of_move (read : tree.read source = .ok content)
    (h : tree.move source target = .ok after) : after.read target = .ok content := by
  have kept := (sameFolders_of_move h).keeps
  obtain ⟨content', place, goal, located, file, located', empty, rfl⟩ := Iff.mp move_eq_ok h
  have same : content' = content := by
    have read' := Iff.mpr read_eq_ok ⟨place, located, file⟩
    rw [read] at read'
    exact (Except.ok.inj read').symm
  have below : goal ≠ [] := by
    rintro rfl
    exact empty node?_root
  rw [same] at kept ⊢
  exact Iff.mpr read_eq_ok ⟨goal, kept.locate located', node?_put_self below⟩

theorem CanWrite.move (h : tree.CanWrite target) (read : tree.read source = .ok content) :
    ∃ after, tree.move source target = .ok after := by
  obtain ⟨goal, located, empty⟩ := h
  obtain ⟨place, located', file⟩ := Iff.mp read_eq_ok read
  exact ⟨_, Iff.mpr move_eq_ok ⟨content, place, goal, located', file, located, empty, rfl⟩⟩

theorem canWrite_of_move (h : tree.move source target = .ok after) : tree.CanWrite target := by
  obtain ⟨-, -, goal, -, -, located, empty, -⟩ := Iff.mp move_eq_ok h
  exact ⟨goal, located, empty⟩

/-! ### Making folders -/

theorem keepsFolders_put (none : tree.node? place = none) :
    tree.KeepsFolders (tree.put place .folder) := by
  intro other folder
  have apart : other ≠ place := by
    rintro rfl
    exact absurd (folder.symm.trans none) (by simp)
  rwa [node?_put_of_ne apart]

/-- A folder is made where nothing stands, or it is there. -/
theorem ensureFolder_cases (h : tree.ensureFolder path = .ok after) :
    (∃ place, tree.locate path = .ok place ∧ tree.node? place = none ∧ after = tree.put place .folder) ∨
      tree.isFolder path = true ∧ after = tree := by
  unfold ensureFolder at h
  split at h
  · next made hmade =>
    obtain rfl := Except.ok.inj h
    unfold makeFolder at hmade
    cases located : tree.locate path with
    | error cause => simp [located, bind, Except.bind] at hmade
    | ok place =>
      cases hnode : tree.node? place with
      | some node => simp [located, bind, Except.bind, hnode] at hmade
      | none =>
        obtain rfl : tree.put place .folder = made := by
          simpa [located, bind, Except.bind, pure, Except.pure, hnode] using hmade
        exact .inl ⟨place, rfl, hnode, rfl⟩
  · exact absurd h (by simp)
  · split at h
    · next folder => exact .inr ⟨folder, (Except.ok.inj h).symm⟩
    · exact absurd h (by simp)

/-- Where nothing stands is not the root. -/
theorem ne_root_of_empty (none : tree.node? place = none) : place ≠ [] := by
  rintro rfl
  exact absurd (node?_root.symm.trans none) (by simp)

theorem isFolder_of_ensureFolder (h : tree.ensureFolder path = .ok after) :
    after.isFolder path = true := by
  rcases ensureFolder_cases h with ⟨place, located, none, rfl⟩ | ⟨folder, rfl⟩
  · exact isFolder_iff.mpr
      ⟨place, (keepsFolders_put none).locate located, node?_put_self (ne_root_of_empty none)⟩
  · exact folder

theorem ensureFolder_of_isFolder (h : tree.isFolder path = true) :
    tree.ensureFolder path = .ok tree := by
  obtain ⟨place, located, folder⟩ := Iff.mp isFolder_iff h
  have there : tree.makeFolder path = .error (.alreadyExists path) := by
    simp [makeFolder, located, folder, bind, Except.bind]
  rw [ensureFolder, there]
  dsimp only
  rw [if_pos h]

/-- A folder that was made is there. -/
theorem isFolder_of_makeFolders {path : Path} (h : tree.makeFolders path = .ok after) :
    after.isFolder path.text = true := by
  have along {root : String} {names : List String} {after : FileTree}
      (h : tree.makeAlong root names = .ok after) :
      after.isFolder (Path.text ⟨root, names.reverse⟩) = true := by
    cases names with
    | nil => exact isFolder_of_ensureFolder h
    | cons name above =>
      rw [makeAlong] at h
      split at h
      · cases hparent : tree.makeAlong root above with
        | error cause => simp [hparent, bind, Except.bind] at h
        | ok parent =>
          rw [hparent] at h
          exact isFolder_of_ensureFolder h
      · exact isFolder_of_ensureFolder h
  have made := along h
  rwa [List.reverse_reverse] at made

/-- A folder that is there is not made again. -/
theorem makeFolders_of_isFolder {path : Path} (h : tree.isFolder path.text = true) :
    tree.makeFolders path = .ok tree := by
  have along {root : String} {names : List String}
      (h : tree.isFolder (Path.text ⟨root, names.reverse⟩) = true) :
      tree.makeAlong root names = .ok tree := by
    cases names with
    | nil => exact ensureFolder_of_isFolder h
    | cons name above =>
      rw [makeAlong, ensureFolder_of_isFolder h]
  exact along (by rwa [List.reverse_reverse])

/-- Two trees with the same files. -/
def SameFiles (tree after : FileTree) : Prop :=
  ∀ place content, after.node? place = some (.file content) ↔ tree.node? place = some (.file content)

protected theorem SameFiles.refl (tree : FileTree) : tree.SameFiles tree := fun _ _ => Iff.rfl

protected theorem SameFiles.trans {last : FileTree} (h : tree.SameFiles after)
    (h' : after.SameFiles last) : tree.SameFiles last := fun place content =>
  (h' place content).trans (h place content)

theorem sameFiles_put (none : tree.node? place = none) : tree.SameFiles (tree.put place .folder) := by
  intro other content
  by_cases here : other = place
  · rw [here, node?_put_self (ne_root_of_empty none), none]
    simp
  · rw [node?_put_of_ne here]

theorem sameFiles_of_ensureFolder (h : tree.ensureFolder path = .ok after) : tree.SameFiles after := by
  rcases ensureFolder_cases h with ⟨place, -, none, rfl⟩ | ⟨-, rfl⟩
  · exact sameFiles_put none
  · exact .refl after

/-- Making folders leaves the files alone. -/
theorem sameFiles_of_makeFolders {path : Path} (h : tree.makeFolders path = .ok after) :
    tree.SameFiles after := by
  have along {root : String} (names : List String) {after : FileTree}
      (h : tree.makeAlong root names = .ok after) : tree.SameFiles after := by
    induction names generalizing after with
    | nil => exact sameFiles_of_ensureFolder h
    | cons name above ih =>
      rw [makeAlong] at h
      split at h
      · cases hparent : tree.makeAlong root above with
        | error cause => simp [hparent, bind, Except.bind] at h
        | ok parent =>
          rw [hparent] at h
          exact (ih hparent).trans (sameFiles_of_ensureFolder h)
      · exact sameFiles_of_ensureFolder h
  exact along _ h

end Montage.FileTree
