import Montage.Files.Tree

/-!
# Removing files

A path leads nowhere once what is there was removed: without the file, the folders on the way to it
are still there.

## Main definitions

* `FileTree.removeEach` — several files are removed

## Main results

* `FileTree.pathExists_remove` — what is removed is gone
-/

namespace Montage

namespace FileTree

variable {tree after : FileTree} {place other gone : Place} {path : String}

theorem lookup_erase_self (nodes : List (Place × FileNode)) (place : Place) :
    (nodes.filter (·.1 ≠ place)).lookup place = none := by
  rw [List.lookup_eq_none_iff]
  intro entry h
  have differ : entry.1 ≠ place := of_decide_eq_true (List.mem_filter.mp h).2
  exact bne_iff_ne.mpr differ.symm

theorem lookup_erase_of_ne (nodes : List (Place × FileNode)) (differ : other ≠ place) :
    (nodes.filter (·.1 ≠ place)).lookup other = nodes.lookup other := by
  induction nodes with
  | nil => rfl
  | cons entry rest ih =>
    by_cases here : entry.1 = place
    · have passed : (other == entry.1) = false := by simp [here, differ]
      rw [List.filter_cons_of_neg (by simp [here]), ih, List.lookup_cons, passed]
    · rw [List.filter_cons_of_pos (by simp [here]), List.lookup_cons, List.lookup_cons, ih]

theorem node?_erase_of_ne (differ : other ≠ place) :
    (tree.erase place).node? other = tree.node? other := by
  unfold node? erase
  rw [lookup_erase_of_ne tree.nodes differ]

theorem node?_erase_self (below : place ≠ []) : (tree.erase place).node? place = none := by
  unfold node? erase
  rw [if_neg (by simpa using below), lookup_erase_self]

/-- The way to a file leads through folders only, so it is the same when the file is gone. -/
theorem walk_erase {content : List UInt8} (file : tree.node? gone = some (.file content))
    {names : List String} {place found : Place} (h : tree.walk path place names = .ok found) :
    (tree.erase gone).walk path place names = .ok found := by
  induction names generalizing place with
  | nil => exact h
  | cons name rest ih =>
    rw [walk] at h ⊢
    cases hnode : tree.node? place with
    | none =>
      rw [hnode] at h
      exact absurd h (by simp)
    | some node =>
      cases node with
      | file _ =>
        rw [hnode] at h
        exact absurd h (by simp)
      | folder =>
        have differ : place ≠ gone := by
          rintro rfl
          exact absurd (hnode.symm.trans file) (by simp)
        rw [node?_erase_of_ne differ]
        rw [hnode] at h ⊢
        dsimp only at h ⊢
        split
        · next long =>
          rw [if_pos long] at h
          exact absurd h (by simp)
        · next short =>
          rw [if_neg short] at h
          split
          · next none => exact ih (by rwa [if_pos none] at h)
          · next step =>
            rw [if_neg step] at h
            split
            · next up => exact ih (by rwa [if_pos up] at h)
            · next down => exact ih (by rwa [if_neg down] at h)

theorem locate_erase {content : List UInt8} (file : tree.node? gone = some (.file content))
    (h : tree.locate path = .ok gone) : (tree.erase gone).locate path = .ok gone := by
  unfold locate at h ⊢
  split
  · next long =>
    rw [if_pos long] at h
    exact absurd h (by simp)
  · next short =>
    rw [if_neg short] at h
    split
    · next outside =>
      rw [if_pos outside] at h
      exact absurd h (by simp)
    · next inside =>
      rw [if_neg inside] at h
      exact walk_erase file h

/-- The tree without the files at some paths. -/
def removeEach (paths : List String) (tree : FileTree) : Except FileError FileTree :=
  paths.foldlM (fun tree path => tree.remove (Path.ofText path).text) tree

theorem removeEach_append (paths others : List String) (tree : FileTree) :
    removeEach (paths ++ others) tree = (removeEach paths tree).bind (removeEach others) :=
  List.foldlM_append

/-- What is removed is gone. -/
theorem pathExists_remove (h : tree.remove path = .ok after) : after.pathExists path = false := by
  unfold remove at h
  split at h
  · next missing =>
    obtain rfl := Except.ok.inj h
    unfold pathExists find
    rw [missing]
    rfl
  · exact absurd h (by simp)
  · next place located =>
    unfold pathExists find
    split at h
    · next none =>
      obtain rfl := Except.ok.inj h
      rw [located]
      simp [none, bind, Except.bind, Except.toBool]
    · next content file =>
      obtain rfl := Except.ok.inj h
      have below : place ≠ [] := by
        rintro rfl
        exact absurd file (by simp [node?])
      rw [locate_erase file located]
      simp [node?_erase_self below, bind, Except.bind, Except.toBool]
    · exact absurd h (by simp)

/-- A file that is still there was there before, and it is not the one that was removed. -/
theorem file_of_remove {content : List UInt8} (h : tree.remove path = .ok after)
    (there : after.node? place = some (.file content)) :
    tree.node? place = some (.file content) ∧ tree.locate path ≠ .ok place := by
  unfold remove at h
  split at h
  · next missing =>
    obtain rfl := Except.ok.inj h
    exact ⟨there, by rw [missing]; simp⟩
  · exact absurd h (by simp)
  · next gone located =>
    split at h
    · next none =>
      obtain rfl := Except.ok.inj h
      refine ⟨there, fun here => ?_⟩
      obtain rfl := Except.ok.inj (located.symm.trans here)
      exact absurd (none.symm.trans there) (by simp)
    · next file =>
      obtain rfl := Except.ok.inj h
      have below : gone ≠ [] := by
        rintro rfl
        exact absurd file (by simp [node?])
      have differ : place ≠ gone := by
        rintro rfl
        exact absurd ((node?_erase_self below).symm.trans there) (by simp)
      refine ⟨(node?_erase_of_ne differ).symm.trans there, fun here => ?_⟩
      exact differ (Except.ok.inj (located.symm.trans here)).symm
    · exact absurd h (by simp)

end FileTree

end Montage
