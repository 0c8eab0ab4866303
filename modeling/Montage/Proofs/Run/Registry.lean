import Mathlib.Data.List.Basic
import Montage.Run.Registry

/-!
# Keys in use and keys that are marked

What each operation of a registry does to the keys in use, to the marks and to the processes under
the keys.

## Main results

* `contains_setProcess`, `contains_release`, `contains_of_reserve?`, `contains_of_cancel?` — the
  keys in use after an operation
* `isMarked_forgetCancelled`, `isMarked_markCancelled`, `isMarked_of_reserve?` — the marks after an
  operation
-/

namespace Montage

namespace Registry

variable {π : Type} {registry after : Registry π} {key other : String} {process : π}

theorem contains_eq_true : registry.contains other = true ↔ other ∈ registry.keys := by
  unfold contains
  exact List.contains_iff_mem

theorem isMarked_eq_true : registry.isMarked other = true ↔ other ∈ registry.cancelled := by
  unfold isMarked
  exact List.contains_iff_mem

/-! ### Marks -/

@[simp]
theorem contains_forgetCancelled :
    (registry.forgetCancelled key).contains other = registry.contains other := rfl

@[simp]
theorem contains_markCancelled :
    (registry.markCancelled key).contains other = registry.contains other := rfl

@[simp]
theorem isMarked_forgetCancelled :
    (registry.forgetCancelled key).isMarked other =
      (registry.isMarked other && decide (other ≠ key)) := by
  rw [Bool.eq_iff_iff, Bool.and_eq_true, isMarked_eq_true, isMarked_eq_true]
  simp [forgetCancelled]

@[simp]
theorem isMarked_markCancelled :
    (registry.markCancelled key).isMarked other =
      (registry.isMarked other || decide (other = key)) := by
  rw [Bool.eq_iff_iff, Bool.or_eq_true, isMarked_eq_true, isMarked_eq_true, decide_eq_true_iff]
  unfold markCancelled
  by_cases marked : registry.isMarked key = true
  · rw [if_pos marked]
    constructor
    · exact .inl
    · rintro (before | rfl)
      · exact before
      · exact isMarked_eq_true.mp marked
  · rw [if_neg marked]
    simp

/-! ### Keys -/

@[simp]
theorem isMarked_release : (registry.release key).isMarked other = registry.isMarked other := rfl

@[simp]
theorem contains_release :
    (registry.release key).contains other = (registry.contains other && decide (other ≠ key)) := by
  rw [Bool.eq_iff_iff, Bool.and_eq_true, contains_eq_true, contains_eq_true, decide_eq_true_iff]
  simp only [keys, release, List.mem_map, List.mem_filter, decide_eq_true_eq]
  constructor
  · rintro ⟨entry, ⟨hentry, differs⟩, rfl⟩
    exact ⟨⟨entry, hentry, rfl⟩, differs⟩
  · rintro ⟨⟨entry, hentry, rfl⟩, differs⟩
    exact ⟨entry, ⟨hentry, differs⟩, rfl⟩

theorem mem_setProcess {entries : List (String × Option π)} :
    other ∈ (setProcess key process entries).map (·.1) ↔ other ∈ entries.map (·.1) ∨ other = key := by
  induction entries with
  | nil => simp [setProcess]
  | cons entry rest ih =>
    obtain ⟨name, value⟩ := entry
    unfold setProcess
    by_cases same : name = key
    · rw [if_pos same]
      subst same
      simp only [List.map_cons, List.mem_cons]
      tauto
    · rw [if_neg same]
      simp only [List.map_cons, List.mem_cons, ih]
      tauto

/-- A process is put under its key, which is in use then. -/
theorem contains_setProcess :
    ({ registry with entries := setProcess key process registry.entries } : Registry π).contains
      other = (registry.contains other || decide (other = key)) := by
  rw [Bool.eq_iff_iff, Bool.or_eq_true, contains_eq_true, contains_eq_true, decide_eq_true_iff]
  exact mem_setProcess

/-! ### Reserving and cancelling -/

theorem reserve?_eq_none : registry.reserve? key = none ↔ registry.contains key = true := by
  unfold reserve?
  split <;> simp_all

theorem contains_of_reserve? (h : registry.reserve? key = some after) :
    registry.contains key = false ∧
      ∀ other, after.contains other = (registry.contains other || decide (other = key)) := by
  unfold reserve? at h
  split at h
  · exact absurd h (by simp)
  · next free =>
    refine ⟨by simpa using free, fun other => ?_⟩
    rw [← Option.some.inj h, Bool.eq_iff_iff, Bool.or_eq_true, contains_eq_true, contains_eq_true,
      decide_eq_true_iff]
    simp [keys, forgetCancelled]

/-- A key that is reserved anew carries no mark. -/
theorem isMarked_of_reserve? (h : registry.reserve? key = some after) :
    after.isMarked other = (registry.isMarked other && decide (other ≠ key)) := by
  unfold reserve? at h
  split at h
  · exact absurd h (by simp)
  · rw [← Option.some.inj h]
    exact isMarked_forgetCancelled

theorem cancel?_eq_none : registry.cancel? key = none ↔ registry.contains key = false := by
  unfold cancel?
  split <;> simp_all

theorem contains_of_cancel? {found : Option π × Registry π}
    (h : registry.cancel? key = some found) : registry.contains key = true ∧
      ∀ other, found.2.contains other = (registry.contains other && decide (other ≠ key)) := by
  unfold cancel? at h
  split at h
  · next used =>
    refine ⟨used, fun other => ?_⟩
    rw [← Option.some.inj h]
    exact contains_release
  · exact absurd h (by simp)

theorem isMarked_of_cancel? {found : Option π × Registry π}
    (h : registry.cancel? key = some found) :
    found.2.isMarked other = (registry.isMarked other || decide (other = key)) := by
  unfold cancel? at h
  split at h
  · rw [← Option.some.inj h]
    exact isMarked_markCancelled
  · exact absurd h (by simp)

end Registry

end Montage
