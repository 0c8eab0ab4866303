import Mathlib.Algebra.Order.Floor.Semiring
import Mathlib.Algebra.Order.Group.MinMax
import Mathlib.Data.List.Range
import Mathlib.Data.Rat.Floor
import Montage.Chunk.Basic
import Montage.Chunk.Partition
import Montage.Proofs.Number.Exact
import Montage.Proofs.Number.Order

/-!
# The windows of a partition

A window that is not empty has one place: it stands there in every partition of windows of the
same length, however long the timeline is. Rounding can leave the last window of a partition
empty, but only beyond some million windows. Every timeline is cut whose number of windows is a
double.

In exact numbers the windows stand one behind the other. Only the last of them may be shorter than
the others, none is empty, and none reaches beyond the end of the timeline. What they leave over of it
stands at its end, and is so little that no window is made of it.

## Main definitions

* `CutsUp` — windows of one length that cut a timeline up

## Main results

* `windowAt_place_eq`, `exists_partition` — windows and partitions of doubles
* `partition_cutsUp` — in exact numbers, a timeline is cut up into windows of any length above zero
-/

namespace Montage

open Double

section Places

variable {duration chunkDuration : Double} {i : Nat}

/-- The end of a window is not behind the start of the next one. -/
theorem minOf_not_above {x y : Double} {stop : Int}
    (hstop : (Scalar.minOf x y).position? = some stop) :
    ∃ a, x.position? = some a ∧ stop ≤ a := by
  unfold Scalar.minOf at hstop
  split at hstop
  · next cut =>
    obtain ⟨b, a, hb, ha, hba⟩ := lt_iff.mp cut
    exact ⟨a, ha, (Option.some.inj (hb.symm.trans hstop)) ▸ hba.le⟩
  · exact ⟨stop, hstop, Int.le_refl _⟩

/-- A window that is not empty has a finite length above zero, starts on the grid of its
multiples, and ends on the grid or before the next of them. -/
theorem windowAt_grid (length : ¬ chunkDuration ≤ Scalar.zero)
    (nonempty : (windowAt duration chunkDuration i).start <
      (windowAt duration chunkDuration i).stop) :
    ∃ (grid : Nat → Nat) (stop : Int), Monotone grid ∧
      (∀ j, (Scalar.whole j * chunkDuration).position? = some (grid j : Int)) ∧
      (windowAt duration chunkDuration i).stop.position? = some stop ∧
      (grid i : Int) < stop ∧ stop ≤ grid (i + 1) := by
  obtain ⟨start, stop, hstart, hstop, before⟩ := lt_iff.mp nonempty
  obtain ⟨next, hnext, le⟩ := minOf_not_above hstop
  change (mul (Scalar.whole i) chunkDuration).position? = some start at hstart
  change (mul (Scalar.whole (i + 1)) chunkDuration).position? = some next at hnext
  rcases eq_of_not_le_zero length with rfl | rfl | ⟨units, fits, positive, rfl⟩
  · rw [mul_nan] at hstart
    exact absurd hstart (by simp [position?])
  · rw [whole_eq_nearest] at hstart hnext
    have := mul_infinite_place hstart
    have := mul_infinite_place hnext
    omega
  · refine ⟨multiplePlace units, stop, fun _ _ => multiplePlace_mono,
      fun j => position?_whole_mul fits positive, hstop, ?_, ?_⟩
    · rw [Option.some.inj (hstart.symm.trans (position?_whole_mul fits positive))] at before
      exact before
    · rw [Option.some.inj (hnext.symm.trans (position?_whole_mul fits positive))] at le
      exact le

/-- A window that is not empty stands at one place in all partitions of one length. -/
theorem windowAt_place_eq {other : Double} {j : Nat} (length : ¬ chunkDuration ≤ Scalar.zero)
    (nonempty : (windowAt duration chunkDuration i).start <
      (windowAt duration chunkDuration i).stop)
    (sameStart : ((windowAt duration chunkDuration i).start ==
      (windowAt other chunkDuration j).start) = true)
    (sameStop : ((windowAt duration chunkDuration i).stop ==
      (windowAt other chunkDuration j).stop) = true) : i = j := by
  obtain ⟨grid, stop, mono, places, hstop, above, next⟩ := windowAt_grid length nonempty
  obtain ⟨start, hi, hj⟩ := beq_iff.mp sameStart
  obtain ⟨stop', hstop', hj'⟩ := beq_iff.mp sameStop
  have starts : grid i = grid j := by
    have fromI := Option.some.inj (hi.symm.trans (places i))
    have fromJ := Option.some.inj (hj.symm.trans (places j))
    omega
  obtain ⟨next', hnext', le'⟩ := minOf_not_above hj'
  have := Option.some.inj (hstop'.symm.trans hstop)
  have := Option.some.inj (hnext'.symm.trans (places (j + 1)))
  rcases Nat.lt_trichotomy i j with before | same | behind
  · have : grid (i + 1) ≤ grid j := mono before
    omega
  · exact same
  · have : grid (j + 1) ≤ grid i := mono behind
    omega

/-- Two windows of a partition that meet are one. -/
theorem windowAt_eq_of_meet {j : Nat} (length : ¬ chunkDuration ≤ Scalar.zero)
    (meets : (windowAt duration chunkDuration i).start < (windowAt duration chunkDuration j).stop)
    (meets' : (windowAt duration chunkDuration j).start < (windowAt duration chunkDuration i).stop) :
    i = j := by
  have of_nonempty {i j : Nat}
      (meets : (windowAt duration chunkDuration i).start < (windowAt duration chunkDuration j).stop)
      (meets' : (windowAt duration chunkDuration j).start < (windowAt duration chunkDuration i).stop)
      (nonempty : (windowAt duration chunkDuration i).start <
        (windowAt duration chunkDuration i).stop) : i = j := by
    obtain ⟨grid, stop, mono, places, hstop, -, next⟩ := windowAt_grid length nonempty
    obtain ⟨start, stop', hstart, hstop', before⟩ := lt_iff.mp meets
    obtain ⟨start', _, hstart', hstop'', before'⟩ := lt_iff.mp meets'
    obtain rfl := Option.some.inj (hstop.symm.trans hstop'')
    obtain ⟨next', hnext', le'⟩ := minOf_not_above hstop'
    have := Option.some.inj (hstart.symm.trans (places i))
    have := Option.some.inj (hstart'.symm.trans (places j))
    have := Option.some.inj (hnext'.symm.trans (places (j + 1)))
    rcases Nat.lt_trichotomy i j with front | same | behind
    · have : grid (i + 1) ≤ grid j := mono front
      omega
    · exact same
    · have : grid (j + 1) ≤ grid i := mono behind
      omega
  by_cases nonempty : (windowAt duration chunkDuration i).start <
      (windowAt duration chunkDuration i).stop
  · exact of_nonempty meets meets' nonempty
  · by_cases nonempty' : (windowAt duration chunkDuration j).start <
        (windowAt duration chunkDuration j).stop
    · exact (of_nonempty meets' meets nonempty').symm
    · -- Each would end after the other starts, but before it starts itself.
      obtain ⟨start, stop', hstart, hstop', before⟩ := lt_iff.mp meets
      obtain ⟨start', stop, hstart', hstop, before'⟩ := lt_iff.mp meets'
      have empty : stop ≤ start := not_lt.mp fun less =>
        nonempty (lt_iff.mpr ⟨start, stop, hstart, hstop, less⟩)
      have empty' : stop' ≤ start' := not_lt.mp fun less =>
        nonempty' (lt_iff.mpr ⟨start', stop', hstart', hstop', less⟩)
      omega

/-- A window that ends where another one at its place ends is that window. -/
theorem windowAt_eq_of_stop {other : Double} (above : ¬ duration ≤ Scalar.zero)
    (same : ((windowAt duration chunkDuration i).stop == (windowAt other chunkDuration i).stop) = true) :
    windowAt duration chunkDuration i = windowAt other chunkDuration i := by
  unfold windowAt Scalar.minOf at same ⊢
  dsimp only at same ⊢
  -- Each of the two ends with its timeline or on the grid.
  split_ifs at same ⊢ with cut _ cut'
  · rw [eq_of_beq_of_not_le_zero above same]
  · exact absurd (beq_symm same) (not_beq_of_lt cut)
  · exact absurd same (not_beq_of_lt cut')
  · rfl

end Places

/-- What stands at a place of a partition is the window at that place. -/
theorem partition_getElem? [Scalar τ] {duration chunkDuration : τ} {windows : List (Window τ)} {i : Nat}
    {window : Window τ} (cut : partition duration chunkDuration = .ok windows)
    (there : windows[i]? = some window) :
    ¬ duration ≤ Scalar.zero ∧ window = windowAt duration chunkDuration i := by
  unfold partition at cut
  split at cut
  · obtain rfl := Except.ok.inj cut
    exact absurd there (by simp)
  · next above =>
    cases counted : windowCount duration chunkDuration with
    | error cause =>
      rw [counted] at cut
      cases cut
    | ok count =>
      rw [counted] at cut
      obtain rfl := Except.ok.inj cut
      rw [List.getElem?_map, Option.map_eq_some_iff] at there
      obtain ⟨j, hj, rfl⟩ := there
      obtain ⟨-, rfl⟩ := List.getElem?_eq_some_iff.mp hj
      exact ⟨above, by rw [List.getElem_range]⟩

/-- A timeline is cut as far as it is above zero. -/
theorem partition_maxOf_zero {duration chunkDuration : Double} {windows : List (Window Double)}
    (cut : partition duration chunkDuration = .ok windows) :
    partition (Scalar.maxOf Scalar.zero duration) chunkDuration = .ok windows := by
  unfold Scalar.maxOf
  split
  · exact cut
  · next notAbove =>
    have empty : partition (Scalar.zero : Double) chunkDuration = .ok [] := if_pos zero_le_zero
    unfold partition at cut
    split at cut
    · rw [empty, ← cut]
    · next above =>
      obtain rfl := eq_nan_of_not_le_zero above notAbove
      unfold windowCount at cut
      split at cut <;> cases cut

/-! ### Counting windows -/

namespace Double

variable {units : Nat}

/-- The difference of two finite doubles that are not negative is finite. -/
theorem isFinite_sub {count : Nat} (fits : Fits count) (fits' : Fits units) :
    (finite false count fits - finite false units fits').isFinite = true := by
  change (if signed false count + signed true units = 0 then signedZero (false && true)
    else nearest (signed false count + signed true units < 0)
      (signed false count + signed true units).natAbs 1).isFinite = true
  split
  · rfl
  · -- The difference is no farther from zero than one of the two.
    have bounded : roundBits (signed false count + signed true units).natAbs 1 < limit := by
      simp only [signed, Bool.false_eq_true, if_true, if_false]
      rcases Nat.le_total units count with above | below
      · have within := roundBits_mono Nat.one_pos (show (count + -units : Int).natAbs ≤ count by omega)
        rw [roundBits_self fits.bits] at within
        exact Nat.lt_of_le_of_lt within fits.bounded
      · have within := roundBits_mono Nat.one_pos (show (count + -units : Int).natAbs ≤ units by omega)
        rw [roundBits_self fits'.bits] at within
        exact Nat.lt_of_le_of_lt within fits'.bounded
    rw [nearest, dif_pos bounded]
    rfl

/-- The quotient of two numbers above zero is not below zero. -/
theorem exists_eq_div {x y : Double} (hx : ¬ x ≤ Scalar.zero) (hy : ¬ y ≤ Scalar.zero)
    (h : (x / y).isFinite = true) : ∃ units fits, x / y = finite false units fits := by
  have nonnegative : (x / y).isNegative = false := by
    rcases eq_of_not_le_zero hx with rfl | rfl | ⟨m, fits, positive, rfl⟩ <;>
      rcases eq_of_not_le_zero hy with rfl | rfl | ⟨n, fits', positive', rfl⟩
    all_goals first | rfl | skip
    change (if n = 0 then (if m = 0 then nan else infinite (false != false))
      else nearest (false != false) (m * one) n).isNegative = false
    rw [if_neg (Nat.ne_of_gt positive'), nearest]
    split <;> rfl
  generalize x / y = q at h nonnegative
  cases q with
  | nan => exact absurd h Bool.false_ne_true
  | infinite _ => exact absurd h Bool.false_ne_true
  | finite negative units fits =>
    obtain rfl : negative = false := nonnegative
    exact ⟨units, fits, rfl⟩

end Double

/-- What may be left over is a number above zero. -/
theorem exists_eq_leftover : ∃ units fits, (leftover : Double) = finite false units fits := by
  have known : (leftover : Double).isFinite = true ∧ (leftover : Double).isNegative = false := by
    decide +kernel
  generalize (leftover : Double) = x at known
  cases x with
  | nan => exact absurd known.1 Bool.false_ne_true
  | infinite _ => exact absurd known.1 Bool.false_ne_true
  | finite negative units fits =>
    obtain rfl : negative = false := known.2
    exact ⟨units, fits, rfl⟩

/-- A timeline is cut unless the number of its windows is beyond the doubles. -/
theorem exists_partition {duration chunkDuration : Double}
    (length : Scalar.zero < chunkDuration)
    (countable : duration ≤ Scalar.zero ∨ (duration / chunkDuration).isFinite = true) :
    ∃ windows, partition duration chunkDuration = .ok windows := by
  unfold partition
  split
  · exact ⟨[], rfl⟩
  · next above =>
    obtain ⟨units, fits, quotient⟩ := exists_eq_div above (not_le_of_lt length) (countable.resolve_left above)
    obtain ⟨units', fits', little⟩ := exists_eq_leftover
    have counted : ∃ count, windowCount duration chunkDuration = .ok count := by
      rw [windowCount, if_neg (not_beq_of_lt length), quotient, little]
      have whole := isFinite_sub fits fits'
      generalize finite false units fits - finite false units' fits' = x at whole
      cases x with
      | nan => exact absurd whole Bool.false_ne_true
      | infinite _ => exact absurd whole Bool.false_ne_true
      | finite negative units fits => exact ⟨_, rfl⟩
    obtain ⟨count, counted⟩ := counted
    rw [counted]
    exact ⟨_, rfl⟩

/-! ### Partitions in exact numbers -/

section Exact

variable {duration chunkDuration : Rat} {i n : Nat}

/-- The number of windows of a timeline above zero. -/
def exactCount (duration chunkDuration : Rat) : Nat :=
  (duration / chunkDuration - leftover).ceil.toNat

theorem leftover_rat : (leftover : Rat) = 1 / 1000000000 := by
  change mkRat 1 (Nat.pow 10 9) = _
  rw [Rat.mkRat_eq_div]
  norm_num

/-- The windows of a partition without rounding. -/
theorem partition_rat (positive : 0 < duration) (length : 0 < chunkDuration) :
    partition duration chunkDuration = .ok
      ((List.range (exactCount duration chunkDuration)).map (windowAt duration chunkDuration)) := by
  have above : ¬ duration ≤ Scalar.zero := by
    rw [Scalar.zero_rat]
    exact not_le.mpr positive
  have divides : ¬ (chunkDuration == Scalar.zero) = true := by
    rw [Scalar.zero_rat, beq_iff_eq]
    exact length.ne'
  unfold partition windowCount
  rw [if_neg above, if_neg divides]
  rfl

theorem windowAt_rat : windowAt duration chunkDuration i =
    ⟨i * chunkDuration, min ((i + 1) * chunkDuration) duration⟩ := by
  simp [windowAt]

/-- A window is as long as all are, or as what is left of the timeline. -/
theorem windowAt_duration_rat : (windowAt duration chunkDuration i).duration =
    min chunkDuration (duration - i * chunkDuration) := by
  rw [windowAt_rat, Window.duration, ← min_sub_sub_right, add_mul, one_mul, add_sub_cancel_left]

/-- A window is counted if the grid comes before the end by more than may be left over. -/
theorem lt_exactCount_iff (length : 0 < chunkDuration) :
    i < exactCount duration chunkDuration ↔
      i * chunkDuration + leftover * chunkDuration < duration := by
  unfold exactCount
  rw [Int.lt_toNat, Rat.lt_ceil_iff, Int.cast_natCast, lt_sub_iff_add_lt, lt_div_iff₀ length,
    add_mul]

/-- The start of a window that is counted comes before the end of the timeline. -/
theorem start_before_of_lt (length : 0 < chunkDuration)
    (counted : i < exactCount duration chunkDuration) : i * chunkDuration < duration := by
  have room := (lt_exactCount_iff length).mp counted
  have little : 0 < leftover * chunkDuration := by
    rw [leftover_rat]
    positivity
  exact (lt_add_of_pos_right _ little).trans room

/-- In front of another window there is a whole one. -/
theorem windowAt_of_lt (length : 0 < chunkDuration)
    (counted : i + 1 < exactCount duration chunkDuration) :
    windowAt duration chunkDuration i = ⟨i * chunkDuration, (i + 1) * chunkDuration⟩ := by
  have next := start_before_of_lt length counted
  rw [Nat.cast_add_one] at next
  rw [windowAt_rat, min_eq_left next.le]

/-- Windows of one length cut a timeline up, but for a billionth of that length at most. -/
structure CutsUp (duration chunkDuration : Rat) (windows : List (Window Rat)) : Prop where
  first : ∀ window ∈ windows.head?, window.start = 0
  adjacent : windows.IsChain fun window next => next.start = window.stop
  positive : ∀ window ∈ windows, 0 < window.duration
  whole : ∀ window ∈ windows.dropLast, window.duration = chunkDuration
  last : ∀ window ∈ windows.getLast?, window.duration ≤ chunkDuration
  inside : ∀ window ∈ windows, window.stop ≤ duration
  /-- The times that the windows leave uncovered are those from `reach` on. -/
  covered : ∃ reach ≤ duration, duration - reach ≤ 1 / 1000000000 * chunkDuration ∧
    ∀ t, 0 ≤ t → t < duration →
      ((∃ window ∈ windows, window.start ≤ t ∧ t < window.stop) ↔ t < reach)

/-- The windows of the grid cover the timeline as far as they reach. -/
theorem exists_windowAt_iff (length : 0 < chunkDuration) {t : Rat} (started : 0 ≤ t)
    (within : t < duration) :
    (∃ i < n, (windowAt duration chunkDuration i).start ≤ t ∧
      t < (windowAt duration chunkDuration i).stop) ↔ t < min (n * chunkDuration) duration := by
  simp only [windowAt_rat, lt_min_iff, within, and_true]
  constructor
  · rintro ⟨i, counted, -, before⟩
    have next : (i + 1 : Rat) ≤ n := by exact_mod_cast counted
    exact before.trans_le (mul_le_mul_of_nonneg_right next length.le)
  · intro before
    -- The window around a time is the one that its quotient tells.
    have quotient : 0 ≤ t / chunkDuration := div_nonneg started length.le
    refine ⟨⌊t / chunkDuration⌋₊, ?_, ?_, ?_⟩
    · rw [Nat.floor_lt quotient, div_lt_iff₀ length]
      exact before
    · rw [← le_div_iff₀ length]
      exact Nat.floor_le quotient
    · rw [← div_lt_iff₀ length]
      exact Nat.lt_floor_add_one _

/-- The windows that are counted reach to the end, but for what may be left over. -/
theorem le_reach (length : 0 < chunkDuration) :
    duration - min (exactCount duration chunkDuration * chunkDuration) duration ≤
      leftover * chunkDuration := by
  have full : ¬ exactCount duration chunkDuration * chunkDuration + leftover * chunkDuration <
      duration := by
    intro room
    exact Nat.lt_irrefl _ ((lt_exactCount_iff length).mpr room)
  have little : 0 ≤ leftover * chunkDuration := by
    rw [leftover_rat]
    positivity
  rw [sub_le_iff_le_add, ← min_add_add_left]
  exact le_min (by linarith) (by linarith)

/-- A timeline above zero is cut up into windows of any length above zero. -/
theorem partition_cutsUp (positive : 0 < duration) (length : 0 < chunkDuration) :
    ∃ windows, partition duration chunkDuration = .ok windows ∧
      CutsUp duration chunkDuration windows := by
  refine ⟨_, partition_rat positive length, ?_⟩
  constructor
  case first =>
    intro window first
    rw [List.head?_map, List.head?_range] at first
    split at first
    · cases first
    · obtain rfl := Option.some.inj first
      rw [windowAt_rat, Nat.cast_zero, zero_mul]
  case adjacent =>
    rw [List.isChain_map, List.isChain_range]
    intro i counted
    rw [windowAt_rat, windowAt_of_lt length (Nat.add_lt_of_lt_sub counted), Nat.cast_succ]
  case positive =>
    intro window inside
    obtain ⟨i, counted, rfl⟩ := List.mem_map.mp inside
    rw [windowAt_duration_rat]
    exact lt_min length (sub_pos.mpr (start_before_of_lt length (List.mem_range.mp counted)))
  case whole =>
    intro window inside
    generalize counted : exactCount duration chunkDuration = n at inside
    cases n with
    | zero => exact absurd inside List.not_mem_nil
    | succ n =>
      rw [List.range_succ, List.map_append, List.map_singleton, List.dropLast_concat] at inside
      obtain ⟨i, before, rfl⟩ := List.mem_map.mp inside
      have next : i + 1 < exactCount duration chunkDuration :=
        counted ▸ Nat.succ_lt_succ (List.mem_range.mp before)
      rw [windowAt_of_lt length next, Window.duration, add_mul, one_mul, add_sub_cancel_left]
  case last =>
    intro window last
    obtain ⟨i, -, rfl⟩ := List.mem_map.mp (List.mem_of_getLast? last)
    rw [windowAt_duration_rat]
    exact min_le_left _ _
  case inside =>
    intro window inside
    obtain ⟨i, -, rfl⟩ := List.mem_map.mp inside
    rw [windowAt_rat]
    exact min_le_right _ _
  case covered =>
    refine ⟨_, min_le_right _ _, leftover_rat ▸ le_reach length, ?_⟩
    intro t started within
    rw [← exists_windowAt_iff length started within]
    simp only [List.mem_map, List.mem_range, exists_exists_and_eq_and]

/-- A timeline that is a ten thousand millionth too long for two windows has two windows. -/
theorem little_rest_is_left_over : (0 : Rat) < 4 + 1 / 10000000000 ∧ (0 : Rat) < 2 ∧
    partition (4 + 1 / 10000000000 : Rat) 2 = .ok [⟨0, 2⟩, ⟨2, 4⟩] ∧
    CutsUp (4 + 1 / 10000000000) 2 [⟨0, 2⟩, ⟨2, 4⟩] := by
  have positive : (0 : Rat) < 4 + 1 / 10000000000 := by decide +kernel
  have length : (0 : Rat) < 2 := by decide +kernel
  have cut : partition (4 + 1 / 10000000000 : Rat) 2 = .ok [⟨0, 2⟩, ⟨2, 4⟩] := by decide +kernel
  obtain ⟨windows, cut', cutsUp⟩ := partition_cutsUp positive length
  obtain rfl := Except.ok.inj (cut.symm.trans cut')
  exact ⟨positive, length, cut, cutsUp⟩

end Exact

end Montage
