import Mathlib.Algebra.Order.Floor.Semiring
import Mathlib.Data.Rat.Floor
import Montage.Complexity
import Montage.Proofs.Number.Exact

/-!
# Overlaps that are found by sampling

Whether clips lie over each other within a segment is looked for at eleven times, both ends of the
segment among them. What is found is an overlap within the segment, even at its end, where nothing of
it is shown any more: clips that start there do not count. And what lasts as long as the step from one
of the times to the next is found, wherever it lies between them.

## Main definitions

* `Timeline.shownClips` — the enabled clips of the visible video tracks
* `Timeline.Overlaps` — two of them are shown together throughout a stretch of time

## Main results

* `Timeline.exists_sampleTime` — a stretch as long as a step has a sample in it
* `Timeline.overlap_resolution` — what is reported is an overlap, and an overlap of a tenth of the
  segment is reported
-/

namespace Montage

section Pairs

variable {α : Type*} {items : List α} {test : α → Bool}

theorem exists_pair_sublist (h : 1 < items.length) : ∃ a b, [a, b].Sublist items := by
  match items with
  | [] => exact absurd h (by simp)
  | [_] => exact absurd h (by simp)
  | a :: b :: rest => exact ⟨a, b, ((List.nil_sublist rest).cons_cons b).cons_cons a⟩

theorem pair_sublist_filter {a b : α} : [a, b].Sublist (items.filter test) ↔
    [a, b].Sublist items ∧ test a = true ∧ test b = true := by
  constructor
  · intro pair
    have passes (c : α) (hc : c ∈ [a, b]) : test c = true := List.of_mem_filter (pair.subset hc)
    exact ⟨pair.trans List.filter_sublist, passes a (by simp), passes b (by simp)⟩
  · rintro ⟨pair, first, second⟩
    have both := pair.filter test
    rwa [List.filter_cons_of_pos first, List.filter_cons_of_pos second, List.filter_nil] at both

end Pairs

namespace Timeline

section Scalar

variable {τ : Type} [Scalar τ]

/-- The enabled clips of the visible video tracks, the topmost first. -/
def shownClips (timeline : Timeline τ) : List (Clip τ) :=
  timeline.layersFromTop.flatMap fun track => track.clips.filter (·.enabled)

/-- Two different enabled clips of visible video tracks are both shown throughout a stretch of time. -/
def Overlaps (timeline : Timeline τ) (start stop : τ) : Prop :=
  ∃ a b, [a, b].Sublist timeline.shownClips ∧
    ∀ t, start ≤ t → t < stop → a.coversTime t = true ∧ b.coversTime t = true

theorem videoClipsIn_eq_filter (timeline : Timeline τ) (start stop : τ) :
    timeline.videoClipsIn start stop =
      timeline.shownClips.filter fun clip => clip.start < stop && start < clip.stop := by
  unfold videoClipsIn shownClips
  rw [List.filter_flatMap]
  congr 1
  funext track
  rw [List.filter_filter]
  refine List.filter_congr fun clip _ => ?_
  rw [Bool.and_assoc]
  exact Bool.and_comm _ _

theorem crowdedAt_iff {clips : List (Clip τ)} {t : τ} : crowdedAt clips t = true ↔
    ∃ a b, [a, b].Sublist clips ∧ a.coversTime t = true ∧ b.coversTime t = true := by
  unfold crowdedAt
  rw [decide_eq_true_eq]
  constructor
  · intro many
    obtain ⟨a, b, pair⟩ := exists_pair_sublist many
    exact ⟨a, b, pair_sublist_filter.mp pair⟩
  · rintro ⟨a, b, pair⟩
    exact (pair_sublist_filter.mpr pair).length_le

/-- Overlaps are a reason if two of the clips that meet the segment are shown at a sample. -/
theorem multipleClips_mem_iff {timeline : Timeline τ} {start stop : τ} :
    .multipleClips ∈ (timeline.segment start stop).reasons ↔
      ∃ t ∈ sampleTimes start stop, crowdedAt (timeline.videoClipsIn start stop) t = true := by
  rw [← List.any_eq_true]
  unfold segment
  dsimp only
  cases none : (timeline.videoClipsIn start stop).isEmpty with
  | true =>
    rw [if_pos rfl, List.isEmpty_iff.mp none]
    simp [crowdedAt]
  | false => simp

end Scalar

/-! ### Samples -/

variable {start stop x y t : Rat}

theorem mem_sampleTimes : t ∈ sampleTimes start stop ↔
    ∃ i ≤ sampleSteps, t = start + (stop - start) * i / sampleSteps := by
  simp only [sampleTimes, List.mem_map, List.mem_range, Nat.lt_add_one_iff, Scalar.whole_rat, eq_comm]

theorem sampleTime_le (length : start < stop) (h : t ∈ sampleTimes start stop) :
    start ≤ t ∧ t ≤ stop := by
  obtain ⟨i, few, rfl⟩ := mem_sampleTimes.mp h
  have few : (i : Rat) ≤ sampleSteps := by exact_mod_cast few
  have steps : (0 : Rat) < sampleSteps := by norm_num [sampleSteps]
  have apart : 0 < stop - start := sub_pos.mpr length
  constructor
  · exact le_add_of_nonneg_right (by positivity)
  · have part : (stop - start) * i / sampleSteps ≤ stop - start := by
      rw [div_le_iff₀ steps]
      exact mul_le_mul_of_nonneg_left few apart.le
    linarith

/-- A stretch of the segment that is as long as the step between samples has one in it. -/
theorem exists_sampleTime (length : start < stop) (front : start ≤ x) (back : y ≤ stop)
    (long : (stop - start) / sampleSteps ≤ y - x) : ∃ t ∈ sampleTimes start stop, x ≤ t ∧ t < y := by
  have steps : (0 : Rat) < sampleSteps := by norm_num [sampleSteps]
  have apart : 0 < stop - start := sub_pos.mpr length
  -- The first sample that is not in front of the stretch.
  set place : Rat := (x - start) * sampleSteps / (stop - start) with hplace
  have nonneg : 0 ≤ place := div_nonneg (mul_nonneg (sub_nonneg.mpr front) steps.le) apart.le
  have reached : (stop - start) * place / sampleSteps = x - start := by
    rw [hplace]
    field_simp
  have above : place ≤ ⌈place⌉₊ := Nat.le_ceil place
  have below : (⌈place⌉₊ : Rat) < place + 1 := Nat.ceil_lt_add_one nonneg
  have few : ⌈place⌉₊ ≤ sampleSteps := by
    rw [Nat.ceil_le, hplace, div_le_iff₀ apart, mul_comm]
    exact mul_le_mul_of_nonneg_left (by linarith [div_pos apart steps]) steps.le
  refine ⟨_, mem_sampleTimes.mpr ⟨⌈place⌉₊, few, rfl⟩, ?_, ?_⟩
  · have := div_le_div_of_nonneg_right (mul_le_mul_of_nonneg_left above apart.le) steps.le
    linarith
  · have := div_lt_div_of_pos_right (mul_lt_mul_of_pos_left below apart) steps
    rw [mul_add, mul_one, add_div, reached] at this
    linarith

/-! ### Overlaps -/

theorem coversTime_iff {clip : Clip Rat} : clip.coversTime t = true ↔ clip.start ≤ t ∧ t < clip.stop := by
  rw [Clip.coversTime, Bool.and_eq_true, decide_eq_true_eq, decide_eq_true_eq]

/-- A clip that is shown at a sample, and starts before the segment ends, is shown from a time within
the segment on. -/
theorem exists_overlap {timeline : Timeline Rat} (length : start < stop)
    (h : t ∈ sampleTimes start stop) (crowded : crowdedAt (timeline.videoClipsIn start stop) t = true) :
    ∃ x y, start ≤ x ∧ x < y ∧ y ≤ stop ∧ timeline.Overlaps x y := by
  obtain ⟨front, back⟩ := sampleTime_le length h
  obtain ⟨a, b, pair, shown, shown'⟩ := crowdedAt_iff.mp crowded
  rw [videoClipsIn_eq_filter, pair_sublist_filter] at pair
  obtain ⟨pair, meets, meets'⟩ := pair
  simp only [Bool.and_eq_true, decide_eq_true_eq] at meets meets'
  obtain ⟨begun, running⟩ := coversTime_iff.mp shown
  obtain ⟨begun', running'⟩ := coversTime_iff.mp shown'
  have apart : max start (max a.start b.start) < min stop (min a.stop b.stop) := by
    simp only [max_lt_iff, lt_min_iff]
    exact ⟨⟨length, meets.1, meets'.1⟩, ⟨meets.2, begun.trans_lt running, begun'.trans_lt running⟩,
      meets'.2, begun.trans_lt running', begun'.trans_lt running'⟩
  refine ⟨_, _, le_max_left _ _, apart, min_le_left _ _, a, b, pair, fun s late early => ?_⟩
  simp only [max_le_iff, lt_min_iff] at late early
  exact ⟨coversTime_iff.mpr ⟨late.2.1, early.2.1⟩, coversTime_iff.mpr ⟨late.2.2, early.2.2⟩⟩

/-- What is reported is an overlap of two clips within the segment. An overlap within the segment that
lasts for a tenth of it is reported. -/
theorem overlap_resolution (timeline : Timeline Rat) (length : start < stop) :
    (.multipleClips ∈ (timeline.segment start stop).reasons →
      ∃ x y, start ≤ x ∧ x < y ∧ y ≤ stop ∧ timeline.Overlaps x y) ∧
    ((∃ x y, start ≤ x ∧ y ≤ stop ∧ (stop - start) / 10 ≤ y - x ∧ timeline.Overlaps x y) →
      .multipleClips ∈ (timeline.segment start stop).reasons) := by
  constructor
  · intro reported
    obtain ⟨t, sample, crowded⟩ := multipleClips_mem_iff.mp reported
    exact exists_overlap length sample crowded
  · rintro ⟨x, y, front, back, long, a, b, pair, shown⟩
    obtain ⟨t, sample, late, early⟩ := exists_sampleTime length front back long
    obtain ⟨here, here'⟩ := shown t late early
    refine multipleClips_mem_iff.mpr ⟨t, sample, crowdedAt_iff.mpr ⟨a, b, ?_, here, here'⟩⟩
    have meets {clip : Clip Rat} (covers : clip.coversTime t = true) (starts : clip.coversTime x = true) :
        (decide (clip.start < stop) && decide (start < clip.stop)) = true := by
      obtain ⟨-, running⟩ := coversTime_iff.mp covers
      obtain ⟨begun, -⟩ := coversTime_iff.mp starts
      rw [Bool.and_eq_true, decide_eq_true_eq, decide_eq_true_eq]
      constructor <;> linarith
    obtain ⟨first, first'⟩ := shown x le_rfl (late.trans_lt early)
    rw [videoClipsIn_eq_filter, pair_sublist_filter]
    exact ⟨pair, meets here first, meets here' first'⟩

end Timeline

/-! ### An overlap between samples -/

namespace ShortTitle

/-- A film of ten seconds. -/
def film : Clip Rat where
  id := "film"
  trackId := "pictures"
  start := 0
  duration := 10
  mediaIn := 0
  mediaOut := 10
  times_nonneg := by decide +kernel

/-- A title that is shown for a second of it. -/
def title : Clip Rat :=
  { film with id := "title", start := 13 / 4, duration := 1, times_nonneg := by decide +kernel }

def timeline : Timeline Rat where
  tracks := [
    { id := "titles", kind := .video, clips := [title], volume := 1 },
    { id := "pictures", kind := .video, clips := [film], volume := 1 }]

end ShortTitle

open ShortTitle in
/-- A title that lasts for a tenth of a film is found over it. -/
theorem short_title_is_found : (0 : Rat) < 10 ∧ timeline.Overlaps (13 / 4) (17 / 4) ∧
    .multipleClips ∈ (timeline.segment 0 10).reasons := by
  have length : (0 : Rat) < 10 := by norm_num
  have overlaps : timeline.Overlaps (13 / 4) (17 / 4) := by
    refine ⟨title, film, List.Sublist.refl _, fun t late early => ?_⟩
    have ends : title.stop = 17 / 4 ∧ film.stop = 10 := by norm_num [Clip.stop, title, film]
    rw [Timeline.coversTime_iff, Timeline.coversTime_iff, ends.1, ends.2]
    exact ⟨⟨late, early⟩, (by norm_num : (0 : Rat) ≤ 13 / 4).trans late, early.trans (by norm_num)⟩
  exact ⟨length, overlaps, (timeline.overlap_resolution length).2
    ⟨13 / 4, 17 / 4, by norm_num, by norm_num, by norm_num, overlaps⟩⟩

end Montage
