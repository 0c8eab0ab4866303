import Mathlib.Algebra.Order.Ring.Rat
import Montage.Proofs.Lists
import Montage.Proofs.Number.Order
import Montage.Timeline

/-!
# Overlaps of clips on a track

Of the clips of a track, ordered by their start, only neighbours are compared. That is enough: what
starts behind the end of a clip, but for the tolerance, has everything behind it that starts later. So
no two clips overlap, however many clips lie between them or within one of them, and it does not matter
that clips may be stored in any order.

## Main definitions

* `Clip.Clears` — a clip does not start before another one has ended, but for the tolerance
* `StartsCompare` — the starts of clips are in a linear order

## Main results

* `Timeline.hasOverlap_eq_false_iff` — clips in order overlap nowhere if neighbours do not
* `Timeline.hasOverlaps_eq_false_iff` — a timeline overlaps nowhere if no two clips of a track do
-/

namespace Montage

variable {τ : Type} [Scalar τ]

/-- A clip does not start before another one has ended; the tolerance is granted. -/
def Clip.Clears (later earlier : Clip τ) : Prop :=
  ¬ later.start < earlier.stop - Timeline.gapTolerance

/-- The starts of clips are in a linear order, in which a later start is at or behind whatever an
earlier one is at or behind. -/
structure StartsCompare (τ : Type) [Scalar τ] : Prop where
  asymm (a b : Clip τ) : ¬ b.start < a.start ∨ ¬ a.start < b.start
  behind {x : τ} {b c : Clip τ} : ¬ b.start < x → ¬ c.start < b.start → ¬ c.start < x

theorem startsCompare_rat : StartsCompare Rat where
  asymm a b := by
    rw [not_lt, not_lt]
    exact le_total a.start b.start
  behind h h' := not_lt.mpr ((not_lt.mp h).trans (not_lt.mp h'))

/-- A start is a number of units. -/
theorem Clip.start_isSome (clip : Clip Double) : clip.start.position?.isSome := by
  obtain ⟨_, place, -, there, -⟩ := Double.le_iff.mp clip.times_nonneg.1
  exact there ▸ rfl

theorem startsCompare_double : StartsCompare Double where
  asymm a b := by
    rw [← not_and_or]
    rintro ⟨less, greater⟩
    exact Double.not_le_of_lt less (Double.le_of_lt greater)
  behind {x b c} h h' less := by
    have order : b.start ≤ c.start := Double.le_of_not_lt c.start_isSome b.start_isSome h'
    exact h (Double.lt_of_le_of_lt order less)

namespace StartsCompare

variable (compare : StartsCompare τ)

include compare

theorem trans (a b c : Clip τ) (hab : (!decide (b.start < a.start)) = true)
    (hbc : (!decide (c.start < b.start)) = true) : (!decide (c.start < a.start)) = true := by
  simp only [Bool.not_eq_true', decide_eq_false_iff_not] at *
  exact compare.behind hab hbc

theorem total (a b : Clip τ) :
    (!decide (b.start < a.start) || !decide (a.start < b.start)) = true := by
  simpa using compare.asymm a b

end StartsCompare

namespace Timeline

/-- Clips in the order of their starts clear all earlier ones if each clears the one in front of it. -/
theorem hasOverlap_eq_false_iff (compare : StartsCompare τ) {clips : List (Clip τ)}
    (sorted : clips.Pairwise fun a b => ¬ b.start < a.start) :
    hasOverlap clips = false ↔ clips.Pairwise fun a b => b.Clears a := by
  induction clips with
  | nil => simp [hasOverlap]
  | cons a rest ih =>
    have later := List.pairwise_cons.mp sorted
    cases rest with
    | nil => simp [hasOverlap]
    | cons b rest =>
      rw [hasOverlap, Bool.or_eq_false_iff, decide_eq_false_iff_not, ih later.2,
        List.pairwise_cons (a := a)]
      have next := List.pairwise_cons.mp later.2
      constructor
      · rintro ⟨clears, others⟩
        refine ⟨fun c hc => ?_, others⟩
        rcases List.mem_cons.mp hc with rfl | hc
        · exact clears
        · -- What is behind the neighbour starts no earlier than it.
          exact compare.behind clears (next.1 c hc)
      · rintro ⟨clears, others⟩
        exact ⟨clears b List.mem_cons_self, others⟩

theorem pairwise_clipsByStart (compare : StartsCompare τ) (track : Track τ) :
    (clipsByStart track).Pairwise fun a b => ¬ b.start < a.start :=
  (List.pairwise_mergeSort compare.trans compare.total _).imp fun h => by simpa using h

/-- No clips of a track overlap if of any two that are enabled the later one clears the earlier one;
of clips with one start the one stored later is the later one. -/
theorem hasOverlap_clipsByStart_iff (compare : StartsCompare τ) (track : Track τ) :
    hasOverlap (clipsByStart track) = false ↔
      track.clips.Pairwise fun a b => a.enabled = true → b.enabled = true →
        if b.start < a.start then a.Clears b else b.Clears a := by
  rw [hasOverlap_eq_false_iff compare (pairwise_clipsByStart compare track), clipsByStart,
    pairwise_mergeSort_iff compare.trans compare.total, List.pairwise_filter]
  simp

theorem mem_layersFromBottom {timeline : Timeline τ} {track : Track τ} :
    track ∈ timeline.layersFromBottom ↔
      track ∈ timeline.tracks ∧ track.kind = .video ∧ track.visible = true := by
  rw [layersFromBottom, List.mem_reverse, layersFromTop, List.mem_filter, videoTracks, List.mem_filter,
    decide_eq_true_eq, and_assoc]

/-- A timeline overlaps nowhere exactly if on each visible video track, of any two enabled clips, the
later one does not start before the earlier one has ended, but for the tolerance. -/
theorem hasOverlaps_eq_false_iff (timeline : Timeline Double) :
    timeline.hasOverlaps = false ↔
      ∀ track ∈ timeline.tracks, track.kind = .video → track.visible = true →
        track.clips.Pairwise fun a b => a.enabled = true → b.enabled = true →
          if b.start < a.start then a.Clears b else b.Clears a := by
  unfold hasOverlaps
  rw [List.any_eq_false]
  simp only [Bool.not_eq_true, hasOverlap_clipsByStart_iff startsCompare_double,
    mem_layersFromBottom, and_imp]

end Timeline

end Montage
