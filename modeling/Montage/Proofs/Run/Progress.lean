import Montage.Proofs.Action
import Montage.Proofs.Number.Range
import Montage.Run.Encoder

/-!
# Percentages that are told

Whatever a process writes, what is told of its progress is a percentage from 0 to 100.

## Main results

* `ProgressReader.update_percent` — an update is of a percentage
* `Reading.feed_percent` — so is everything that a run tells
-/

namespace Montage

/-- From 0 to 100. -/
def Double.IsPercentage (x : Double) : Prop := Scalar.zero ≤ x ∧ x ≤ 100

namespace Double

theorem roundBits_pos {n : Nat} (h : 0 < n) : 0 < roundBits n 1 :=
  calc 0 < roundBits 1 1 := by decide
    _ ≤ roundBits n 1 := roundBits_mono Nat.one_pos h

/-- The place of a positive number is positive. -/
theorem position?_nearest_pos {n : Nat} (h : 0 < n) :
    ∃ place, 0 < place ∧ (nearest false n 1).position? = some place :=
  ⟨_, Int.natCast_pos.mpr (Nat.lt_min.mpr ⟨roundBits_pos h, limit_pos⟩), position?_nearest false n 1⟩

theorem position?_hundred : ∃ place, 0 < place ∧ (100 : Double).position? = some place := by
  have hundred : (100 : Double) = ofRatio false 100 1 := by with_reducible_and_instances rfl
  rw [hundred, ofRatio_eq]
  exact position?_nearest_pos (Nat.mul_pos (by decide) one_pos)

theorem isPercentage_hundred : (100 : Double).IsPercentage := by
  obtain ⟨place, positive, there⟩ := position?_hundred
  exact ⟨le_iff.mpr ⟨0, place, position?_zero, there, Int.le_of_lt positive⟩,
    le_iff.mpr ⟨place, place, there, there, Int.le_refl _⟩⟩

theorem isPercentage_zero : (Scalar.zero : Double).IsPercentage :=
  ⟨zero_le_zero, isPercentage_hundred.1⟩

/-- A number cut off at both ends of the percentages. -/
theorem isPercentage_clamp (x : Double) :
    (Scalar.minOf 100 (Scalar.maxOf Scalar.zero x)).IsPercentage := by
  have above : Scalar.zero ≤ Scalar.maxOf Scalar.zero x := by
    unfold Scalar.maxOf
    split
    · next more => exact le_of_lt more
    · exact isPercentage_zero.1
  unfold Scalar.minOf
  split
  · next less => exact ⟨above, le_of_lt less⟩
  · exact isPercentage_hundred

/-- The greater of two numbers that are at most some bound is so, too. -/
theorem maxOf_le {x y bound : Double} (hx : x ≤ bound) (hy : y ≤ bound) : Scalar.maxOf x y ≤ bound := by
  unfold Scalar.maxOf
  split
  · exact hy
  · exact hx

/-- Nothing but 100 itself is both at most 100 and not below it. -/
theorem maxOf_hundred {x : Double} (h : x ≤ 100) : Scalar.maxOf x 100 = 100 := by
  unfold Scalar.maxOf
  split
  · rfl
  · next notBelow =>
    obtain ⟨place, positive, there⟩ := position?_hundred
    obtain ⟨a, b, ha, hb, atMost⟩ := le_iff.mp h
    obtain rfl := Option.some.inj (hb.symm.trans there)
    have atLeast : b ≤ a := Int.not_lt.mp fun below => notBelow (lt_iff.mpr ⟨a, b, ha, hb, below⟩)
    obtain rfl := Int.le_antisymm atMost atLeast
    exact eq_of_position? ha hb (Int.ne_of_gt positive)

end Double

namespace ProgressReader

theorem update_percent (reader : ProgressReader) (outTime : Double) (rate speed : Option Double)
    (frame : Option Int) (finished : Bool) :
    (reader.update outTime rate speed frame finished).percent.IsPercentage := by
  unfold update
  cases finished with
  | true => exact Double.isPercentage_hundred
  | false =>
    dsimp only
    rw [if_neg Bool.false_ne_true]
    cases reader.duration.filter fun d => Scalar.zero < d with
    | none => exact Double.isPercentage_zero
    | some duration => exact Double.isPercentage_clamp _

theorem blockUpdate_percent {reader : ProgressReader} {block : List (String × String)} {finished : Bool}
    {update : EncoderProgress} (h : reader.blockUpdate block finished = .ok update) :
    update.percent.IsPercentage := by
  unfold blockUpdate at h
  obtain ⟨time, -, h⟩ := exists_of_bind_eq_ok h
  obtain ⟨frame, -, h⟩ := exists_of_bind_eq_ok h
  cases h
  exact update_percent ..

theorem feedOutput_percent {reader next : ProgressReader} {line : String} {update : EncoderProgress}
    (h : reader.feedOutput line = (.ok (some update), next)) : update.percent.IsPercentage := by
  unfold feedOutput at h
  dsimp only at h
  split at h
  · cases h
  split at h
  · cases h
  split at h
  · next made =>
    cases h
    exact blockUpdate_percent made
  · cases h

theorem statusUpdate_percent {reader : ProgressReader} {cs : List Char} {update : EncoderProgress}
    (h : reader.statusUpdate cs = .ok (some update)) : update.percent.IsPercentage := by
  unfold statusUpdate at h
  split at h
  · cases h
  obtain ⟨time, -, h⟩ := exists_of_bind_eq_ok h
  split at h
  · cases h
  obtain ⟨rate, -, h⟩ := exists_of_bind_eq_ok h
  obtain ⟨speed, -, h⟩ := exists_of_bind_eq_ok h
  obtain ⟨frame, -, h⟩ := exists_of_bind_eq_ok h
  cases h
  exact update_percent ..

theorem feedMessage_percent {reader next : ProgressReader} {line : String} {update : EncoderProgress}
    (h : reader.feedMessage line = (.ok (some update), next)) : update.percent.IsPercentage := by
  unfold feedMessage at h
  split at h
  · next made =>
    cases h
    exact statusUpdate_percent made
  · next none =>
    exact absurd (Prod.mk.inj h).1 (none update)

end ProgressReader

theorem Reading.feed_percent {reading next : Reading} {stream : Stream} {line : String}
    {update : EncoderProgress} (h : reading.feed stream line = (.ok (some update), next)) :
    update.percent.IsPercentage := by
  unfold feed at h
  obtain ⟨answer, -⟩ := Prod.mk.inj h
  cases stream with
  | output => exact ProgressReader.feedOutput_percent (Prod.ext answer rfl)
  | messages => exact ProgressReader.feedMessage_percent (Prod.ext answer rfl)

end Montage
