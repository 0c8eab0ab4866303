import Montage.Window

/-!
The partition of a timeline into windows of one length.
-/

namespace Montage

variable {τ : Type} [Scalar τ]

/-- The part of a window's length that may be left over at the end of a timeline. -/
def leftover : τ := Scalar.ofDecimal 1 9

/-- The window at a place of the partition. -/
def windowAt (duration chunkDuration : τ) (index : Nat) : Window τ where
  start := Scalar.whole index * chunkDuration
  stop := Scalar.minOf (Scalar.whole (index + 1) * chunkDuration) duration

/-- The number of windows into which a length above zero is cut. -/
def windowCount (duration chunkDuration : τ) : Except NumberError Int :=
  if chunkDuration == Scalar.zero then .error .divisionByZero
  else Scalar.ceil (duration / chunkDuration - leftover)

/-- The windows of one length that a timeline is cut into; the last one may be shorter. -/
def partition (duration chunkDuration : τ) : Except NumberError (List (Window τ)) :=
  if duration ≤ Scalar.zero then .ok []
  else do
    let count ← windowCount duration chunkDuration
    return (List.range count.toNat).map (windowAt duration chunkDuration)

end Montage
