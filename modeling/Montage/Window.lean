import Montage.Timeline

/-!
Render windows: half-open stretches of the timeline.
-/

namespace Montage

/-- The times from `start` up to `stop`, `stop` not included. -/
structure Window (τ : Type) where
  start : τ
  stop : τ
  deriving DecidableEq, Repr

namespace Window

variable {τ : Type} [Scalar τ]

def duration (window : Window τ) : τ := window.stop - window.start

/-- Whether a window meets a stretch of time. -/
def intersects (window : Window τ) (start stop : τ) : Bool :=
  start < window.stop && window.start < stop

/-- Whether a window meets a clip. -/
def meets (window : Window τ) (clip : Clip τ) : Bool := window.intersects clip.start clip.stop

/-- The window from the start of the timeline to a time. -/
def upTo (stop : τ) : Window τ := ⟨Scalar.zero, stop⟩

end Window

end Montage
