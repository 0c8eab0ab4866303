import Montage.Number.Scalar

/-!
The geometry and timing of what is rendered.
-/

namespace Montage

/-- Frames per second. A rate that was never given is the whole number 30. -/
inductive FrameRate (τ : Type) where
  | unset
  | given (rate : τ)

namespace FrameRate

variable {τ : Type} [Scalar τ]

def value : FrameRate τ → τ
  | .unset => Scalar.whole 30
  | .given rate => rate

end FrameRate

structure OutputFormat (τ : Type) where
  width : Int := 1920
  height : Int := 1080
  frameRate : FrameRate τ := .unset
  background : String := "black"
  sampleRate : Int := 48000

namespace OutputFormat

variable {τ : Type} [Scalar τ]

/-- A length times a factor, rounded to the nearest even number, and at least two. -/
def scaledLength (length : Int) (factor : τ) : Except NumberError Int := do
  let product := (← Scalar.ofInt length) * factor
  let half ← Scalar.round (product / Scalar.whole 2)
  return max 2 (half * 2)

/-- The settings with both lengths scaled. -/
def scaled (settings : OutputFormat τ) (factor : τ) :
    Except NumberError (OutputFormat τ) := do
  let width ← scaledLength settings.width factor
  let height ← scaledLength settings.height factor
  return { settings with width, height }

/-- Whether two settings give the same output; a rate that was never given is 30. -/
def sameOutput (a b : OutputFormat τ) : Bool :=
  a.width = b.width && a.height = b.height && a.frameRate.value == b.frameRate.value &&
    a.background = b.background && a.sampleRate = b.sampleRate

theorem sameOutput_iff {a b : OutputFormat τ} :
    a.sameOutput b = true ↔ a.width = b.width ∧ a.height = b.height ∧
      (a.frameRate.value == b.frameRate.value) = true ∧ a.background = b.background ∧
      a.sampleRate = b.sampleRate := by
  simp [sameOutput, and_assoc]

end OutputFormat

end Montage
