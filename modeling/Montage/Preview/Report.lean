import Montage.Number.Double

/-!
Reports on how far the preview of a whole timeline has come.
-/

namespace Montage

inductive PreviewPhase where
  | proxy
  | render
  deriving DecidableEq, Repr

def PreviewPhase.name : PreviewPhase → String
  | .proxy => "proxy"
  | .render => "render"

/-- A report, with percentages of the whole and of the phase. -/
structure PreviewReport (τ : Type) where
  phase : PreviewPhase
  overall : τ
  ofPhase : τ
  task : String := ""

end Montage
