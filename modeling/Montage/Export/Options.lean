import Montage.Number.Scalar

/-!
What an export writes, and with which encoders.
-/

namespace Montage

/-- The value of an encoder option. -/
inductive OptionValue where
  | text (s : String)
  | int (n : Int)
  | number (x : Double)
  deriving DecidableEq

/-- The argument that an option value becomes. -/
def OptionValue.print : OptionValue → String
  | .text s => s
  | .int n => toString n
  | .number x => plainLayout.text x

/-- Encoder options in order. -/
abbrev CodecOptions := List (String × OptionValue)

structure ExportOptions where
  outputPath : String
  videoCodec : String := "libx264"
  videoOptions : CodecOptions := [("crf", .int 18), ("preset", .text "medium")]
  audioCodec : String := "aac"
  audioOptions : CodecOptions := [("b", .text "192k")]
  useGpu : Bool := false
  /-- The encoder that replaces the video codec when the GPU is used. -/
  gpuEncoder : Option String := none

/-- The encoder of the GPU, if it is to be used and has a name. -/
def ExportOptions.gpu? (settings : ExportOptions) : Option String :=
  if settings.useGpu then settings.gpuEncoder.filter (· ≠ "") else none

end Montage
