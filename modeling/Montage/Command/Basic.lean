import Montage.Compose.Basic
import Montage.Export.Options

/-!
The argument lists with which the encoder is started, for every kind of job.
-/

namespace Montage

/-- The encoder settings of previews. -/
structure Encoding where
  videoCodec : String := "libx264"
  preset : String := "ultrafast"
  quality : OptionValue := .int 28
  tune : Option String := none
  pixelFormat : String := "yuv420p"
  audioCodec : String := "aac"
  audioBitrate : String := "128k"

namespace Encoding

/-- For the chunks of a preview. -/
def chunk : Encoding := {}

/-- For the preview of a whole timeline. -/
def fullPreview : Encoding :=
  { quality := .int 35, tune := some "fastdecode", audioBitrate := "64k" }

/-- For smaller copies of media files. -/
def proxy : Encoding := { quality := .int 23 }

def videoArguments (profile : Encoding) : List String :=
  ["-c:v", profile.videoCodec, "-preset", profile.preset, "-crf", profile.quality.print] ++
    (match profile.tune.filter (· ≠ "") with
      | some tune => ["-tune", tune]
      | none => []) ++
    ["-pix_fmt", profile.pixelFormat]

def audioArguments (profile : Encoding) : List String :=
  ["-c:a", profile.audioCodec, "-b:a", profile.audioBitrate]

end Encoding

/-! ### Compositions -/

variable {τ : Type} [Scalar τ]

def inputArguments (inputs : List InputFile) : List String :=
  inputs.flatMap fun source => ["-i", source.path]

def mapArguments (pads : List String) : List String := pads.flatMap fun pad => ["-map", pad]

/-- The inputs, the graph and the pads of a composition. -/
def graphArguments (composition : Composition τ) : Except NumberError (List String) := do
  let graph ← composition.graph.print
  return inputArguments composition.inputs ++ ["-filter_complex", graph] ++
    mapArguments composition.maps

/-- The reports of progress that every encoder job gives. -/
def progressArguments : List String := ["-progress", "pipe:1"]

/-- Renders a preview. -/
def previewCommand (encoder : String) (composition : Composition τ) (outputPath : String)
    (profile : Encoding) (progress : Bool := true) : Except NumberError (List String) := do
  let graph ← graphArguments composition
  return [encoder, "-y"] ++ graph ++ profile.videoArguments ++
    (if composition.audioOutput.isSome then profile.audioArguments else ["-an"]) ++
    ["-t", Scalar.fixed composition.duration] ++
    (if progress then progressArguments else []) ++ [outputPath]

/-- The presets of the GPU encoders, from the fastest to the best. -/
def gpuPresets : List (String × String) := [
  ("ultrafast", "p1"), ("superfast", "p1"), ("veryfast", "p2"), ("faster", "p3"), ("fast", "p4"),
  ("medium", "p5"), ("slow", "p6"), ("slower", "p7"), ("veryslow", "p7")]

/-- The arguments of a video option. On the GPU, quality and preset have names of their own. -/
def videoOptionArguments (gpu : Bool) (name : String) (value : OptionValue) : List String :=
  if gpu && name = "crf" then ["-rc", "constqp", "-qp", value.print]
  else if gpu && name = "preset" then ["-preset", (gpuPresets.lookup value.print).getD "p5"]
  else ["-" ++ name, value.print]

/-- The arguments of audio options that are not named after them. -/
def audioFlags : List (String × String) := [("b", "-b:a"), ("ar", "-ar"), ("ac", "-ac")]

def audioOptionArguments (name : String) (value : OptionValue) : List String :=
  [(audioFlags.lookup name).getD ("-" ++ name), value.print]

/-- Renders an export. -/
def exportCommand (encoder : String) (composition : Composition τ) (settings : ExportOptions) :
    Except NumberError (List String) := do
  let graph ← graphArguments composition
  let gpu := settings.gpu?
  let videoOptions := settings.videoOptions.flatMap fun (name, value) =>
    videoOptionArguments gpu.isSome name value
  let audio :=
    if composition.audioOutput.isSome then
      ["-c:a", settings.audioCodec] ++
        settings.audioOptions.flatMap fun (name, value) => audioOptionArguments name value
    else ["-an"]
  return [encoder] ++ graph ++ ["-c:v", gpu.getD settings.videoCodec] ++ videoOptions ++
    ["-pix_fmt", "yuv420p"] ++ audio ++ ["-t", Scalar.fixed composition.duration] ++
    progressArguments ++ ["-y", settings.outputPath]

/-! ### Files -/

/-- Makes a smaller copy of a video; its sides stay even. -/
def proxyCommand (encoder sourcePath proxyPath : String) (scale : τ) (profile : Encoding) :
    List String :=
  let factor := Scalar.fixed scale
  [encoder, "-y", "-i", sourcePath, "-vf",
    "scale=trunc(iw*" ++ factor ++ "/2)*2:trunc(ih*" ++ factor ++ "/2)*2"] ++
    profile.videoArguments ++ profile.audioArguments ++ progressArguments ++ [proxyPath]

/-- Joins the files of a list without encoding them again. -/
def concatCommand (encoder listPath outputPath : String) : List String :=
  [encoder, "-y", "-f", "concat", "-safe", "0", "-i", listPath, "-c", "copy", "-movflags",
    "+faststart", outputPath]

end Montage
