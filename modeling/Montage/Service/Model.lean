import Montage.Decode.Manifest
import Montage.Encode.Manifest
import Montage.Encode.Timeline
import Montage.Service.Request

/-!
Answers about single values: numbers, models and the configuration.
-/

namespace Montage.Service

variable (report : Failure → Value)

/-- Numbers in fixed point. -/
def numbers (input : Value) : Value :=
  .list ((items (field input "values")).map fun v => shown report do
    return .text (Scalar.fixed (← doubleOf v)))

/-- A value of a kind of model, validated and written out again. -/
def model (now : Timestamp) (name : String) (data : Value) : Result Value :=
  match name with
  | "Clip" => do let (kind, clip) ← checked (Decode.clip data); return Encode.clip kind clip
  | "VideoClip" => return Encode.clip .video (← checked (Decode.clipOfKind .video data))
  | "AudioClip" => return Encode.clip .audio (← checked (Decode.clipOfKind .audio data))
  | "Effect" => return Encode.effect (← checked (Decode.effect data))
  | "MediaItem" => return Encode.mediaFile (← checked (Decode.mediaFile data))
  | "MediaMetadata" => return Encode.videoFormat (← checked (Decode.videoFormat data))
  | "Track" => return Encode.track (← checked (Decode.track data))
  | "Timeline" => return Encode.timeline (← checked (Decode.timeline data))
  | "RenderWindow" => return Encode.window (← checked (Decode.window data))
  | "RenderSettings" => return Encode.outputFormat (← checked (Decode.outputFormat data))
  | "ChunkManifestEntry" => return Encode.manifestEntry (← checked (Decode.manifestEntry data))
  | "CacheManifest" =>
    return Encode.manifest Timestamp.text (← checked (Decode.manifest now data))
  | "PipelineProgress" => return Encode.previewReport (← checked (Decode.previewReport data))
  | "ExportSettings" => return Encode.exportOptions (← checked (Decode.exportOptions data))
  | _ => return .null

/-- What an override cannot name, since it is given already. -/
def fixedParameters : List String := ["settings", "output_path"]

/-- The configuration, and the settings that it leads to. -/
def configuration (input : Value) : Result Value := do
  let config ← configOf input
  let outputPath := (optionalText (field input "output_path")).getD "out.mp4"
  let output := shown report do
    return Encode.outputFormat (← checked config.outputFormat)
  let exported := shown report do
    let overrides := (field input "overrides").fields
    if overrides.any fun (name, _) => fixedParameters.contains name then
      throw (.shape .wrongType)
    return Encode.exportOptions (← checked (config.exportOptions outputPath overrides))
  return .object [("settings", .object config.entries), ("render", output), ("export", exported)]

end Montage.Service
