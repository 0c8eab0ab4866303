import Montage.Decode.Timeline

/-!
The configuration of a session: paths of the tools, the default output, and the pace of previews.
Each entry can be overridden by a variable of its name.
-/

namespace Montage

structure Config where
  encoderPath : String := "ffmpeg"
  probePath : String := "ffprobe"
  outputWidth : Int := 1920
  outputHeight : Int := 1080
  framesPerSecond : Int := 30
  sampleRate : Int := 48000
  background : String := "black"
  exportVideoCodec : String := "libx264"
  exportQuality : Int := 18
  exportPreset : String := "medium"
  exportAudioCodec : String := "aac"
  exportAudioBitrate : String := "192k"
  chunkDuration : Double := 2
  maxConcurrent : Int := 2
  /-- How many chunks on each side of the playhead are rendered first. -/
  prefetchRadius : Int := 5
  cacheDir : String := "/tmp/render-core/chunk-cache"
  previewDir : String := "/tmp/render-core/preview"
  proxyDir : String := "/tmp/render-core/proxies"
  proxyScale : Double := .ofDecimal false 5 (-1)
  previewScale : Double := .ofDecimal false 5 (-1)
  /-- The share of the proxy phase in the progress of a preview. -/
  proxyWeight : Double := .ofDecimal false 7 (-1)
  cancelGrace : Double := .ofDecimal false 5 (-1)
  /-- How many characters of a tool's messages are kept. -/
  tailLength : Int := 500

namespace Config

open Decode in
/-- The configuration under some variables, whose names have any case; of two variables of one
name the later one counts. -/
def ofVariables (env : List (String × String)) : Checked Config :=
  let fields : Fields := env.reverse.map fun (name, value) =>
    (String.ofList (name.toList.map Char.toLower), .text value)
  let base : Config := {}
  Config.mk <$> withDefault fields "ffmpeg_path" base.encoderPath text
    <*> withDefault fields "ffprobe_path" base.probePath text
    <*> withDefault fields "render_output_width" base.outputWidth integer
    <*> withDefault fields "render_output_height" base.outputHeight integer
    <*> withDefault fields "render_fps" base.framesPerSecond integer
    <*> withDefault fields "render_audio_sample_rate" base.sampleRate integer
    <*> withDefault fields "render_background_color" base.background text
    <*> withDefault fields "export_video_codec" base.exportVideoCodec text
    <*> withDefault fields "export_crf" base.exportQuality integer
    <*> withDefault fields "export_preset" base.exportPreset text
    <*> withDefault fields "export_audio_codec" base.exportAudioCodec text
    <*> withDefault fields "export_audio_bitrate" base.exportAudioBitrate text
    <*> withDefault fields "preview_chunk_duration_s" base.chunkDuration number
    <*> withDefault fields "preview_max_concurrent_renders" base.maxConcurrent integer
    <*> withDefault fields "preview_prefetch_radius" base.prefetchRadius integer
    <*> withDefault fields "preview_cache_dir" base.cacheDir text
    <*> withDefault fields "preview_output_dir" base.previewDir text
    <*> withDefault fields "preview_proxy_dir" base.proxyDir text
    <*> withDefault fields "preview_proxy_scale" base.proxyScale number
    <*> withDefault fields "preview_full_scale" base.previewScale number
    <*> withDefault fields "preview_proxy_phase_weight" base.proxyWeight number
    <*> withDefault fields "process_cancel_grace_s" base.cancelGrace number
    <*> withDefault fields "process_stderr_tail_chars" base.tailLength integer

/-- The entries under the names of their variables. -/
def entries (config : Config) : List (String × Json Double) := [
  ("ffmpeg_path", .text config.encoderPath),
  ("ffprobe_path", .text config.probePath),
  ("render_output_width", .int config.outputWidth),
  ("render_output_height", .int config.outputHeight),
  ("render_fps", .int config.framesPerSecond),
  ("render_audio_sample_rate", .int config.sampleRate),
  ("render_background_color", .text config.background),
  ("export_video_codec", .text config.exportVideoCodec),
  ("export_crf", .int config.exportQuality),
  ("export_preset", .text config.exportPreset),
  ("export_audio_codec", .text config.exportAudioCodec),
  ("export_audio_bitrate", .text config.exportAudioBitrate),
  ("preview_chunk_duration_s", .real config.chunkDuration),
  ("preview_max_concurrent_renders", .int config.maxConcurrent),
  ("preview_prefetch_radius", .int config.prefetchRadius),
  ("preview_cache_dir", .text config.cacheDir),
  ("preview_output_dir", .text config.previewDir),
  ("preview_proxy_dir", .text config.proxyDir),
  ("preview_proxy_scale", .real config.proxyScale),
  ("preview_full_scale", .real config.previewScale),
  ("preview_proxy_phase_weight", .real config.proxyWeight),
  ("process_cancel_grace_s", .real config.cancelGrace),
  ("process_stderr_tail_chars", .int config.tailLength)]

/-- The output that the configuration asks for, subject to the conditions on settings. -/
def outputFormat (config : Config) : Checked (OutputFormat Double) :=
  Decode.outputFormat (.object [
    ("width", .int config.outputWidth),
    ("height", .int config.outputHeight),
    ("frame_rate", .int config.framesPerSecond),
    ("background_color", .text config.background),
    ("sample_rate", .int config.sampleRate)])

/-- The exports that the configuration asks for. -/
def exportBase (config : Config) (outputPath : String) : ExportOptions where
  outputPath
  videoCodec := config.exportVideoCodec
  videoOptions := [("crf", .int config.exportQuality), ("preset", .text config.exportPreset)]
  audioCodec := config.exportAudioCodec
  audioOptions := [("b", .text config.exportAudioBitrate)]

/-- Export settings of the configuration, with fields other than the output path overridden. -/
def exportOptions (config : Config) (outputPath : String) (overrides : Decode.Fields) :
    Checked ExportOptions :=
  Decode.exportOptionsOver (config.exportBase outputPath)
    (.object (("output_path", .text outputPath) :: overrides))

end Config

end Montage
