import Montage.Decode.Timeline

/-!
Timelines, media items and settings as JSON values, all their fields written out.
-/

namespace Montage.Encode

def videoFormat (metadata : VideoFormat) : Json Double := .object [
  ("width", .ofInt? metadata.width),
  ("height", .ofInt? metadata.height),
  ("frame_rate", .ofReal? metadata.frameRate)]

def mediaFile (item : MediaFile) : Json Double := .object [
  ("id", .text item.id),
  ("type", .text item.type.name),
  ("path", .text item.path),
  ("proxy_path", .ofText? item.proxyPath),
  ("duration", .real item.duration),
  ("metadata", (item.metadata.map videoFormat).getD .null)]

def effect (effect : Effect) : Json Double :=
  .object ([("type", .text effect.type), ("enabled", .bool effect.enabled)] ++
    effect.parameters)

def clip (kind : TrackKind) (clip : Clip Double) : Json Double := .object [
  ("id", .text clip.id),
  ("media_id", .ofText? clip.mediaId),
  ("track_id", .text clip.trackId),
  ("timeline_start", .real clip.start),
  ("duration", .real clip.duration),
  ("media_in", .real clip.mediaIn),
  ("media_out", .real clip.mediaOut),
  ("enabled", .bool clip.enabled),
  ("name", .text clip.name),
  ("effects", .list (clip.effects.map effect)),
  ("type", .text kind.name)]

def track (track : Track Double) : Json Double := .object [
  ("id", .text track.id),
  ("type", .text track.kind.name),
  ("name", .text track.name),
  ("clips", .list (track.clips.map (clip track.kind))),
  ("muted", .bool track.muted),
  ("visible", .bool track.visible),
  ("volume", .real track.volume)]

def timeline (timeline : Timeline Double) : Json Double :=
  .object [("tracks", .list (timeline.tracks.map track))]

def window (window : Window Double) : Json Double :=
  .object [("start", .real window.start), ("end", .real window.stop)]

/-- A frame rate; one that was never given is written as a whole number. -/
def frameRate : FrameRate Double → Json Double
  | .unset => .int 30
  | .given rate => .real rate

def outputFormat (settings : OutputFormat Double) : Json Double := .object [
  ("width", .int settings.width),
  ("height", .int settings.height),
  ("frame_rate", frameRate settings.frameRate),
  ("background_color", .text settings.background),
  ("sample_rate", .int settings.sampleRate)]

def optionValue : OptionValue → Json Double
  | .text s => .text s
  | .int n => .int n
  | .number x => .real x

def codecOptions (options : CodecOptions) : Json Double :=
  .object (options.map fun (name, value) => (name, optionValue value))

def exportOptions (settings : ExportOptions) : Json Double := .object [
  ("output_path", .text settings.outputPath),
  ("video_codec", .text settings.videoCodec),
  ("video_codec_options", codecOptions settings.videoOptions),
  ("audio_codec", .text settings.audioCodec),
  ("audio_codec_options", codecOptions settings.audioOptions),
  ("use_gpu_encoding", .bool settings.useGpu),
  ("gpu_encoder", .ofText? settings.gpuEncoder)]

end Montage.Encode
