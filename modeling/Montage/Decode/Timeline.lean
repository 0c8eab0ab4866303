import Montage.Decode.Basic
import Montage.Export.Options
import Montage.Media
import Montage.OutputFormat
import Montage.Window

/-!
Decoders of timelines, media items, windows and settings.
-/

namespace Montage.Decode

def mediaType : Decoder MediaType :=
  literal [("video", .video), ("audio", .audio), ("image", .image)]

def videoFormat : Decoder VideoFormat := record fun fields =>
  VideoFormat.mk <$> withDefault fields "width" none (optional integer)
    <*> withDefault fields "height" none (optional integer)
    <*> withDefault fields "frame_rate" none (optional number)

def mediaFile : Decoder MediaFile := record fun fields =>
  MediaFile.mk <$> required fields "id" text
    <*> required fields "type" mediaType
    <*> required fields "path" text
    <*> withDefault fields "proxy_path" none (optional text)
    <*> withDefault fields "duration" 0 number
    <*> withDefault fields "metadata" none (optional videoFormat)

/-- An effect; fields that are not known here are kept as its parameters. -/
def effect : Decoder Effect := record fun fields =>
  let parameters := fields.filter fun (name, _) => name ≠ "type" && name ≠ "enabled"
  (fun type enabled => Effect.mk type enabled parameters) <$> required fields "type" text
    <*> withDefault fields "enabled" true flag

def trackKind : Decoder TrackKind := literal [("video", .video), ("audio", .audio)]

/-- The fields of a clip apart from its kind. -/
def clipFields (fields : Fields) : Checked (Clip Double) :=
  let zero : { x : Double // Scalar.zero ≤ x } := ⟨Scalar.zero, by decide⟩
  let build id mediaId trackId (start duration mediaIn mediaOut : { x : Double // _ ≤ x })
      enabled name effects : Clip Double :=
    { id, mediaId, trackId, start := start.1, duration := duration.1, mediaIn := mediaIn.1
      mediaOut := mediaOut.1, enabled, name, effects
      times_nonneg := ⟨start.2, duration.2, mediaIn.2, mediaOut.2⟩ }
  build <$> required fields "id" text
    <*> withDefault fields "media_id" none (optional text)
    <*> required fields "track_id" text
    <*> required fields "timeline_start" nonnegative
    <*> required fields "duration" nonnegative
    <*> withDefault fields "media_in" zero nonnegative
    <*> withDefault fields "media_out" zero nonnegative
    <*> withDefault fields "enabled" true flag
    <*> withDefault fields "name" "" text
    <*> withDefault fields "effects" [] (list effect)

/-- A clip of a kind that is known beforehand; naming another kind is a problem. -/
def clipOfKind (kind : TrackKind) : Decoder (Clip Double) := record fun fields =>
  (fun clip _ => clip) <$> clipFields fields
    <*> withDefault fields "type" kind (literal [(kind.name, kind)])

/-- A clip that names its kind. -/
def clip : Decoder (TrackKind × Clip Double)
  | .object fields =>
    match fields.lookup "type" with
    | none => .fail .tagMissing
    | some tag =>
      match trackKind tag with
      | .ok kind => ((clipFields fields).under kind.name).map fun clip => (kind, clip)
      | .problems _ => .fail .tagUnknown
  | _ => .fail .attributesType

/-- The message about a clip on a track of another kind. -/
def misplacedClip (clip : Clip Double) (kind trackKind : TrackKind) (trackId : String) :
    String :=
  "Clip " ++ clip.id ++ " of type " ++ kind.name ++ " cannot live on " ++ trackKind.name ++
    " track " ++ trackId

/-- A track; its clips must be of its kind. -/
def track : Decoder (Track Double) := record fun fields =>
  let build id kind name (clips : List (TrackKind × Clip Double)) muted visible volume :=
    (clips, ({ id, kind, name, clips := clips.map (·.2), muted, visible, volume } :
      Track Double))
  let parts := build <$> required fields "id" text
    <*> required fields "type" trackKind
    <*> withDefault fields "name" "" text
    <*> withDefault fields "clips" [] (list clip)
    <*> withDefault fields "muted" false flag
    <*> withDefault fields "visible" true flag
    <*> withDefault fields "volume" 1 number
  parts.andThen fun (clips, track) =>
    match clips.find? (·.1 ≠ track.kind) with
    | some (kind, clip) => .fail (.refused (misplacedClip clip kind track.kind track.id))
    | none => .ok track

def timeline : Decoder (Timeline Double) := record fun fields =>
  Timeline.mk <$> withDefault fields "tracks" [] (list track)

/-- A window that does not end before it starts. -/
def checkWindow (start stop : Double) : Checked (Window Double) :=
  if stop < start then
    .fail (.refused ("Window end " ++ Scalar.text stop ++ " precedes start " ++
      Scalar.text start))
  else .ok ⟨start, stop⟩

def window : Decoder (Window Double) := record fun fields =>
  ((required fields "start" nonnegative).both (required fields "end" nonnegative)).andThen
    fun (start, stop) => checkWindow start.1 stop.1

/-- A frame rate above zero. -/
def frameRate : Decoder (FrameRate Double) := fun value =>
  (ensure number .above (fun x => Scalar.zero < x) value).map .given

def outputFormat : Decoder (OutputFormat Double) := record fun fields =>
  OutputFormat.mk <$> withDefault fields "width" 1920 positive
    <*> withDefault fields "height" 1080 positive
    <*> withDefault fields "frame_rate" .unset frameRate
    <*> withDefault fields "background_color" "black" text
    <*> withDefault fields "sample_rate" 48000 integer

/-- The value of an encoder option; a flag is the number 0 or 1. -/
def optionValue : Decoder OptionValue
  | .text s => .ok (.text s)
  | .int n => .ok (.int n)
  | .bool b => .ok (.int (if b then 1 else 0))
  | .real x => .ok (.number x)
  | _ => .problems [⟨["str"], .textType⟩, ⟨["int"], .integerType⟩, ⟨["float"], .numberType⟩]

/-- Export settings, with the given ones for fields that are left out. -/
def exportOptionsOver (base : ExportOptions) : Decoder ExportOptions := record fun fields =>
  ExportOptions.mk <$> required fields "output_path" text
    <*> withDefault fields "video_codec" base.videoCodec text
    <*> withDefault fields "video_codec_options" base.videoOptions (table optionValue)
    <*> withDefault fields "audio_codec" base.audioCodec text
    <*> withDefault fields "audio_codec_options" base.audioOptions (table optionValue)
    <*> withDefault fields "use_gpu_encoding" base.useGpu flag
    <*> withDefault fields "gpu_encoder" base.gpuEncoder (optional text)

def exportOptions : Decoder ExportOptions :=
  exportOptionsOver { outputPath := "" }

end Montage.Decode
