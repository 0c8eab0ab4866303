import Montage.Decode.Timeline
import Montage.Failure
import Montage.Files.Path
import Montage.Json.Reader

/-!
What a probe of a media file tells. Its report is a JSON value of any shape; values are looked
into as they come, and the first thing that cannot be done with one of them stops the reading.
How deep values may be nested in each other depends on who reads them: `nesting` bounds it.
-/

namespace Montage

/-- The type of a file by its extension; a file with an unknown one is a video. -/
def MediaType.ofPath (path : String) : MediaType :=
  let extension := String.ofList ((Path.ofText path).extension.toList.map Char.toLower)
  if [".jpg", ".jpeg", ".png", ".gif", ".bmp", ".webp", ".tiff"].contains extension then .image
  else if [".mp3", ".wav", ".aac", ".flac", ".ogg", ".m4a", ".wma"].contains extension then .audio
  else .video

namespace Report

/-! ### Looking into values -/

/-- Whether a text occurs in another. -/
def occurs (text : List Char) : List Char → Bool
  | [] => text.isEmpty
  | c :: rest => text.isPrefixOf (c :: rest) || occurs text rest

/-- Whether a value is more than nothing, zero or empty. -/
def counts : Json Double → Bool
  | .null => false
  | .bool b => b
  | .int n => n ≠ 0
  | .real x => !x.isZero
  | .text s => s ≠ ""
  | .list items => !items.isEmpty
  | .object fields => !fields.isEmpty

/-- A field of what must be an object. -/
def field (value : Json Double) (name : String) : Except ShapeError (Option (Json Double)) :=
  match value with
  | .object fields => .ok (fields.lookup name)
  | _ => .error .notObject

/-- Whether a value holds a name: as a field, as an item, or inside a text. -/
def holds (value : Json Double) (name : String) : Except ShapeError Bool :=
  match value with
  | .object fields => .ok (fields.lookup name).isSome
  | .list items => .ok (items.any fun item =>
      match item with
      | .text s => s = name
      | _ => false)
  | .text s => .ok (occurs name.toList s.toList)
  | _ => .error .wrongType

/-- The value under a name that is held. -/
def under (value : Json Double) (name : String) : Except ShapeError (Json Double) :=
  match value with
  | .object fields =>
    match fields.lookup name with
    | some found => .ok found
    | none => .error .missingField
  | _ => .error .wrongType

/-- The number that a value is, stands for or denotes. -/
def number : Json Double → Except Failure Double
  | .real x => .ok x
  | .int n => liftM (Double.ofInt n)
  | .bool b => .ok (if b then 1 else 0)
  | .text s =>
    match Text.decimal? s with
    | some x => .ok x
    | none => .error (.number .notNumeral)
  | _ => .error (.shape .wrongType)

/-- The whole number that a value is, is cut down to, or denotes. -/
def whole : Json Double → Except Failure Int
  | .int n => .ok n
  | .bool b => .ok (if b then 1 else 0)
  | .real x => liftM (Scalar.truncate x)
  | .text s =>
    match Text.whole? s with
    | some n => .ok n
    | none => .error (.number .notNumeral)
  | _ => .error (.shape .wrongType)

end Report

/-! ### Frame rates -/

/-- A number that is not zero. -/
def nonzero? (x : Double) : Option Double := if x.isZero then none else some x

/-- The rate that a text denotes, as a number or as a quotient; none if it is zero. -/
def frameRateOfText (text : String) : Option Double :=
  let cs := text.toList
  if cs.contains '/' then do
    let rate ← Text.decimal? (String.ofList (cs.takeWhile (· ≠ '/')))
    let scale ← Text.decimal? (String.ofList ((cs.dropWhile (· ≠ '/')).drop 1))
    if rate.isZero || scale.isZero then none else some (rate / scale)
  else (Text.decimal? text).bind nonzero?

/-- The rate that a value denotes, if there is a value. -/
def frameRateOf (value : Json Double) : Except Failure (Option Double) :=
  if !Report.counts value then .ok none
  else
    match value with
    | .text s => .ok (frameRateOfText s)
    | other => do
      if ← Report.holds other "/" then throw (.shape .notObject)
      throw (.shape .wrongType)

/-! ### Reports -/

/-- What a report tells of a media file. Some of its values are passed on as they are. -/
structure ProbedMedia where
  duration : Option Double := none
  width : Json Double := .null
  height : Json Double := .null
  frameRate : Option Double := none
  videoCodec : Json Double := .null
  audioCodec : Json Double := .null
  sampleRate : Option Int := none
  channels : Json Double := .null
  hasVideo : Bool := false
  hasAudio : Bool := false

namespace ProbedMedia

/-- The field of a stream as it is. -/
def plain (stream : Json Double) (name : String) : Except ShapeError (Json Double) :=
  (Report.field stream name).map fun found => found.getD .null

/-- The duration that a value holds. -/
def durationIn? (value : Json Double) : Except Failure (Option Double) := do
  if ← Report.holds value "duration" then
    return some (← Report.number (← Report.under value "duration"))
  return none

/-- With the first video stream. -/
def addVideo (info : ProbedMedia) (stream : Json Double) : Except Failure ProbedMedia := do
  let first ← frameRateOf (← plain stream "r_frame_rate")
  let frameRate ← match first.bind nonzero? with
    | some rate => pure (some rate)
    | none => frameRateOf (← plain stream "avg_frame_rate")
  let duration ← match info.duration with
    | some duration => pure (some duration)
    | none => durationIn? stream
  return { info with
    hasVideo := true, frameRate, duration
    width := ← plain stream "width"
    height := ← plain stream "height"
    videoCodec := ← plain stream "codec_name" }

/-- With the first audio stream. -/
def addAudio (info : ProbedMedia) (stream : Json Double) : Except Failure ProbedMedia := do
  let rate ← Report.whole (((← Report.field stream "sample_rate")).getD (.int 0))
  return { info with
    hasAudio := true
    sampleRate := if rate = 0 then none else some rate
    audioCodec := ← plain stream "codec_name"
    channels := ← plain stream "channels" }

/-- With what a stream tells, if it is the first of its kind. -/
def addStream (info : ProbedMedia) (stream : Json Double) : Except Failure ProbedMedia := do
  match ← plain stream "codec_type" with
  | .text kind =>
    if kind = "video" && !info.hasVideo then info.addVideo stream
    else if kind = "audio" && !info.hasAudio then info.addAudio stream
    else return info
  | _ => return info

/-- The values that a value is made of, one after the other. -/
def partsOf : Json Double → Except ShapeError (List (Json Double))
  | .list items => .ok items
  | .text s => .ok (s.toList.map fun c => .text c.toString)
  | .object fields => .ok (fields.map fun (name, _) => .text name)
  | _ => .error .wrongType

/-- What a report tells. -/
def ofReport (report : Json Double) : Except Failure ProbedMedia := do
  let format := (← Report.field report "format").getD (.object [])
  let duration ← durationIn? format
  let streams ← partsOf ((← Report.field report "streams").getD (.list []))
  streams.foldlM addStream { duration }

end ProbedMedia

/-! ### Probes -/

/-- How a run of the probe ended. -/
inductive ProbeRun where
  | notStarted (reason : String)
  | ended (exitCode : Int) (output messages : List UInt8)

namespace ProbeRun

/-- The command of a probe. -/
def command (tool : String) (arguments : List String) (path : String) : List String :=
  [tool, "-v", "quiet", "-print_format", "json"] ++ arguments ++ [path]

def infoArguments : List String := ["-show_format", "-show_streams"]
def durationArguments : List String := ["-show_format"]
def dimensionArguments : List String := ["-show_streams", "-select_streams", "v"]

/-- A failed probe. -/
def failure (message : String) : Failure := .render (.probe { message := some message })

/-- Lines that end with a line feed only. -/
def plainLines : List Char → List Char
  | '\r' :: '\n' :: rest => '\n' :: plainLines rest
  | c :: rest => (if c = '\r' then '\n' else c) :: plainLines rest
  | [] => []

/-- The text of what a probe writes. -/
def textOf (bytes : List UInt8) : Except Failure String :=
  match Text.Utf8.decode? bytes with
  | some text => .ok (String.ofList (plainLines text.toList))
  | none => .error .notText

/-- The report of a run. -/
def report (nesting : Nat) : ProbeRun → Except Failure (Json Double)
  | .notStarted reason => .error (failure ("ffprobe could not be started: " ++ reason))
  | .ended exitCode output messages => do
    let output ← textOf output
    let messages ← textOf messages
    if exitCode ≠ 0 then throw (failure ("ffprobe failed: " ++ messages))
    match Json.read { loneSurrogates := true, maxDepth := nesting } output with
    | .ok value => return value
    | .error .numeralTooLong => throw (.number .notNumeral)
    | .error .tooDeep => throw .tooDeep
    | .error .malformed => throw (failure "Failed to parse ffprobe output")

def probedMedia (run : ProbeRun) (nesting : Nat) : Except Failure ProbedMedia := do
  ProbedMedia.ofReport (← run.report nesting)

/-- The duration of the file at a path. -/
def duration (run : ProbeRun) (nesting : Nat) (path : String) : Except Failure Double := do
  let format := (← Report.field (← run.report nesting) "format").getD (.object [])
  match ← ProbedMedia.durationIn? format with
  | some duration => return duration
  | none => throw (failure ("Duration not found in: " ++ path))

/-- The first of some streams. -/
def firstStream : Json Double → Except ShapeError (Json Double)
  | .list (stream :: _) => .ok stream
  | .text s => .ok (.text (String.ofList (s.toList.take 1)))
  | .object _ => .error .missingField
  | _ => .error .wrongType

/-- Width and height of the video at a path, as they are reported. -/
def dimensions (run : ProbeRun) (nesting : Nat) (path : String) :
    Except Failure (Json Double × Json Double) := do
  let streams := (← Report.field (← run.report nesting) "streams").getD (.list [])
  if !Report.counts streams then throw (failure ("No video stream found in: " ++ path))
  let stream ← firstStream streams
  match ← ProbedMedia.plain stream "width", ← ProbedMedia.plain stream "height" with
  | .null, _ | _, .null => throw (failure ("Video dimensions not found in: " ++ path))
  | width, height => return (width, height)

/-- The media item of the file at a path. Without an id it is called as the file is. -/
def mediaFile (run : ProbeRun) (nesting : Nat) (path : String) (id : Option String) :
    Except Failure MediaFile := do
  let info ← run.probedMedia nesting
  let metadata ← if info.hasVideo then do
      let found : VideoFormat ← Decode.videoFormat (.object [
        ("width", info.width), ("height", info.height), ("frame_rate", .ofReal? info.frameRate)])
      pure (some found)
    else pure none
  return {
    id := (id.filter (· ≠ "")).getD (Path.ofText path).stem
    type := .ofPath path, path, metadata
    duration := (info.duration.bind nonzero?).getD 0 }

end ProbeRun

end Montage
