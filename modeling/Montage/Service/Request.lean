import Montage.Command.Basic
import Montage.Compose.Concat
import Montage.Compose.Overlay
import Montage.Config
import Montage.Failure
import Montage.Probe.Media

/-!
The parts of requests. A part that is left out has its default; numbers stand for times as doubles.
-/

namespace Montage.Service

abbrev Value := Json Double

abbrev Result := Except Failure

/-- An answer, or the report of what stands in its place. -/
def shown (report : Failure → Value) : Result Value → Value
  | .ok answer => answer
  | .error failure => report failure

/-- A field; null if there is none. -/
def field (input : Value) (name : String) : Value := (input.get? name).getD .null

/-- The items of a list; none of any other value. -/
def items : Value → List Value
  | .list items => items
  | _ => []

def textOf : Value → String
  | .text s => s
  | _ => ""

def optionalText : Value → Option String
  | .text s => some s
  | _ => none

/-- Whether a value counts as set. -/
def isTrue : Value → Bool
  | .bool b => b
  | .int n => n ≠ 0
  | .real x => !x.isZero
  | .text s => s ≠ ""
  | .null => false
  | .list items => !items.isEmpty
  | .object fields => !fields.isEmpty

/-- A flag, or what holds when it is left out. -/
def flagOr (default : Bool) : Value → Bool
  | .null => default
  | j => isTrue j

/-- The whole number that a number is or is cut down to. -/
def intOf : Value → Int
  | .int n => n
  | .bool b => if b then 1 else 0
  | .real x => (Scalar.truncate x).toOption.getD 0
  | _ => 0

/-- A number turned into a double. -/
def doubleOf (j : Value) : Result Double := Report.number j

def texts (j : Value) : List String := (items j).map textOf

def checked {α : Type} (c : Checked α) : Result α := liftM c

def timelineOf (input : Value) : Result (Timeline Double) :=
  checked (Decode.timeline (field input "timeline"))

/-- Media items: a list is keyed by their ids, an object by its own keys. -/
def mediaOf (j : Value) : Result MediaLibrary :=
  match j with
  | .object fields => do
    let mut media : MediaLibrary := []
    for (key, item) in fields do
      media := media.insert key (← checked (Decode.mediaFile item))
    return media
  | j => do
    let found ← (items j).mapM fun item => checked (Decode.mediaFile item)
    return MediaLibrary.ofItems found

def settingsOf (j : Value) : Result (OutputFormat Double) :=
  match j with
  | .null => .ok {}
  | j => checked (Decode.outputFormat j)

def windowOf (j : Value) : Result (Window Double) := checked (Decode.window j)

def existsIn (paths : List String) : PathExists := fun path => paths.contains path

def optionalDouble : Value → Result (Option Double)
  | .null => return none
  | j => return some (← doubleOf j)

/-- Both numbers of a list of two. -/
def pairOf (j : Value) : Result (Double × Double) :=
  match items j with
  | [a, b] => return (← doubleOf a, ← doubleOf b)
  | _ => .error (.number .notNumeral)

/-- Bytes given as hexadecimal digits, or the encoding of a text. -/
def bytesOf (j : Value) : List UInt8 :=
  match j with
  | .text s => Text.Utf8.encode s
  | j => hexBytes (textOf (field j "hex")).toList
where
  hexBytes : List Char → List UInt8
    | a :: b :: rest =>
      UInt8.ofNat ((Json.hexValue? a).getD 0 * 16 + (Json.hexValue? b).getD 0) :: hexBytes rest
    | _ => []

def optionalBool : Value → Option Bool
  | .null => none
  | j => some (isTrue j)

/-- Settings that may be left out. -/
def settingsOf? (j : Value) : Result (Option (OutputFormat Double)) :=
  match j with
  | .null => return none
  | j => return some (← checked (Decode.outputFormat j))

def variablesOf (input : Value) : List (String × String) :=
  (field input "env").fields.map fun (name, value) => (name, textOf value)

def configOf (input : Value) : Result Config := checked (Config.ofVariables (variablesOf input))

/-- The path of the encoder: that of the request, else the configured one. -/
def encoderOf (input : Value) : Result String :=
  match field input "ffmpeg_path" with
  | .null | .text "" => return (← configOf input).encoderPath
  | j => return textOf j

/-- The profile of a name, or the one that has the given entries. -/
def profileOf (default : Encoding) : Value → Encoding
  | .text "full" => .fullPreview
  | .text "proxy" => .proxy
  | .text _ => .chunk
  | .object fields =>
    let base : Encoding := {}
    let entry (name fallback : String) : String :=
      ((fields.lookup name).map textOf).getD fallback
    { videoCodec := entry "video_codec" base.videoCodec
      preset := entry "preset" base.preset
      quality := match fields.lookup "crf" with
        | some (.int n) => .int n
        | some (.real x) => .number x
        | some (.text s) => .text s
        | some (.bool b) => .text (if b then "True" else "False")
        | some _ => .text "None"
        | none => base.quality
      tune := (fields.lookup "tune").bind optionalText
      pixelFormat := entry "pix_fmt" base.pixelFormat
      audioCodec := entry "audio_codec" base.audioCodec
      audioBitrate := entry "audio_bitrate" base.audioBitrate }
  | _ => default

def accessOf (input : Value) (media : MediaLibrary) (useProxies : Bool) : MediaAccess :=
  { media, useProxies, pathExists := existsIn (texts (field input "existing")) }

/-- A slice given with its clip and media item. -/
def sliceOf (j : Value) : Result (Slice Double) := do
  let (_, clip) ← checked (Decode.clip (field j "clip"))
  let media ← checked (Decode.mediaFile (field j "media"))
  let inputIndex := match field j "input_index" with
    | .null => -1
    | v => intOf v
  let volume ← match field j "volume" with
    | .null => pure (1 : Double)
    | v => doubleOf v
  return {
    clip, media, inputIndex, volume
    localStart := ← doubleOf (field j "local_start")
    localStop := ← doubleOf (field j "local_end")
    sourceIn := ← doubleOf (field j "source_in")
    sourceOut := ← doubleOf (field j "source_out") }

/-- The composition that a request describes. -/
def composeOf (input : Value) : Result (Composition Double) := do
  let timeline ← timelineOf input
  let media ← mediaOf (field input "media")
  let settings ← settingsOf (field input "settings")
  let overlay := textOf (field input "compositor") ≠ "concat"
  let window ← match field input "window" with
    | .null => pure (Window.upTo timeline.duration)
    | w => windowOf w
  let access := accessOf input media (flagOr (!overlay) (field input "use_proxies"))
  let composition : Composition Double ←
    if overlay then
      (liftM (composeOverlay timeline access settings window
        (flagOr true (field input "silent_audio"))) : Result _)
    else (liftM (composeConcat timeline access settings window) : Result _)
  if isTrue (field input "raise_diagnostics") then composition.check
  return composition

def runResultOf (j : Value) : RunOutcome where
  success := isTrue (field j "success")
  exitCode := match field j "exit_code" with
    | .null => none
    | n => some (intOf n)
  output := textOf (field j "stdout")
  messageTail := textOf (field j "stderr_tail")
  failure := match textOf (field j "error_kind") with
    | "spawn" => some .spawn
    | "exit" => some .exit
    | "cancelled" => some .cancelled
    | _ => none
  error := optionalText (field j "error")

def filterValueOf : Value → FilterValue Double
  | .null => .none
  | .bool b => .flag b
  | .int n => .int n
  | .real x => .number x
  | .text s => .text s
  | j => .quoted (textOf (field j "quoted"))

def filterOf (j : Value) : Filter Double where
  name := textOf (field j "name")
  positional := (items (field j "positional")).map filterValueOf
  options := (items (field j "options")).filterMap fun option =>
    match items option with
    | [key, value] => some (textOf key, filterValueOf value)
    | _ => none

end Montage.Service
