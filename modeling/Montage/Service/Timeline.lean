import Montage.Complexity
import Montage.Encode.Composition
import Montage.Service.Request

/-!
Answers about timelines: their structure, windows, slices, segments and partitions.
-/

namespace Montage.Service

variable (report : Failure → Value)

/-- Filters as texts. -/
def filterTexts (filters : List (Filter Double)) : Result Value := do
  return Json.ofTexts (← filters.mapM fun f => (liftM f.print : Result String))

/-- The structure of a timeline. -/
def timeline (input : Value) : Result Value := do
  let timeline ← timelineOf input
  let trackIds (tracks : List (Track Double)) : Value := Json.ofTexts (tracks.map (·.id))
  let clipIds (clips : List (Clip Double)) : Value := Json.ofTexts (clips.map (·.id))
  return .object [
    ("duration", .real timeline.duration),
    ("video_tracks", trackIds timeline.videoTracks),
    ("audio_tracks", trackIds timeline.audioTracks),
    ("clips", clipIds timeline.clips),
    ("enabled_clips", clipIds timeline.enabledClips),
    ("top_to_bottom", trackIds timeline.layersFromTop),
    ("bottom_to_top", trackIds timeline.layersFromBottom),
    ("audible", trackIds timeline.heardTracks),
    ("labels", Json.ofTexts (timeline.clips.map (·.label))),
    ("ends", .list (timeline.clips.map fun c => .real c.stop)),
    ("speed_change", .list (timeline.clips.map fun c => .bool c.changesSpeed)),
    ("overlaps", .bool timeline.hasOverlaps),
    ("media_in_use", Json.ofTexts timeline.mediaInUse)]

/-- The length of a window and the stretches of time that it meets. -/
def window (input : Value) : Result Value := do
  let window ← windowOf (field input "window")
  let ranges ← (items (field input "ranges")).mapM fun range => do
    match items range with
    | [a, b] => return Json.bool (window.intersects (← doubleOf a) (← doubleOf b))
    | _ => return .null
  return .object [("duration", .real window.duration), ("intersects", .list ranges)]

/-- The output at other sizes. -/
def scaled (input : Value) : Result Value := do
  let settings ← settingsOf (field input "settings")
  let pair (s : OutputFormat Double) : Value := .list [.int s.width, .int s.height]
  let scaled := (items (field input "factors")).map fun factor => shown report do
    let s : OutputFormat Double ← settings.scaled (← doubleOf factor)
    return pair s
  return .object [("resolution", pair settings), ("scaled", .list scaled)]

/-- The parts of clips inside a window, with their filters. -/
def slices (input : Value) : Result Value := do
  let window ← windowOf (field input "window")
  let media ← checked (Decode.mediaFile (field input "media"))
  let settings ← settingsOf (field input "settings")
  let volume ← match field input "volume" with
    | .null => pure (1 : Double)
    | v => doubleOf v
  let offset ← match field input "offset" with
    | .null => pure (Scalar.zero : Double)
    | v => doubleOf v
  let answers := (items (field input "clips")).map fun given => shown report do
    let (_, clip) ← checked (Decode.clip given)
    match Slice.ofClip? clip media window with
    | none => return Json.object [("slice", .null)]
    | some slice =>
      return .object [
        ("slice", Encode.slice slice),
        ("video", ← filterTexts (slice.videoFilters settings offset)),
        ("audio", ← filterTexts ({ slice with volume }.audioFilters settings))]
  return .list answers

/-- All slices of a timeline inside a window. -/
def collect (input : Value) : Result Value := do
  let timeline ← timelineOf input
  let media ← mediaOf (field input "media")
  let window ← windowOf (field input "window")
  let access := accessOf input media (isTrue (field input "use_proxies"))
  let (slices, gathered) :=
    Slice.gather access window (isTrue (field input "skip_images")) timeline.tracks {}
  return .object [
    ("slices", .list (slices.map Encode.slice)),
    ("diagnostics", Json.ofTexts gathered.diagnostics),
    ("inputs", Encode.inputs gathered.inputs)]

/-- The complexity of segments, of single times and of a whole timeline. -/
def complexity (input : Value) : Result Value := do
  let timeline ← timelineOf input
  let segments := (items (field input "segments")).map fun given => shown report do
    let (a, b) ← pairOf given
    return Encode.segment (timeline.segment a b)
  let points := (items (field input "points")).map fun given => shown report do
    let t ← doubleOf given
    return .list [.bool (timeline.isComplexAt t), Json.ofText? ((timeline.clipAt? t).map (·.id))]
  let whole ← match field input "chunk_duration" with
    | .null => pure []
    | given => pure [("timeline", shown report do
        let chunkDuration ← doubleOf given
        let total := (← optionalDouble (field input "total_duration")).getD timeline.duration
        let found : List (Segment Double) ← timeline.complexity total chunkDuration
        return .list (found.map Encode.segment))]
  return .object ([("segments", .list segments), ("points", .list points)] ++ whole)

/-- The windows into which durations are cut. -/
def partitions (input : Value) : Value :=
  .list ((items (field input "cases")).map fun given => shown report do
    let (duration, chunkDuration) ← pairOf given
    let windows : List (Window Double) ← partition duration chunkDuration
    return .list (windows.map fun w => .list [.real w.start, .real w.stop]))

end Montage.Service
