import Montage.Encode.Report
import Montage.Encode.Timeline
import Montage.Run.Lines
import Montage.Run.TailBuffer
import Montage.Service.Request

/-!
Answers about the output of tools and about probed files.
-/

namespace Montage.Service

variable (report : Failure → Value)

/-- Timestamps in seconds. -/
def timestamps (input : Value) : Value :=
  .list ((texts (field input "values")).map fun text => shown report do
    let t : Option Double ← clockSeconds text
    return Json.ofReal? t)

/-- The lines of a stream. -/
def lines (input : Value) : Value :=
  Json.ofTexts (Lines.read ((items (field input "chunks")).map bytesOf))

/-- The end of a text after each addition to it. -/
def tail (input : Value) : Value :=
  let (_, values) := (texts (field input "appends")).foldl
    (fun (state : TailBuffer × List String) text =>
      let tail := state.1.append text
      (tail, state.2 ++ [tail.value]))
    ({ limit := intOf (field input "limit") }, [])
  Json.ofTexts values

/-- The updates that lines amount to, and the last one. -/
def progress (input : Value) : Result Value := do
  let duration ← optionalDouble (field input "duration")
  let mut parser : ProgressReader := { duration }
  let mut steps : List Value := []
  for line in items (field input "lines") do
    match items line with
    | [kind, text] =>
      let (answer, next) :=
        if textOf kind = "out" then parser.feedOutput (textOf text)
        else parser.feedMessage (textOf text)
      parser := next
      steps := steps ++ [shown report (do
        let update : Option EncoderProgress ← answer
        return Encode.progress? update)]
    | _ => pure ()
  return .object [("steps", .list steps), ("last", Encode.progress? parser.last)]

/-- The run of the probe that a request describes. -/
def probeRunOf (input : Value) : ProbeRun :=
  match field input "spawn_error" with
  | .text reason => .notStarted reason
  | _ =>
    let output := match input.get? "stdout" with
      | some j => bytesOf j
      | none => Text.Utf8.encode (Encode.text (field input "data"))
    .ended (intOf (field input "returncode")) output (bytesOf (field input "stderr"))

/-- A probe, its result beside its command. -/
def probed (input : Value) (arguments : List String)
    (answer : ProbeRun → String → Result Value) : Value :=
  let path := textOf (field input "path")
  match configOf input with
  | .error failure => .object [("result", report failure), ("cmd", .null)]
  | .ok config => .object [
      ("result", shown report (answer (probeRunOf input) path)),
      ("cmd", Json.ofTexts (ProbeRun.command config.probePath arguments path))]

/-- How deep values may be nested in what a probe writes. -/
def nesting : Nat := 980

/-- What is known of media files, from their reports or a run of the probe. -/
def probe (input : Value) : Value :=
  let item (run : ProbeRun) (path : String) : Result Value := do
    return Encode.mediaFile (← run.mediaFile nesting path (optionalText (field input "media_id")))
  let result (answer : Value) : Value := .object [("result", answer)]
  match textOf (field input "fn") with
  | "frame_rate" => result (.list ((items (field input "values")).map fun v =>
      shown report do return Json.ofReal? (← frameRateOf v)))
  | "guess" => result (.list ((texts (field input "paths")).map fun path =>
      .text (MediaType.ofPath path).name))
  | "parse" => shown report do
      return result (Encode.probedMedia (← ProbedMedia.ofReport (field input "data")))
  | "duration" => probed report input ProbeRun.durationArguments fun run path => do
      return .real (← run.duration nesting path)
  | "dimensions" => probed report input ProbeRun.dimensionArguments fun run path => do
      let (width, height) ← run.dimensions nesting path
      return .list [width, height]
  | "info" => probed report input ProbeRun.infoArguments fun run _ => do
      return Encode.probedMedia (← run.probedMedia nesting)
  | _ => probed report input ProbeRun.infoArguments item

end Montage.Service
