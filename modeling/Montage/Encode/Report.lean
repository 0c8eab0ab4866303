import Montage.Json.Writer
import Montage.Probe.Media
import Montage.Run.Outcome
import Montage.Run.Progress

/-!
Reports of tools as JSON values.
-/

namespace Montage.Encode

/-- The text of a number; one that is not finite is quoted. -/
def numberText (x : Double) : String :=
  if x.isFinite then plainLayout.text x else Json.quote true (Scalar.jsonText x)

/-- The text of a report. -/
def text (report : Json Double) : String := report.compact numberText

/-- How a run ended. -/
def runResult (result : RunOutcome) : List (String × Json Double) := [
  ("success", .bool result.success), ("exit_code", Json.ofInt? result.exitCode),
  ("stdout", .text result.output), ("stderr_tail", .text result.messageTail),
  ("error_kind", Json.ofText? (result.failure.map RunFailure.name)),
  ("error", Json.ofText? result.error), ("cancelled", .bool result.cancelled)]

def progress (update : EncoderProgress) : Json Double := .object [
  ("out_time", .real update.outTime), ("percent", .real update.percent),
  ("fps", Json.ofReal? update.rate), ("speed", Json.ofReal? update.speed),
  ("frame", Json.ofInt? update.frame), ("eta_s", Json.ofReal? update.remaining),
  ("finished", .bool update.finished)]

def progress? (update : Option EncoderProgress) : Json Double := (update.map progress).getD .null

def probedMedia (info : ProbedMedia) : Json Double := .object [
  ("duration", Json.ofReal? info.duration), ("width", info.width), ("height", info.height),
  ("frame_rate", Json.ofReal? info.frameRate), ("video_codec", info.videoCodec),
  ("audio_codec", info.audioCodec), ("sample_rate", Json.ofInt? info.sampleRate),
  ("channels", info.channels), ("has_video", .bool info.hasVideo),
  ("has_audio", .bool info.hasAudio)]

end Montage.Encode
