import Montage.Complexity
import Montage.Compose.Basic
import Montage.Json.Basic

/-!
Slices, compositions and the complexity of segments as JSON values.
-/

namespace Montage.Encode

def inputs (inputs : List InputFile) : Json Double :=
  .list (inputs.map fun source =>
    .list [.int source.index, .text source.mediaId, .text source.path])

def slice (slice : Slice Double) : Json Double := .object [
  ("clip", .text slice.clip.id), ("media", .text slice.media.id),
  ("local_start", .real slice.localStart), ("local_end", .real slice.localStop),
  ("source_in", .real slice.sourceIn), ("source_out", .real slice.sourceOut),
  ("duration", .real slice.duration), ("input_index", .int slice.inputIndex),
  ("volume", .real slice.volume)]

def composition (c : Composition Double) : Except NumberError (Json Double) := do
  let graph : String ← c.graph.print
  return .object [
    ("inputs", inputs c.inputs), ("filter_complex", .text graph),
    ("maps", .list (c.maps.map .text)), ("duration", .real c.duration),
    ("diagnostics", Json.ofTexts c.diagnostics), ("success", .bool c.complete),
    ("video_output", .text c.videoOutput), ("audio_output", Json.ofText? c.audioOutput),
    ("stages", .int c.graph.stages.length)]

def segment (segment : Segment Double) : Json Double := .object [
  ("start", .real segment.start), ("end", .real segment.stop),
  ("is_complex", .bool segment.isComplex),
  ("reasons", Json.ofTexts (segment.reasons.map Complication.name))]

end Montage.Encode
