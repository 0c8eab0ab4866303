import Montage.Compose.Audio

/-!
The concat composition of a timeline whose tracks have no overlaps: each track becomes one
stream of clips and transparent fillers, and the streams are laid over each other without gates.
-/

namespace Montage

variable {τ : Type} [Scalar τ]

namespace Slice

/-- Slices by their start; slices of one start keep their order. -/
def byStart (slices : List (Slice τ)) : List (Slice τ) :=
  slices.mergeSort fun a b => !decide (b.localStart < a.localStart)

end Slice

/-- A transparent picture as a segment of a stream. -/
def addFiller (settings : OutputFormat τ) (duration : τ) (graph : FilterGraph τ) :
    Except GraphError (String × FilterGraph τ) := do
  let (label, graph) := graph.freshLabel "gap"
  let filters := [colorSource settings duration "black@0.0",
    .withValues "format" [.text "yuva420p"]]
  return (label, ← graph.add [] filters label)

/-- The segments of a stream of which the length `emitted` is already there. A gap that is too
short for a filler is carried over into the next one. -/
def addStreamSegments (settings : OutputFormat τ) :
    List (Slice τ) → τ → FilterGraph τ → Except GraphError (List String × τ × FilterGraph τ)
  | [], emitted, graph => .ok ([], emitted, graph)
  | slice :: rest, emitted, graph => do
    let gap := slice.localStart - emitted
    let (filler, emitted, graph) ←
      if Timeline.gapTolerance < gap then do
        let (label, graph) ← addFiller settings gap graph
        -- The sum need not be the start of the slice exactly.
        pure ([label], emitted + gap, graph)
      else pure ([], emitted, graph)
    let (label, graph) := graph.freshLabel "seg"
    let graph ← graph.add [slice.pad "v"] (slice.videoFilters settings Scalar.zero) label
    let (labels, emitted, graph) ←
      addStreamSegments settings rest (emitted + (slice.localStop - slice.localStart)) graph
    return (filler ++ label :: labels, emitted, graph)

/-- The stream of a track, filled up to the length of the window. -/
def addTrackStream (settings : OutputFormat τ) (duration : τ) (slices : List (Slice τ))
    (graph : FilterGraph τ) : Except GraphError (String × FilterGraph τ) := do
  let (labels, emitted, graph) ←
    addStreamSegments settings (Slice.byStart slices) Scalar.zero graph
  let (filler, graph) ←
    if Timeline.gapTolerance < duration - emitted then do
      let (label, graph) ← addFiller settings (duration - emitted) graph
      pure ([label], graph)
    else pure ([], graph)
  match labels ++ filler with
  | [segment] => return (segment, graph)
  | segments =>
    let (label, graph) := graph.freshLabel "track"
    let concat := .withOptions "concat"
      [("n", .int segments.length), ("v", .int 1), ("a", .int 0)]
    return (label, ← graph.add segments [concat] label)

/-- Streams laid over a canvas one after another; the label is that of the last canvas. -/
def addTrackStreams (settings : OutputFormat τ) (duration : τ) :
    List (List (Slice τ)) → String → FilterGraph τ →
      Except GraphError (String × FilterGraph τ)
  | [], canvas, graph => .ok (canvas, graph)
  | slices :: rest, canvas, graph => do
    let (stream, graph) ← addTrackStream settings duration slices graph
    let overlay := .withOptions "overlay" [("x", .int 0), ("y", .int 0)]
    let (next, graph) := graph.freshLabel "comp"
    let graph ← graph.add [canvas, stream] [overlay] next
    addTrackStreams settings duration rest next graph

/-- The slices of each track that has any in the window. -/
def gatherTracks (access : MediaAccess) (window : Window τ) :
    List (Track τ) → Gathered → List (List (Slice τ)) × Gathered
  | [], gathered => ([], gathered)
  | track :: rest, gathered =>
    let (slices, gathered) := Slice.gather access window false [track] gathered
    let (others, gathered) := gatherTracks access window rest gathered
    (if slices.isEmpty then others else slices :: others, gathered)

/-- The concat composition of a window. -/
def composeConcat (timeline : Timeline τ) (access : MediaAccess) (settings : OutputFormat τ)
    (window : Window τ) : Except ComposeError (Composition τ) := do
  let (trackSlices, gathered) := gatherTracks access window timeline.layersFromBottom {}
  let (audioSlices, gathered) := Slice.gather access window true timeline.heardTracks gathered
  let duration := window.duration
  if duration ≤ Scalar.zero && trackSlices.isEmpty && audioSlices.isEmpty then
    throw .nothingToRender
  let graph ← addBackground {} settings duration
  let (canvas, graph) ← addTrackStreams settings duration trackSlices baseLabel graph
  let graph ← addVideoOutput graph canvas
  let (audioOutput, graph) ← addAudioSequence settings duration audioSlices graph
  return {
    inputs := gathered.inputs, graph, duration, videoOutput := videoLabel
    audioOutput := some audioOutput, diagnostics := gathered.diagnostics }

end Montage
