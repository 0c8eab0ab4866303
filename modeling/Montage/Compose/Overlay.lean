import Montage.Compose.Audio

/-!
The overlay composition of any window: every slice is laid over the background, from the bottom
layer to the top one, and shown only during its own time.
-/

namespace Montage

variable {τ : Type} [Scalar τ]

/-- Slices laid over a canvas one after another; the label is that of the last canvas. -/
def addOverlays (settings : OutputFormat τ) :
    List (Slice τ) → String → FilterGraph τ → Except GraphError (String × FilterGraph τ)
  | [], canvas, graph => .ok (canvas, graph)
  | slice :: rest, canvas, graph => do
    let (clipLabel, graph) := graph.freshLabel "clip"
    let graph ← graph.add [slice.pad "v"]
      (slice.videoFilters settings slice.localStart) clipLabel
    let overlay := .withOptions "overlay" [("x", .int 0), ("y", .int 0),
      ("enable", .gate slice.localStart slice.localStop)]
    let (next, graph) := graph.freshLabel "comp"
    let graph ← graph.add [canvas, clipLabel] [overlay] next
    addOverlays settings rest next graph

/-- The overlay composition of a window. -/
def composeOverlay (timeline : Timeline τ) (access : MediaAccess) (settings : OutputFormat τ)
    (window : Window τ) (silentAudio : Bool := true) :
    Except ComposeError (Composition τ) := do
  let (videoSlices, gathered) := Slice.gather access window false timeline.layersFromBottom {}
  let (audioSlices, gathered) := Slice.gather access window true timeline.heardTracks gathered
  let duration := window.duration
  if duration ≤ Scalar.zero && videoSlices.isEmpty && audioSlices.isEmpty then
    throw .nothingToRender
  let graph ← addBackground {} settings duration
  let (canvas, graph) ← addOverlays settings videoSlices baseLabel graph
  let graph ← addVideoOutput graph canvas
  let (audioOutput, graph) ← addAudioMix settings duration silentAudio audioSlices graph
  return {
    inputs := gathered.inputs, graph, duration, videoOutput := videoLabel, audioOutput
    diagnostics := gathered.diagnostics }

end Montage
