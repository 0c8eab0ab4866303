import Montage.Compose.Basic

/-!
The sound of a window. A mix puts each slice at its time with a delay and adds all of them up; a
sequence plays slices one after another with silence between them.
-/

namespace Montage

variable {τ : Type} [Scalar τ]

/-- The branches of a mix, each at its time in the window. -/
def addMixBranches (settings : OutputFormat τ) (duration : τ) :
    List (Slice τ) → FilterGraph τ → Except ComposeError (List String × FilterGraph τ)
  | [], graph => .ok ([], graph)
  | slice :: rest, graph => do
    let delay ← Scalar.round (slice.localStart * Scalar.whole 1000)
    let (label, graph) := graph.freshLabel "a"
    let graph ← graph.add [slice.pad "a"]
      (slice.audioFilters settings ++ [.withValues "adelay" [.delay delay],
        .withOptions "apad" [("whole_dur", .number duration)]]) label
    let (labels, graph) ← addMixBranches settings duration rest graph
    return (label :: labels, graph)

/-- The mix of slices, of which the label is that of its pad. Without slices it is silence if
`silentAudio` is set, and else there is no sound. -/
def addAudioMix (settings : OutputFormat τ) (duration : τ) (silentAudio : Bool)
    (slices : List (Slice τ)) (graph : FilterGraph τ) :
    Except ComposeError (Option String × FilterGraph τ) := do
  let (branches, graph) ← addMixBranches settings duration slices graph
  match branches with
  | [] =>
    if silentAudio then
      return (some audioLabel, ← graph.add [] (silenceFilters settings duration) audioLabel)
    else return (none, graph)
  | [branch] => return (some audioLabel, ← graph.add [branch] [.withValues "anull" []] audioLabel)
  | branches =>
    let mix := .withOptions "amix" [("inputs", .int branches.length),
      ("duration", .text "first"), ("dropout_transition", .int 0)]
    return (some audioLabel, ← graph.add branches [mix] audioLabel)

namespace Slice

/-- Whether a slice comes before another in a sequence: by its start, then by its end. -/
def before (a b : Slice τ) : Bool :=
  if a.localStart == b.localStart then a.localStop < b.localStop
  else a.localStart < b.localStart

/-- Slices in the order of a sequence; slices of the same times keep their order. -/
def inSequence (slices : List (Slice τ)) : List (Slice τ) :=
  slices.mergeSort fun a b => !before b a

/-- A slice without what lies before a time. -/
def startingAt (slice : Slice τ) (cursor : τ) : Slice τ :=
  if slice.localStart < cursor then
    { slice with
      localStart := cursor
      sourceIn := slice.sourceIn + (cursor - slice.localStart) }
  else slice

end Slice

/-- Silence as a segment of a sequence. -/
def addSilence (settings : OutputFormat τ) (duration : τ) (graph : FilterGraph τ) :
    Except GraphError (String × FilterGraph τ) := do
  let (label, graph) := graph.freshLabel "asil"
  return (label, ← graph.add [] (silenceFilters settings duration) label)

/-- The segments of a sequence from `cursor` on, for slices in order: a slice that has already
ended is left out, one that has begun loses its head, and silence stands before one that is yet
to begin. With the labels comes the end of the last segment. -/
def addSequenceSegments (settings : OutputFormat τ) :
    List (Slice τ) → τ → FilterGraph τ → Except GraphError (List String × τ × FilterGraph τ)
  | [], cursor, graph => .ok ([], cursor, graph)
  | slice :: rest, cursor, graph =>
    if slice.localStop ≤ cursor then addSequenceSegments settings rest cursor graph
    else do
      -- What is left of the slice starts at the cursor or behind it.
      let slice := slice.startingAt cursor
      let gap := slice.localStart - cursor
      let (silence, graph) ←
        if Scalar.zero < gap then do
          let (label, graph) ← addSilence settings gap graph
          pure ([label], graph)
        else pure ([], graph)
      let (label, graph) := graph.freshLabel "aseg"
      let graph ← graph.add [slice.pad "a"] (slice.audioFilters settings) label
      let (labels, cursor, graph) ← addSequenceSegments settings rest slice.localStop graph
      return (silence ++ label :: labels, cursor, graph)

/-- The sequence of slices, filled up with silence to the length of the window. Of two slices
that overlap, the one that starts first keeps the overlap. -/
def addAudioSequence (settings : OutputFormat τ) (duration : τ) (slices : List (Slice τ))
    (graph : FilterGraph τ) : Except GraphError (String × FilterGraph τ) := do
  let (labels, cursor, graph) ←
    addSequenceSegments settings (Slice.inSequence slices) Scalar.zero graph
  let (silence, graph) ←
    if Scalar.zero < duration - cursor then do
      let (label, graph) ← addSilence settings (duration - cursor) graph
      pure ([label], graph)
    else pure ([], graph)
  match labels ++ silence with
  | [] => return (audioLabel, ← graph.add [] (silenceFilters settings duration) audioLabel)
  | [segment] => return (audioLabel, ← graph.add [segment] [.withValues "anull" []] audioLabel)
  | segments =>
    let concat := .withOptions "concat"
      [("n", .int segments.length), ("v", .int 0), ("a", .int 1)]
    return (audioLabel, ← graph.add segments [concat] audioLabel)

end Montage
