import Montage.Compose.Concat
import Montage.Proofs.Compose.Layers
import Montage.Proofs.Compose.Sequence
import Montage.Proofs.Number.Exact

/-!
# The streams of tracks

The stream of a track is read from a graph as the segments that are joined to it, each with the
length for which it plays: clips, and fillers in between. Slices make a stream of their clips in the
order of their starts, with a filler wherever the stream is behind by more than the tolerance.

## Main definitions

* `StreamSegment` — what is read of the chain of a segment
* `FilterGraph.segments?`, `FilterGraph.stream?` — the segments that are joined under a label, and
  those of what is overlaid at all times
* `Slice.stream` — the segments of some slices

## Main results

* `addTrackStream_segments?` — slices become the segments of their stream
* `addTrackStreams_stacks` — the slices of tracks become streams, each above those before it
* `composeConcat_eq`, `concatGraph_pictures` — a composition shows what is read of its streams
-/

namespace Montage

/-- A part of a stream: a clip that is read from a pad or a filler, and for how long it plays. -/
structure StreamSegment (τ : Type) where
  pad : Option String
  length : τ

section Reading

variable {τ : Type} [Scalar τ]

/-- For how long a filter that makes or cuts pictures lets them play. -/
def Filter.length? (filter : Filter τ) : Option τ :=
  match filter.name, filter.positional, filter.option? "d", filter.option? "start",
    filter.option? "end" with
  | "color", _, some (.number length), _, _ => some length
  | "trim", [.int 0, .number length], _, _, _ => some length
  | "trim", [], _, some (.number start), some (.number stop) => some (stop - start)
  | _, _, _, _, _ => none

/-- How many segments a filter joins. -/
def Filter.joins? (filter : Filter τ) : Option Int :=
  match filter.name, filter.option? "n" with
  | "concat", some (.int n) => some n
  | _, _ => none

/-- The segment that a chain of filters makes. -/
def FilterChain.segment? (chain : FilterChain τ) : Option (StreamSegment τ) := do
  let length ← chain.filters.findSome? Filter.length?
  match chain.inputs with
  | [] => some { pad := none, length }
  | [pad] => some { pad := some pad, length }
  | _ => none

namespace FilterGraph

/-- The segment under a label. -/
def segment? (graph : FilterGraph τ) (label : String) : Option (StreamSegment τ) := do
  (← graph.stageProducing? label).segment?

/-- The segments that are joined under a label; a segment alone is joined to nothing. -/
def segments? (graph : FilterGraph τ) (label : String) : Option (List (StreamSegment τ)) := do
  let stage ← graph.stageProducing? label
  match stage.segment?, stage.filters with
  | some segment, _ => some [segment]
  | none, [joiner] =>
    if joiner.joins? = some (stage.inputs.length : Int) then stage.inputs.mapM graph.segment?
    else none
  | none, _ => none

/-- The segments of what is overlaid at all times. -/
def stream? (graph : FilterGraph τ) (overlay : Filter τ) (label : String) :
    Option (List (StreamSegment τ)) :=
  match overlay.option? "enable" with
  | none => graph.segments? label
  | some _ => none

variable {graph after : FilterGraph τ}

theorem segment?_mono (h : graph.Extends after) {label : String} {segment : StreamSegment τ}
    (reads : graph.segment? label = some segment) : after.segment? label = some segment := by
  unfold segment? at reads ⊢
  obtain ⟨stage, made, rest⟩ := Option.bind_eq_some_iff.mp reads
  exact Option.bind_eq_some_iff.mpr ⟨stage, h label stage made, rest⟩

theorem stream?_stable : Stable (stream? : Reading τ (List (StreamSegment τ))) := by
  intro graph after h overlay label segments reads
  unfold stream? segments? at reads ⊢
  split at reads
  · obtain ⟨stage, made, rest⟩ := Option.bind_eq_some_iff.mp reads
    refine Option.bind_eq_some_iff.mpr ⟨stage, h label stage made, ?_⟩
    split at rest
    · exact rest
    · split at rest
      · next joined =>
        rw [if_pos joined]
        refine mapM_eq_some_iff.mpr ?_
        exact (mapM_eq_some_iff.mp rest).imp fun _ _ read => segment?_mono h read
      · exact absurd rest (by simp)
    · exact absurd rest (by simp)
  · exact absurd reads (by simp)

end FilterGraph

end Reading

/-! ### Streams of slices -/

namespace StreamSegment

/-- The time at which segments end that begin at a time. -/
def stopOf (segments : List (StreamSegment Rat)) (t : Rat) : Rat :=
  t + (segments.map (·.length)).sum

theorem stopOf_append (before after : List (StreamSegment Rat)) (t : Rat) :
    stopOf (before ++ after) t = stopOf after (stopOf before t) := by
  simp [stopOf, add_assoc]

theorem stopOf_cons (segment : StreamSegment Rat) (rest : List (StreamSegment Rat)) (t : Rat) :
    stopOf (segment :: rest) t = stopOf rest (t + segment.length) := by
  simp [stopOf, add_assoc]

/-- A filler for a gap, unless the gap is too short for one. -/
def filler (gap : Rat) : List (StreamSegment Rat) :=
  if Timeline.gapTolerance < gap then [⟨none, gap⟩] else []

end StreamSegment

open StreamSegment

namespace Slice

/-- The segments of slices in order, of which the first begins at a time at the earliest. -/
def segments : List (Slice Rat) → Rat → List (StreamSegment Rat)
  | [], _ => []
  | slice :: rest, t =>
    filler (slice.localStart - t) ++ ⟨some (slice.pad "v"), slice.duration⟩ ::
      segments rest (stopOf (filler (slice.localStart - t)) t + slice.duration)

/-- The segments of the stream of some slices. -/
def stream (duration : Rat) (slices : List (Slice Rat)) : List (StreamSegment Rat) :=
  segments (byStart slices) 0 ++ filler (duration - stopOf (segments (byStart slices) 0) 0)

end Slice

variable {settings : OutputFormat Rat} {graph : FilterGraph Rat} {names : List String}

/-- A filler plays for its length. -/
theorem addFiller_segment? (settings : OutputFormat Rat) (gap : Rat) (tidy : graph.Tidy names) :
    ∃ label after, addFiller settings gap graph = .ok (label, after) ∧ after.Tidy names ∧
      graph.Extends after ∧ after.segment? label = some ⟨none, gap⟩ := by
  have filled : [colorSource settings gap "black@0.0",
      .withValues "format" [.text "yuva420p"]] ≠ [] := by simp
  obtain ⟨after, added, tidy, grows, made⟩ := tidy.addFresh (by decide : Wordy "gap") [] filled
  refine ⟨(graph.freshLabel "gap").1, after, ?_, tidy, grows, ?_⟩
  · unfold addFiller
    dsimp only
    rw [added]
    rfl
  · unfold FilterGraph.segment?
    rw [made]
    rfl

/-- A slice plays for its length, if it has as much of its source. -/
theorem Slice.segment?_videoFilters {slice : Slice Rat} {label : String}
    (even : slice.sourceOut = slice.sourceIn + slice.duration)
    (made : graph.stageProducing? label =
      some ⟨[slice.pad "v"], slice.videoFilters settings Scalar.zero, label⟩) :
    graph.segment? label = some ⟨some (slice.pad "v"), slice.duration⟩ := by
  have length : (slice.videoFilters settings Scalar.zero).findSome? Filter.length? =
      some slice.duration := by
    unfold videoFilters trimFilters
    split
    · simp [Filter.length?, Filter.withOptions, Filter.withValues, Filter.option?]
    · simp [Filter.length?, Filter.withOptions, Filter.option?, List.lookup_cons, even]
  unfold FilterGraph.segment?
  rw [made]
  simp only [Option.bind_eq_bind, Option.bind_some, FilterChain.segment?, length]

/-- A slice is added behind the filler for the gap in front of it, unless that is too short. -/
theorem addStreamSegments_cons (settings : OutputFormat Rat) (slice : Slice Rat)
    (rest : List (Slice Rat)) (t : Rat) (tidy : graph.Tidy names) :
    ∃ fillers filled, addStreamSegments settings (slice :: rest) t graph = (do
        let (label, graph) := filled.freshLabel "seg"
        let graph ← graph.add [slice.pad "v"] (slice.videoFilters settings Scalar.zero) label
        let (labels, stop, graph) ← addStreamSegments settings rest
          (stopOf (filler (slice.localStart - t)) t + slice.duration) graph
        return (fillers ++ label :: labels, stop, graph)) ∧
      filled.Tidy names ∧ graph.Extends filled ∧
      List.Forall₂ (fun label segment => filled.segment? label = some segment) fillers
        (filler (slice.localStart - t)) := by
  rw [addStreamSegments]
  unfold filler
  dsimp only
  by_cases wide : Timeline.gapTolerance < slice.localStart - t
  · obtain ⟨label, filled, added, tidy, grows, reads⟩ :=
      addFiller_segment? settings (slice.localStart - t) tidy
    rw [if_pos wide, if_pos wide]
    refine ⟨[label], filled, ?_, tidy, grows, .cons reads .nil⟩
    rw [added]
    simp [stopOf, Slice.duration, bind, Except.bind, pure, Except.pure]
  · rw [if_neg wide, if_neg wide]
    refine ⟨[], graph, ?_, tidy, .refl graph, .nil⟩
    simp [stopOf, Slice.duration, bind, Except.bind, pure, Except.pure]

/-- Slices become segments, each behind a filler if one is needed. -/
theorem addStreamSegments_reads (settings : OutputFormat Rat) (slices : List (Slice Rat))
    (even : ∀ slice ∈ slices, slice.sourceOut = slice.sourceIn + slice.duration) (t : Rat)
    (tidy : graph.Tidy names) :
    ∃ labels after, addStreamSegments settings slices t graph =
        .ok (labels, stopOf (Slice.segments slices t) t, after) ∧
      after.Tidy names ∧ graph.Extends after ∧
      List.Forall₂ (fun label segment => after.segment? label = some segment) labels
        (Slice.segments slices t) := by
  induction slices generalizing graph t with
  | nil => exact ⟨[], graph, by simp [addStreamSegments, Slice.segments, stopOf], tidy, .refl graph,
      .nil⟩
  | cons slice rest ih =>
    obtain ⟨fillers, filled, fill, tidy, grows, reads⟩ :=
      addStreamSegments_cons settings slice rest t tidy
    have chain : slice.videoFilters settings Scalar.zero ≠ [] := by simp [Slice.videoFilters]
    obtain ⟨placed, added, tidy, grows', made⟩ :=
      tidy.addFresh (by decide : Wordy "seg") [slice.pad "v"] chain
    obtain ⟨labels, after, done, tidy, grows'', reads'⟩ :=
      ih (fun other hother => even other (List.mem_cons_of_mem _ hother))
        (stopOf (filler (slice.localStart - t)) t + slice.duration) tidy
    -- The filler in front of the slice, the slice, and what follows.
    refine ⟨fillers ++ (filled.freshLabel "seg").1 :: labels, after, ?_, tidy,
      (grows.trans grows').trans grows'', ?_⟩
    · have stop : stopOf (Slice.segments (slice :: rest) t) t =
          stopOf (Slice.segments rest (stopOf (filler (slice.localStart - t)) t + slice.duration))
            (stopOf (filler (slice.localStart - t)) t + slice.duration) := by
        rw [Slice.segments, stopOf_append, stopOf_cons]
      rw [fill, stop]
      dsimp only [bind, Except.bind]
      rw [added]
      dsimp only
      rw [done]
      rfl
    · have read := Slice.segment?_videoFilters (even slice List.mem_cons_self) made
      exact List.rel_append
        (reads.imp fun _ _ read => FilterGraph.segment?_mono (grows'.trans grows'') read)
        (.cons (FilterGraph.segment?_mono grows'' read) reads')

/-- The segments of a stream are made first, with a filler up to the end, and then joined. -/
theorem addTrackStream_eq (settings : OutputFormat Rat) (duration : Rat)
    (slices : List (Slice Rat))
    (even : ∀ slice ∈ slices, slice.sourceOut = slice.sourceIn + slice.duration)
    (tidy : graph.Tidy names) :
    ∃ labels filled, addTrackStream settings duration slices graph = (match labels with
        | [segment] => return (segment, filled)
        | segments =>
          let (label, graph) := filled.freshLabel "track"
          let concat := .withOptions "concat"
            [("n", .int segments.length), ("v", .int 1), ("a", .int 0)]
          return (label, ← graph.add segments [concat] label)) ∧
      filled.Tidy names ∧ graph.Extends filled ∧
      List.Forall₂ (fun label segment => filled.segment? label = some segment) labels
        (Slice.stream duration slices) := by
  have even : ∀ slice ∈ Slice.byStart slices,
      slice.sourceOut = slice.sourceIn + slice.duration := fun slice h =>
    even slice (List.mem_mergeSort.mp h)
  obtain ⟨labels, after, done, tidy, grows, reads⟩ :=
    addStreamSegments_reads settings (Slice.byStart slices) even 0 tidy
  unfold addTrackStream Slice.stream filler
  rw [Scalar.zero_rat, done]
  by_cases wide : Timeline.gapTolerance <
      duration - stopOf (Slice.segments (Slice.byStart slices) 0) 0
  · obtain ⟨label, filled, added, tidy, grows', read⟩ :=
      addFiller_segment? settings
        (duration - stopOf (Slice.segments (Slice.byStart slices) 0) 0) tidy
    rw [if_pos wide]
    refine ⟨labels ++ [label], filled, ?_, tidy, grows.trans grows', List.rel_append
      (reads.imp fun _ _ read => FilterGraph.segment?_mono grows' read) (.cons read .nil)⟩
    simp only [bind, Except.bind, if_pos wide, added]
    rfl
  · rw [if_neg wide]
    refine ⟨labels, after, ?_, tidy, grows, by simpa using reads⟩
    rcases labels with _ | ⟨segment, _ | ⟨next, rest⟩⟩ <;>
      simp [bind, Except.bind, if_neg wide, pure, Except.pure]

/-- What is joined under a fresh label is read as its segments. -/
theorem addConcat_segments? (tidy : graph.Tidy names) {labels : List String}
    {segments : List (StreamSegment Rat)}
    (reads : List.Forall₂ (fun label segment => graph.segment? label = some segment) labels
      segments) :
    ∃ after, (graph.freshLabel "track").2.add labels
        [.withOptions "concat" [("n", .int labels.length), ("v", .int 1), ("a", .int 0)]]
        (graph.freshLabel "track").1 = .ok after ∧ after.Tidy names ∧ graph.Extends after ∧
      after.segments? (graph.freshLabel "track").1 = some segments := by
  have filled : [(.withOptions "concat"
      [("n", .int labels.length), ("v", .int 1), ("a", .int 0)] : Filter Rat)] ≠ [] := by simp
  obtain ⟨after, added, tidy, grows, made⟩ :=
    tidy.addFresh (by decide : Wordy "track") labels filled
  refine ⟨after, added, tidy, grows, ?_⟩
  unfold FilterGraph.segments?
  rw [made]
  change (if some (labels.length : Int) = some (labels.length : Int) then
    labels.mapM after.segment? else none) = _
  rw [if_pos rfl]
  exact mapM_eq_some_iff.mpr (reads.imp fun _ _ read => FilterGraph.segment?_mono grows read)

/-- A segment is read as the only one of its stream. -/
theorem segments?_of_segment? {label : String} {segment : StreamSegment Rat}
    (read : graph.segment? label = some segment) : graph.segments? label = some [segment] := by
  unfold FilterGraph.segment? at read
  unfold FilterGraph.segments?
  obtain ⟨stage, made, read⟩ := Option.bind_eq_some_iff.mp read
  rw [made]
  simp only [Option.bind_eq_bind, Option.bind_some, read]

/-- Slices become the segments of their stream. -/
theorem addTrackStream_segments? (settings : OutputFormat Rat) (duration : Rat)
    (slices : List (Slice Rat))
    (even : ∀ slice ∈ slices, slice.sourceOut = slice.sourceIn + slice.duration)
    (tidy : graph.Tidy names) :
    ∃ label after, addTrackStream settings duration slices graph = .ok (label, after) ∧
      after.Tidy names ∧ graph.Extends after ∧
      after.segments? label = some (Slice.stream duration slices) := by
  obtain ⟨labels, filled, joined, tidy, grows, reads⟩ :=
    addTrackStream_eq settings duration slices even tidy
  rw [joined]
  obtain ⟨after, added, tidy', grows', read⟩ := addConcat_segments? tidy reads
  rcases labels with _ | ⟨segment, _ | ⟨next, rest⟩⟩
  · refine ⟨_, after, ?_, tidy', grows.trans grows', read⟩
    dsimp only
    rw [added]
    rfl
  · obtain ⟨only, others, head, tail, whole⟩ := List.forall₂_cons_left_iff.mp reads
    rw [List.forall₂_nil_left_iff.mp tail] at whole
    exact ⟨segment, filled, rfl, tidy, grows, whole ▸ segments?_of_segment? head⟩
  · refine ⟨_, after, ?_, tidy', grows.trans grows', read⟩
    dsimp only
    rw [added]
    rfl

/-- The slices of tracks become streams, each above those before it. -/
theorem addTrackStreams_stacks (settings : OutputFormat Rat) (duration : Rat)
    (tracks : List (List (Slice Rat)))
    (even : ∀ slices ∈ tracks, ∀ slice ∈ slices,
      slice.sourceOut = slice.sourceIn + slice.duration) {canvas : String}
    {streams : List (List (StreamSegment Rat))} (tidy : graph.Tidy names)
    (layered : graph.Stacks FilterGraph.stream? canvas streams) :
    ∃ label after, addTrackStreams settings duration tracks canvas graph = .ok (label, after) ∧
      after.Tidy names ∧ graph.Extends after ∧
      after.Stacks FilterGraph.stream? label (streams ++ tracks.map (Slice.stream duration)) := by
  induction tracks generalizing graph canvas streams with
  | nil => exact ⟨canvas, graph, rfl, tidy, .refl graph, by simpa using layered⟩
  | cons slices rest ih =>
    obtain ⟨stream, made, done, tidy, grows, read⟩ :=
      addTrackStream_segments? settings duration slices (even slices List.mem_cons_self) tidy
    let overlay : Filter Rat := .withOptions "overlay" [("x", .int 0), ("y", .int 0)]
    have filled : [overlay] ≠ [] := by simp
    obtain ⟨laid, added, tidy, grows', made'⟩ :=
      tidy.addFresh (by decide : Wordy "comp") [canvas, stream] filled
    have below := layered.mono FilterGraph.stream?_stable (grows.trans grows')
    have reads : laid.stream? overlay stream = some (Slice.stream duration slices) :=
      FilterGraph.stream?_stable grows' read
    have stacked := FilterGraph.Stacks.above below made' rfl reads
    obtain ⟨label, after, done', tidy, grows'', layered⟩ :=
      ih (fun others h => even others (List.mem_cons_of_mem _ h)) tidy stacked
    refine ⟨label, after, ?_, tidy, (grows.trans grows').trans grows'', ?_⟩
    · rw [addTrackStreams, done]
      dsimp only [bind, Except.bind]
      rw [added]
      exact done'
    · simpa using layered

/-! ### Compositions -/

section Compositions

variable {τ : Type} [Scalar τ]

/-- The graph of a window with the slices of some tracks, and the label of its sound. -/
def concatGraph (settings : OutputFormat τ) (duration : τ) (trackSlices : List (List (Slice τ)))
    (audioSlices : List (Slice τ)) : Except ComposeError (String × FilterGraph τ) := do
  let graph ← addBackground {} settings duration
  let (canvas, graph) ← addTrackStreams settings duration trackSlices baseLabel graph
  let graph ← addVideoOutput graph canvas
  addAudioSequence settings duration audioSlices graph

/-- What is read of the streams of tracks is the picture of their graph, whatever is heard. -/
theorem concatGraph_pictures {α : Type} {read : FilterGraph.Reading τ α}
    (stable : FilterGraph.Stable read) {settings : OutputFormat τ} {duration : τ} {layers : List α}
    {trackSlices : List (List (Slice τ))} (audioSlices : List (Slice τ))
    (lays : ∀ graph : FilterGraph τ, graph.Tidy [baseLabel] → graph.Stacks read baseLabel [] →
      Gives (addTrackStreams settings duration trackSlices baseLabel graph) fun (canvas, after) =>
        after.Tidy [baseLabel] ∧ graph.Extends after ∧ after.Stacks read canvas layers) :
    Gives (concatGraph settings duration trackSlices audioSlices) fun made =>
      made.2.Pictures read layers := by
  refine pictures_of_stacks stable settings duration lays fun graph tidy => ?_
  obtain ⟨labels, after, done, grows, -⟩ :=
    addAudioSequence_adds settings duration audioSlices tidy (by decide)
  exact Yields.lift_graph (gives_of_eq done grows)

/-- A composition is what was gathered, with the graph of the slices. -/
theorem composeConcat_eq (timeline : Timeline τ) (access : MediaAccess) (settings : OutputFormat τ)
    (window : Window τ) :
    composeConcat timeline access settings window =
      let video := gatherTracks access window timeline.layersFromBottom {}
      let audio := Slice.gather access window true timeline.heardTracks video.2
      if window.duration ≤ Scalar.zero && video.1.isEmpty && audio.1.isEmpty then
        .error .nothingToRender
      else (concatGraph settings window.duration video.1 audio.1).map fun made => {
        inputs := audio.2.inputs, graph := made.2, duration := window.duration
        videoOutput := videoLabel, audioOutput := some made.1
        diagnostics := audio.2.diagnostics } := by
  unfold composeConcat concatGraph
  dsimp only
  generalize gatherTracks access window timeline.layersFromBottom {} = video
  generalize Slice.gather access window true timeline.heardTracks video.2 = audio
  split
  · rfl
  · -- Stage by stage, both sides fail where the other does.
    dsimp only [bind, Except.bind]
    cases addBackground {} settings window.duration with
    | error cause => rfl
    | ok graph =>
      dsimp only [liftM_graph_ok]
      cases addTrackStreams settings window.duration video.1 baseLabel graph with
      | error cause => rfl
      | ok laid =>
        dsimp only [liftM_graph_ok]
        cases addVideoOutput laid.2 laid.1 with
        | error cause => rfl
        | ok graph => cases addAudioSequence settings window.duration audio.1 graph <;> rfl

end Compositions

end Montage
