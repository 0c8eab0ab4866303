import Montage.Proofs.Compose.Footprint
import Montage.Proofs.Compose.Sources
import Montage.Proofs.Compose.Stream

/-!
# Both compositions have the same sources

A clip is read from a graph as the pad that it reads and its filters, apart from the one that shifts
its time stamps. In an overlay composition each clip is laid over the canvas on its own; in a concat
composition the clips of a track are segments of one stream, among fillers. Read in this way, both
compositions of a window show the same clips of the same inputs: track by track they are the same
but for the order, and in the same order if the clips of a track are stored by their start.

## Main definitions

* `ClipChain` — what is read of a clip
* `FilterGraph.clip?`, `FilterGraph.clips?` — the clip that is overlaid, and the clips of a stream
* `Composition.SameSources` — an overlay and a concat composition show the same clips

## Main results

* `compose_agrees` — both compositors agree on their sources, or find nothing to render
-/

namespace Montage

/-- What is read of the stage of a clip: its pad, and its filters apart from the shift of time. -/
structure ClipChain (τ : Type) where
  pad : String
  filters : List (Filter τ)

section Reading

variable {τ : Type}

/-- The clip that a stage makes; a stage that reads no pad or joins pads makes none. -/
def FilterChain.clip? (stage : FilterChain τ) : Option (ClipChain τ) :=
  match stage.inputs with
  | [pad] => some { pad, filters := stage.filters.filter (·.name ≠ "setpts") }
  | _ => none

namespace FilterGraph

/-- The clip that is overlaid. -/
def clip? (graph : FilterGraph τ) (_ : Filter τ) (label : String) : Option (ClipChain τ) := do
  (← graph.stageProducing? label).clip?

/-- The clips among the stages under some labels. -/
def clipsUnder? (graph : FilterGraph τ) (labels : List String) : Option (List (ClipChain τ)) := do
  return (← labels.mapM graph.stageProducing?).filterMap FilterChain.clip?

/-- The clips of a stream that is overlaid; a clip alone is joined to nothing. -/
def clips? [Scalar τ] (graph : FilterGraph τ) (_ : Filter τ) (label : String) :
    Option (List (ClipChain τ)) := do
  let stage ← graph.stageProducing? label
  match stage.clip?, stage.filters with
  | some clip, _ => some [clip]
  | none, [joiner] =>
    if joiner.joins? = some (stage.inputs.length : Int) then graph.clipsUnder? stage.inputs
    else none
  | none, _ => none

variable {graph after : FilterGraph τ} {labels others : List String}
  {clips clips' : List (ClipChain τ)}

theorem clipsUnder?_eq_some : graph.clipsUnder? labels = some clips ↔
    ∃ stages, List.Forall₂ (fun label stage => graph.stageProducing? label = some stage) labels
      stages ∧ stages.filterMap FilterChain.clip? = clips := by
  unfold clipsUnder?
  simp only [Option.bind_eq_bind, Option.bind_eq_some_iff, mapM_eq_some_iff, Option.pure_def,
    Option.some.injEq]

theorem clipsUnder?_mono (h : graph.Extends after) (reads : graph.clipsUnder? labels = some clips) :
    after.clipsUnder? labels = some clips := by
  obtain ⟨stages, made, rfl⟩ := clipsUnder?_eq_some.mp reads
  exact clipsUnder?_eq_some.mpr ⟨stages, made.imp fun label stage => h label stage, rfl⟩

theorem clipsUnder?_append (reads : graph.clipsUnder? labels = some clips)
    (reads' : graph.clipsUnder? others = some clips') :
    graph.clipsUnder? (labels ++ others) = some (clips ++ clips') := by
  obtain ⟨stages, made, rfl⟩ := clipsUnder?_eq_some.mp reads
  obtain ⟨stages', made', rfl⟩ := clipsUnder?_eq_some.mp reads'
  exact clipsUnder?_eq_some.mpr ⟨_, List.rel_append made made', List.filterMap_append⟩

theorem clip?_stable : Stable (clip? : Reading τ (ClipChain τ)) := by
  intro graph after h overlay label clip reads
  unfold clip? at reads ⊢
  obtain ⟨stage, made, rest⟩ := Option.bind_eq_some_iff.mp reads
  exact Option.bind_eq_some_iff.mpr ⟨stage, h label stage made, rest⟩

theorem clips?_stable [Scalar τ] : Stable (clips? : Reading τ (List (ClipChain τ))) := by
  intro graph after h overlay label clips reads
  unfold clips? at reads ⊢
  obtain ⟨stage, made, rest⟩ := Option.bind_eq_some_iff.mp reads
  refine Option.bind_eq_some_iff.mpr ⟨stage, h label stage made, ?_⟩
  split at rest
  · exact rest
  · split at rest
    · next joined =>
      rw [if_pos joined]
      exact clipsUnder?_mono h rest
    · exact absurd rest (by simp)
  · exact absurd rest (by simp)

/-- What a part of a composition adds to a graph: stages under some labels, with some clips. -/
structure Grown (graph after : FilterGraph τ) (names labels : List String)
    (clips : List (ClipChain τ)) : Prop where
  tidy : after.Tidy names
  grows : graph.Extends after
  reads : after.clipsUnder? labels = some clips

variable {made : FilterGraph τ} {names inputs : List String} {stem : String}
  {filters : List (Filter τ)}

theorem Tidy.grown (tidy : graph.Tidy names) : graph.Grown graph names [] [] :=
  ⟨tidy, .refl graph, rfl⟩

/-- What is added behind something else comes behind it. -/
theorem Grown.append (h : graph.Grown made names labels clips)
    (h' : made.Grown after names others clips') :
    graph.Grown after names (labels ++ others) (clips ++ clips') where
  tidy := h'.tidy
  grows := h.grows.trans h'.grows
  reads := clipsUnder?_append (clipsUnder?_mono h'.grows h.reads) h'.reads

/-- A stage under a number that was not given out. -/
theorem Tidy.grown_fresh (tidy : graph.Tidy names) (wordy : Wordy stem) (inputs : List String)
    (filled : filters ≠ []) :
    Gives ((graph.freshLabel stem).2.add inputs filters (graph.freshLabel stem).1) fun after =>
      graph.Grown after names [(graph.freshLabel stem).1]
        (FilterChain.clip? ⟨inputs, filters, (graph.freshLabel stem).1⟩).toList := by
  refine (tidy.gives_fresh wordy inputs filled).imp (fun _ => id) ?_
  rintro after ⟨tidy, grows, made⟩
  refine ⟨tidy, grows, clipsUnder?_eq_some.mpr ⟨_, .cons made .nil, ?_⟩⟩
  rw [List.filterMap_cons]
  cases FilterChain.clip? ⟨inputs, filters, (graph.freshLabel stem).1⟩ <;> rfl

end FilterGraph

end Reading

variable {τ : Type} [Scalar τ]

/-! ### Clips of slices -/

/-- The clip that a slice becomes: cut out of its source or held still, fitted into the picture, and
brought to the frame rate. -/
def Slice.chain (settings : OutputFormat τ) (slice : Slice τ) : ClipChain τ where
  pad := slice.pad "v"
  filters := slice.trimFilters ++ fitFilters settings ++
    [.withValues "fps" [.number settings.frameRate.value],
      .withValues "format" [.text "yuva420p"]]

/-- The clips of a track, as the final inputs determine them. -/
def Track.chains (track : Track τ) (access : MediaAccess) (settings : OutputFormat τ)
    (window : Window τ) (inputs : List InputFile) : List (ClipChain τ) :=
  (track.slices access window inputs).map (Slice.chain settings)

section Graphs

open FilterGraph

variable {settings : OutputFormat τ} {graph : FilterGraph τ} {names : List String}

/-- Wherever its first frame is put, a slice is read as its clip. -/
theorem Slice.clip?_videoFilters (slice : Slice τ) (settings : OutputFormat τ) (offset : τ)
    (label : String) :
    FilterChain.clip? ⟨[slice.pad "v"], slice.videoFilters settings offset, label⟩ =
      some (slice.chain settings) := by
  have fit : (fitFilters settings).filter (·.name ≠ "setpts") = fitFilters settings := by
    simp [fitFilters, Filter.withValues]
  have trim : slice.trimFilters.filter (·.name ≠ "setpts") = slice.trimFilters := by
    unfold trimFilters
    split <;> simp [Filter.withOptions, Filter.withValues]
  unfold FilterChain.clip? videoFilters chain
  simp only [List.filter_append, fit, trim]
  simp [Filter.withValues]

theorem addFiller_grown (settings : OutputFormat τ) (gap : τ) (tidy : graph.Tidy names) :
    Gives (addFiller settings gap graph) fun (label, after) =>
      graph.Grown after names [label] [] :=
  Yields.bind (tidy.grown_fresh (by decide : Wordy "gap") [] (by simp)) fun _ grown => grown

/-- Slices become segments with their clips, whatever fillers stand in between. -/
theorem addStreamSegments_grown (settings : OutputFormat τ) (slices : List (Slice τ)) (emitted : τ)
    (tidy : graph.Tidy names) :
    Gives (addStreamSegments settings slices emitted graph) fun (labels, _, after) =>
      graph.Grown after names labels (slices.map (Slice.chain settings)) := by
  induction slices generalizing graph emitted with
  | nil => exact tidy.grown
  | cons slice rest ih =>
    -- What is done with the slice and the rest, with or without a filler in front of it.
    have follow (filler : List String) (emitted : τ) {filled : FilterGraph τ}
        (grown : graph.Grown filled names filler []) :
        Gives (do
          let placed ← (filled.freshLabel "seg").2.add [slice.pad "v"]
            (slice.videoFilters settings Scalar.zero) (filled.freshLabel "seg").1
          let made ← addStreamSegments settings rest
            (emitted + (slice.localStop - slice.localStart)) placed
          return (filler ++ (filled.freshLabel "seg").1 :: made.1, made.2)) fun made =>
            graph.Grown made.2.2 names made.1
              (slice.chain settings :: rest.map (Slice.chain settings)) := by
      refine Yields.bind (grown.tidy.grown_fresh (by decide : Wordy "seg") [slice.pad "v"]
        (by simp [Slice.videoFilters])) fun placed grown' => ?_
      rw [Slice.clip?_videoFilters] at grown'
      exact Yields.bind (ih _ grown'.tidy) fun made grown'' => grown.append (grown'.append grown'')
    rw [addStreamSegments]
    dsimp only
    split
    · exact Yields.bind (addFiller_grown settings _ tidy) fun filled grown =>
        follow [filled.1] _ grown
    · exact follow [] _ tidy.grown

/-- Segments that are joined are read as the clips among them, and so is a segment on its own. -/
theorem joinSegments_clips? {made : FilterGraph τ} {labels : List String}
    {clips : List (ClipChain τ)} (grown : graph.Grown made names labels clips) (filled : clips ≠ []) :
    Gives (match labels with
      | [segment] => return (segment, made)
      | segments =>
        let (label, graph) := made.freshLabel "track"
        let concat := Filter.withOptions "concat"
          [("n", .int segments.length), ("v", .int 1), ("a", .int 0)]
        return (label, ← graph.add segments [concat] label)) fun (label, after) =>
          after.Tidy names ∧ graph.Extends after ∧
            ∀ overlay, after.clips? overlay label = some clips := by
  obtain ⟨stages, under, found⟩ := clipsUnder?_eq_some.mp grown.reads
  have joined := grown.tidy.gives_fresh (by decide : Wordy "track") labels
    (List.cons_ne_nil (Filter.withOptions "concat"
      [("n", .int labels.length), ("v", .int 1), ("a", .int 0)] : Filter τ) [])
  -- A stream of no segment has no clip, one of a single segment is that, and others are joined.
  rcases labels with _ | ⟨segment, _ | ⟨second, rest⟩⟩
  · rw [List.forall₂_nil_left_iff.mp under] at found
    exact absurd found.symm filled
  · obtain ⟨stage, others, here, none, rfl⟩ := List.forall₂_cons_left_iff.mp under
    rw [List.forall₂_nil_left_iff.mp none, List.filterMap_cons] at found
    refine ⟨grown.tidy, grown.grows, fun overlay => ?_⟩
    unfold clips?
    rw [here]
    cases clip : stage.clip? with
    | none => simp [clip, filled.symm] at found
    | some only =>
      simp only [clip, List.filterMap_nil] at found
      simp [clip, found]
  · refine Yields.bind joined ?_
    rintro after ⟨tidy, grows, stage⟩
    refine ⟨tidy, grown.grows.trans grows, fun overlay => ?_⟩
    change after.clips? overlay (made.freshLabel "track").1 = _
    unfold clips?
    rw [stage]
    -- The joined stage reads more than one pad, so it is no clip, and it is told how many.
    change (if some ((segment :: second :: rest).length : Int) =
      some ((segment :: second :: rest).length : Int) then _ else none) = _
    rw [if_pos rfl]
    exact clipsUnder?_mono grows grown.reads

/-- A stream is read as the clips of its slices by their start. -/
theorem addTrackStream_clips? (settings : OutputFormat τ) (duration : τ) {slices : List (Slice τ)}
    (filled : slices ≠ []) (tidy : graph.Tidy names) :
    Gives (addTrackStream settings duration slices graph) fun (label, after) =>
      after.Tidy names ∧ graph.Extends after ∧ ∀ overlay, after.clips? overlay label =
        some ((Slice.byStart slices).map (Slice.chain settings)) := by
  -- No slice is lost when they are sorted, so that there is something to join.
  have shown : (Slice.byStart slices).map (Slice.chain settings) ≠ [] := by
    intro none
    have sorted := (List.mergeSort_perm slices
      fun a b => !decide (b.localStart < a.localStart)).length_eq
    rw [show slices.mergeSort _ = [] from List.map_eq_nil_iff.mp none] at sorted
    exact filled (List.length_eq_zero_iff.mp sorted.symm)
  refine Yields.bind (addStreamSegments_grown settings (Slice.byStart slices) Scalar.zero tidy) ?_
  rintro ⟨labels, emitted, made⟩ grown
  dsimp only
  split
  · refine Yields.bind (addFiller_grown settings _ grown.tidy) ?_
    rintro ⟨label, filled⟩ grown'
    have whole := grown.append grown'
    rw [List.append_nil] at whole
    exact joinSegments_clips? whole shown
  · have whole := grown.append grown.tidy.grown
    rw [List.append_nil (List.map _ _)] at whole
    exact joinSegments_clips? whole shown

/-- The slices of tracks are laid over a canvas as streams of their clips. -/
theorem addTrackStreams_clips? (settings : OutputFormat τ) (duration : τ)
    {tracks : List (List (Slice τ))} (filled : ∀ slices ∈ tracks, slices ≠ []) {canvas : String}
    {streams : List (List (ClipChain τ))} (tidy : graph.Tidy names)
    (stacked : graph.Stacks clips? canvas streams) :
    Gives (addTrackStreams settings duration tracks canvas graph) fun (label, after) =>
      after.Tidy names ∧ graph.Extends after ∧ after.Stacks clips? label (streams ++
        tracks.map fun slices => (Slice.byStart slices).map (Slice.chain settings)) := by
  induction tracks generalizing graph canvas streams with
  | nil => exact ⟨tidy, .refl graph, by simpa using stacked⟩
  | cons slices rest ih =>
    obtain ⟨first, others⟩ := List.forall_mem_cons.mp filled
    refine Yields.bind (addTrackStream_clips? settings duration first tidy) ?_
    rintro ⟨stream, made⟩ ⟨tidy, grows, reads⟩
    refine Yields.bind (tidy.gives_fresh (by decide : Wordy "comp") [canvas, stream] (by simp)) ?_
    rintro laid ⟨tidy, grows', stage⟩
    have below := stacked.mono clips?_stable (grows.trans grows')
    have above := Stacks.above below stage rfl (clips?_stable grows' (reads _))
    refine (ih others tidy above).imp (fun _ => id) ?_
    rintro ⟨label, after⟩ ⟨tidy, grows'', stacked⟩
    exact ⟨tidy, (grows.trans grows').trans grows'', by simpa using stacked⟩

theorem clip?_reads (settings : OutputFormat τ) : Reads clip? settings (Slice.chain settings) := by
  intro graph label slice made
  unfold clip?
  rw [made]
  exact slice.clip?_videoFilters settings _ label

/-- The picture of a concat composition is of streams of clips. -/
theorem concatGraph_clips? (settings : OutputFormat τ) (duration : τ)
    {trackSlices : List (List (Slice τ))} (filled : ∀ slices ∈ trackSlices, slices ≠ [])
    (audioSlices : List (Slice τ)) :
    Gives (concatGraph settings duration trackSlices audioSlices) fun made =>
      made.2.Pictures clips?
        (trackSlices.map fun slices => (Slice.byStart slices).map (Slice.chain settings)) :=
  concatGraph_pictures clips?_stable audioSlices fun _ tidy based =>
    addTrackStreams_clips? settings duration filled tidy based

end Graphs

/-! ### Compositions -/

/-- An overlay and a concat composition of a window have the same inputs and show the same clips of
each track. -/
structure Composition.SameSources (timeline : Timeline τ) (access : MediaAccess)
    (settings : OutputFormat τ) (window : Window τ) (overlay concat : Composition τ) : Prop where
  inputs : overlay.inputs = concat.inputs
  diagnostics : overlay.diagnostics = concat.diagnostics
  duration : overlay.duration = concat.duration
  overlaid : overlay.graph.Pictures FilterGraph.clip? (timeline.layersFromBottom.flatMap
    fun track => track.chains access settings window overlay.inputs)
  streamed : ∃ streams, concat.graph.Pictures FilterGraph.clips? streams ∧
    List.Forall₂ (fun track stream =>
        stream.Perm (track.chains access settings window overlay.inputs) ∧
        ((track.clips.Pairwise fun a b => ¬ b.start < a.start) →
          stream = track.chains access settings window overlay.inputs))
      (timeline.layersFromBottom.filter fun track =>
        !(track.chains access settings window overlay.inputs).isEmpty)
      streams

/-- A window that has length has a concat composition. -/
theorem exists_composeConcat (timeline : Timeline τ) (access : MediaAccess)
    (settings : OutputFormat τ) {window : Window τ} (long : ¬ window.duration ≤ Scalar.zero) :
    ∃ composition, composeConcat timeline access settings window = .ok composition := by
  have yields := composeConcat_yields timeline access settings window
  cases composed : composeConcat timeline access settings window with
  | ok composition => exact ⟨composition, rfl⟩
  | error cause =>
    rw [composed] at yields
    exact absurd yields.2 long

/-- No track has slices exactly if there are none at all. -/
theorem isEmpty_filter_slices {access : MediaAccess} {window : Window τ} {inputs : List InputFile}
    (tracks : List (Track τ)) :
    ((tracks.map fun track => track.slices access window inputs).filter (!·.isEmpty)).isEmpty =
      (tracks.flatMap fun track => track.slices access window inputs).isEmpty := by
  rw [Bool.eq_iff_iff, List.isEmpty_iff, List.isEmpty_iff, List.filter_eq_nil_iff,
    List.flatMap_eq_nil_iff, List.forall_mem_map]
  simp

/-- The streams of tracks are of their clips, and in their order if the clips are stored by their
start. -/
theorem streams_chains {access : MediaAccess} (settings : OutputFormat Double)
    {window : Window Double} {inputs : List InputFile} (tracks : List (Track Double)) :
    List.Forall₂ (fun track stream =>
        stream.Perm (track.chains access settings window inputs) ∧
        ((track.clips.Pairwise fun a b => ¬ b.start < a.start) →
          stream = track.chains access settings window inputs))
      (tracks.filter fun track => !(track.chains access settings window inputs).isEmpty)
      (((tracks.map fun track => track.slices access window inputs).filter (!·.isEmpty)).map
        fun slices => (Slice.byStart slices).map (Slice.chain settings)) := by
  -- A track has clips in the window exactly if it has slices.
  have same : (fun track : Track Double =>
      !(track.chains access settings window inputs).isEmpty) =
        (!·.isEmpty) ∘ fun track => track.slices access window inputs := by
    funext track
    simp [Track.chains]
  rw [List.filter_map, List.map_map, same, List.forall₂_map_right_iff, List.forall₂_same]
  intro track _
  refine ⟨(List.mergeSort_perm _ _).map _, fun stored => ?_⟩
  exact congrArg (List.map (Slice.chain settings)) (Track.byStart_slices stored)

/-- Both compositors agree on their sources: neither finds anything to render, or both compose the
same clips of the same inputs; only the delay of a sound that comes too late keeps the overlay
compositor from it. -/
theorem compose_agrees (timeline : Timeline Double) (access : MediaAccess)
    (settings : OutputFormat Double) (window : Window Double) (silentAudio : Bool) :
    (composeOverlay timeline access settings window silentAudio = .error .nothingToRender ∧
      composeConcat timeline access settings window = .error .nothingToRender) ∨
    ∃ concat, composeConcat timeline access settings window = .ok concat ∧
      ((∃ cause, composeOverlay timeline access settings window silentAudio =
          .error (.number cause) ∧ timeline.Endless window cause) ∨
        ∃ overlay, composeOverlay timeline access settings window silentAudio = .ok overlay ∧
          overlay.SameSources timeline access settings window concat) := by
  have yields := composeOverlay_yields timeline access settings window silentAudio
  rw [composeOverlay_eq] at yields ⊢
  rw [composeConcat_eq]
  dsimp only at yields ⊢
  -- Whatever is heard, the inputs of what is seen stay.
  generalize heard : Slice.gather access window true timeline.heardTracks
    (Slice.gather access window false timeline.layersFromBottom {}).2 = audio at yields ⊢
  have grows : (Slice.gather access window false timeline.layersFromBottom {}).2.inputs <+:
      audio.2.inputs := heard ▸ Slice.gatherClips_grows
  rw [gatherTracks_eq grows]
  dsimp only
  rw [heard]
  rw [Slice.gather_slices grows] at yields ⊢
  rw [isEmpty_filter_slices]
  split
  · exact .inl ⟨rfl, rfl⟩
  · next something =>
    rw [if_neg something] at yields
    right
    have filled : ∀ slices ∈ (timeline.layersFromBottom.map fun track =>
        track.slices access window audio.2.inputs).filter (!·.isEmpty), slices ≠ [] := by
      intro slices h
      simpa using (List.mem_filter.mp h).2
    obtain ⟨streamed, done, pictures⟩ :=
      (concatGraph_clips? settings window.duration filled audio.1).exists
    rw [done]
    refine ⟨_, rfl, ?_⟩
    have shows := overlayGraph_yields FilterGraph.clip?_stable (clip?_reads settings)
      window.duration silentAudio (timeline.layersFromBottom.flatMap fun track =>
        track.slices access window audio.2.inputs) audio.1
    generalize overlayGraph settings window.duration silentAudio _ audio.1 = graph
      at yields shows ⊢
    cases graph with
    | error failure =>
      -- There is something to render, so that only a delay can have gone wrong.
      obtain ⟨number, rfl⟩ := shows
      rcases yields with ⟨nothing, -⟩ | ⟨cause, same, endless⟩
      · exact absurd nothing (by simp)
      · obtain rfl := ComposeError.number.inj same
        exact .inl ⟨number, rfl, endless⟩
    | ok laid =>
      refine .inr ⟨_, rfl, rfl, rfl, rfl, ?_, _, pictures, streams_chains settings _⟩
      have overlaid : laid.2.Pictures FilterGraph.clip? _ := shows
      rw [List.map_flatMap] at overlaid
      exact overlaid

/-- A song that comes too late for a mix is in a concat composition, but in no overlay composition. -/
theorem late_song_is_composed_once :
    composeOverlay LateSong.timeline RetitledFilm.access {} LateSong.window =
        .error (.number .infinite) ∧
      ∃ composition, composeConcat LateSong.timeline RetitledFilm.access {} LateSong.window =
        .ok composition := by
  refine ⟨eq_error_of_map (by decide +kernel), ?_⟩
  have long : ¬ LateSong.window.duration ≤ Scalar.zero := by decide +kernel
  exact exists_composeConcat _ _ _ long

end Montage
