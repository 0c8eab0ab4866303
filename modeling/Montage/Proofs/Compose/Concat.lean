import Montage.Proofs.Compose.Drift
import Montage.Proofs.Compose.Gather
import Montage.Proofs.Compose.Sequence
import Montage.Proofs.Timeline

/-!
# Streams in step

The concat composition of a window has a stream for each visible track that shows something in it.
How far a stream drifts from the clips of its track is known exactly: it is in step as long as the
overlaps that are too small to count do not add up to more than the tolerance.

## Main definitions

* `shownOn` — what a window shows of a track

## Main results

* `composeConcat_drifts` — the streams of a concat composition and how far they drift
-/

namespace Montage

/-! ### Clips by their start -/

namespace Timeline

/-- Clips of a visible track overlap within the tolerance, if no clips overlap by more. -/
theorem clipsByStart_apart {timeline : Timeline Rat} (h : timeline.hasOverlaps = false)
    {track : Track Rat} (htrack : track ∈ timeline.layersFromBottom) :
    (clipsByStart track).Pairwise fun a b => a.stop - gapTolerance ≤ b.start := by
  have clear : hasOverlap (clipsByStart track) = false := by
    simpa using List.any_eq_false.mp h track htrack
  rw [hasOverlap_eq_false_iff startsCompare_rat (pairwise_clipsByStart startsCompare_rat track)] at clear
  exact clear.imp fun h => not_lt.mp h

end Timeline

/-! ### Slices by their start -/

/-- What a window shows of a track. -/
def shownOn (access : MediaAccess) (window : Window Rat) (track : Track Rat) : List Placement :=
  (placements access.media [track]).filter (Slice.shown window false)

/-- What is shown of a track are enabled clips of it, in order. -/
theorem shownOn_sublist (access : MediaAccess) (window : Window Rat) (track : Track Rat) :
    ((shownOn access window track).map (·.clip)).Sublist (track.clips.filter (·.enabled)) := by
  have placed (clips : List (Clip Rat)) :
      ((clips.filterMap (place? access.media track)).map (·.clip)).Sublist
        (clips.filter (·.enabled)) := by
    induction clips with
    | nil => exact .slnil
    | cons clip rest ih =>
      rw [List.filterMap_cons, List.filter_cons]
      by_cases enabled : clip.enabled = true
      · rw [if_pos enabled]
        cases hplace : place? access.media track clip with
        | none => exact ih.cons clip
        | some placement =>
          rw [place?, if_pos enabled] at hplace
          obtain ⟨item, -, rfl⟩ := Option.map_eq_some_iff.mp hplace
          exact ih.cons_cons clip
      · rw [if_neg enabled, place?, if_neg enabled]
        exact ih
  refine (List.filter_sublist.map _).trans ?_
  simpa [placements] using placed track.clips

section Tracks

variable {access : MediaAccess} {window : Window Rat} {inputs : List InputFile}

/-- The slices of a track that are not cut at the start of the window are as far apart as its
clips. -/
theorem Slice.byStart_apart {timeline : Timeline Rat} (h : timeline.hasOverlaps = false)
    {track : Track Rat} (htrack : track ∈ timeline.layersFromBottom) {slices : List (Slice Rat)}
    (cuts : List.Forall₂ (Slice.Cuts access window inputs) slices (shownOn access window track))
    (whole : ∀ slice ∈ slices, window.start ≤ slice.clip.start) :
    (Slice.byStart slices).Pairwise fun a b =>
      a.localStop - Timeline.gapTolerance ≤ b.localStart := by
  have starts : ∀ slice ∈ slices, slice.localStart = slice.clip.start - window.start :=
    fun slice hslice => by
      obtain ⟨placement, -, cut⟩ := forall₂_mem cuts.flip hslice
      rw [cut.localStart, ← cut.clip, max_eq_right (sub_nonneg.mpr (whole slice hslice))]
  have stops : ∀ slice ∈ slices, slice.localStop ≤ slice.clip.stop - window.start :=
    fun slice hslice => by
      obtain ⟨placement, -, cut⟩ := forall₂_mem cuts.flip hslice
      rw [cut.localStop, ← cut.clip]
      exact min_le_right _ _
  have clips : slices.map (·.clip) = (shownOn access window track).map (·.clip) :=
    map_eq_map_of_forall₂ (cuts.imp fun _ _ cut => cut.clip)
  have sorted : (Slice.byStart slices).map (·.clip) =
      (slices.map (·.clip)).mergeSort fun a b => !decide (b.start < a.start) := by
    refine List.map_mergeSort fun a ha b hb => ?_
    rw [starts a ha, starts b hb]
    simp
  have part : ((Slice.byStart slices).map (·.clip)).Sublist (Timeline.clipsByStart track) := by
    rw [sorted, clips]
    exact sublist_mergeSort_mergeSort startsCompare_rat.trans startsCompare_rat.total
      (shownOn_sublist access window track)
  have apart := List.pairwise_map.mp ((Timeline.clipsByStart_apart h htrack).sublist part)
  refine apart.imp_of_mem fun {a b} ha hb near => ?_
  have ha := stops a (List.mem_mergeSort.mp ha)
  rw [starts b (List.mem_mergeSort.mp hb)]
  linarith

/-! ### Compositions -/

/-- The slices of tracks are cut out of what the window shows of them. -/
theorem gatherTracks_cuts (window : Window Rat) (tracks : List (Track Rat)) {gathered : Gathered}
    (listed : gathered.Listed access) :
    (gatherTracks access window tracks gathered).2.Listed access ∧
      gathered.inputs <+: (gatherTracks access window tracks gathered).2.inputs ∧
      List.Forall₂ (fun slices track => List.Forall₂
          (Slice.Cuts access window (gatherTracks access window tracks gathered).2.inputs) slices
          (shownOn access window track))
        (gatherTracks access window tracks gathered).1
        (tracks.filter fun track => !(shownOn access window track).isEmpty) := by
  induction tracks generalizing gathered with
  | nil => exact ⟨listed, List.prefix_refl _, .nil⟩
  | cons track rest ih =>
    obtain ⟨listed, grows, cuts⟩ := Slice.gather_cuts window false [track] listed
    obtain ⟨listed, grows', others⟩ := ih listed
    rw [gatherTracks]
    refine ⟨listed, grows.trans grows', ?_⟩
    dsimp only
    have cuts := cuts.imp fun _ _ cut => cut.mono grows'
    by_cases none : (Slice.gather access window false [track] gathered).1.isEmpty
    · have nothing : (shownOn access window track).isEmpty = true := by
        rw [List.isEmpty_iff] at none ⊢
        exact List.forall₂_nil_left_iff.mp (none ▸ cuts)
      rw [if_pos none, List.filter_cons, if_neg (by simp [nothing])]
      exact others
    · have some : (shownOn access window track).isEmpty = false := by
        rw [List.isEmpty_eq_false_iff, ← List.length_pos_iff]
        have length := cuts.length_eq
        rw [List.isEmpty_iff, ← List.length_eq_zero_iff] at none
        change _ = (shownOn access window track).length at length
        omega
      rw [if_neg none, List.filter_cons, if_pos (by simp [some])]
      exact .cons cuts others

/-- A window that has length is composed of the streams of the slices that it has. -/
theorem composeConcat_reads (timeline : Timeline Rat) (access : MediaAccess)
    (settings : OutputFormat Rat) (window : Window Rat) (length : window.start < window.stop)
    {tracks : List (List (Slice Rat))} {audioSlices : List (Slice Rat)} {seen gathered : Gathered}
    (video : gatherTracks access window timeline.layersFromBottom {} = (tracks, seen))
    (audio : Slice.gather access window true timeline.heardTracks seen = (audioSlices, gathered))
    (even : ∀ slices ∈ tracks, ∀ slice ∈ slices,
      slice.sourceOut = slice.sourceIn + slice.duration) :
    ∃ composition, composeConcat timeline access settings window = .ok composition ∧
      composition.inputs = gathered.inputs ∧
      composition.graph.Pictures FilterGraph.stream?
        (tracks.map (Slice.stream window.duration)) := by
  have positive : ¬ window.duration ≤ Scalar.zero := by
    rw [Scalar.zero_rat, not_le]
    exact sub_pos.mpr length
  have shows : Gives (concatGraph settings window.duration tracks audioSlices) fun made =>
      made.2.Pictures FilterGraph.stream? (tracks.map (Slice.stream window.duration)) := by
    refine concatGraph_pictures FilterGraph.stream?_stable audioSlices fun graph tidy based => ?_
    obtain ⟨canvas, after, done, stacked⟩ :=
      addTrackStreams_stacks settings window.duration tracks even tidy based
    exact gives_of_eq done stacked
  obtain ⟨made, done, pictures⟩ := shows.exists
  rw [composeConcat_eq]
  dsimp only
  rw [video, audio, decide_eq_false positive, Bool.false_and, Bool.false_and,
    if_neg Bool.false_ne_true, done]
  exact ⟨_, rfl, rfl, pictures⟩

/-- A window that has no length shows nothing. -/
theorem not_shown {window : Window Rat} (empty : window.stop ≤ window.start) (skipImages : Bool)
    (placement : Placement) : Slice.shown window skipImages placement = false := by
  have apart : ¬ max window.start placement.clip.start < min window.stop placement.clip.stop :=
    not_lt.mpr ((min_le_left _ _).trans (empty.trans (le_max_left _ _)))
  simp [Slice.shown, Window.overlaps, apart]

/-- A window that has no length is not composed. -/
theorem composeConcat_eq_error (timeline : Timeline Rat) (access : MediaAccess)
    (settings : OutputFormat Rat) {window : Window Rat} (empty : window.stop ≤ window.start) :
    composeConcat timeline access settings window = .error .nothingToRender := by
  rcases video : gatherTracks access window timeline.layersFromBottom {} with ⟨tracks, seen⟩
  rcases audio : Slice.gather access window true timeline.heardTracks seen with
    ⟨audioSlices, gathered⟩
  obtain ⟨listed, -, videoCuts⟩ := gatherTracks_cuts window timeline.layersFromBottom
    (Gathered.listed_empty access)
  rw [video] at listed videoCuts
  obtain ⟨-, -, audioCuts⟩ := Slice.gather_cuts window true timeline.heardTracks listed
  rw [audio] at audioCuts
  have noTrack : tracks = [] := by
    have none : timeline.layersFromBottom.filter
        (fun track => !(shownOn access window track).isEmpty) = [] := by
      refine List.filter_eq_nil_iff.mpr fun track _ => ?_
      simp [shownOn, not_shown empty]
    rw [none] at videoCuts
    exact List.forall₂_nil_right_iff.mp videoCuts
  have noSound : audioSlices = [] := by
    have none : (placements access.media timeline.heardTracks).filter
        (Slice.shown window true) = [] :=
      List.filter_eq_nil_iff.mpr fun placement _ => by simp [not_shown empty]
    rw [none] at audioCuts
    exact List.forall₂_nil_right_iff.mp audioCuts
  have duration : window.duration ≤ Scalar.zero := by
    rw [Scalar.zero_rat]
    exact sub_nonpos.mpr empty
  unfold composeConcat
  simp only [video, audio, noTrack, noSound, decide_eq_true duration, List.isEmpty_nil,
    Bool.and_self, if_true]
  rfl

/-- Each visible track of which something is shown has a stream, of the slices cut out of it. -/
theorem composeConcat_streams (timeline : Timeline Rat) (access : MediaAccess)
    (settings : OutputFormat Rat) {window : Window Rat} (length : window.start < window.stop) :
    ∃ composition streams, composeConcat timeline access settings window = .ok composition ∧
      composition.graph.Pictures FilterGraph.stream? streams ∧
      List.Forall₂ (fun track segments => track ∈ timeline.layersFromBottom ∧
          ∃ slices : List (Slice Rat),
            List.Forall₂ (Slice.Cuts access window composition.inputs) slices
              (shownOn access window track) ∧
            segments = Slice.stream window.duration slices)
        (timeline.layersFromBottom.filter fun track => !(shownOn access window track).isEmpty)
        streams := by
  rcases video : gatherTracks access window timeline.layersFromBottom {} with ⟨tracks, seen⟩
  rcases audio : Slice.gather access window true timeline.heardTracks seen with
    ⟨audioSlices, gathered⟩
  obtain ⟨listed, -, cuts⟩ := gatherTracks_cuts window timeline.layersFromBottom
    (Gathered.listed_empty access)
  rw [video] at listed cuts
  obtain ⟨-, grows, -⟩ := Slice.gather_cuts window true timeline.heardTracks listed
  rw [audio] at grows
  have even : ∀ slices ∈ tracks, ∀ slice ∈ slices,
      slice.sourceOut = slice.sourceIn + slice.duration := by
    intro slices hslices slice hslice
    obtain ⟨track, -, cuts⟩ := forall₂_mem cuts.flip hslices
    obtain ⟨placement, -, cut⟩ := forall₂_mem cuts.flip hslice
    exact cut.sourceOut
  obtain ⟨composition, composed, inputs, pictures⟩ :=
    composeConcat_reads timeline access settings window length video audio even
  refine ⟨composition, _, composed, pictures, ?_⟩
  rw [List.forall₂_map_right_iff, List.forall₂_and_left]
  refine ⟨fun track h => (List.mem_filter.mp h).1, cuts.flip.imp fun track slices cuts => ?_⟩
  rw [inputs]
  exact ⟨slices, cuts.imp fun _ _ cut => cut.mono grows, rfl⟩

/-- Clips that overlap within the tolerance put a stream ahead by at most the tolerance for each
clip, if none of them is cut at the start of the window. -/
theorem drifts_stream_le {timeline : Timeline Rat} (apart : timeline.hasOverlaps = false)
    {track : Track Rat} (htrack : track ∈ timeline.layersFromBottom)
    (length : window.start < window.stop) {slices : List (Slice Rat)}
    (cuts : List.Forall₂ (Slice.Cuts access window inputs) slices (shownOn access window track))
    (whole : ∀ slice ∈ slices, window.start ≤ slice.clip.start) {i : Nat} {drift : Rat}
    (h : (drifts window.duration (Slice.stream window.duration slices)
      (Slice.byStart slices))[i]? = some drift) :
    -Timeline.gapTolerance ≤ drift ∧ drift ≤ i * Timeline.gapTolerance := by
  rw [drifts_stream] at h
  refine ⟨neg_le_of_mem_leads (List.mem_of_getElem? h), ?_⟩
  have within : ∀ slice ∈ Slice.byStart slices,
      0 ≤ slice.localStart ∧ slice.localStop ≤ window.duration := by
    intro slice hslice
    obtain ⟨placement, -, cut⟩ := forall₂_mem cuts.flip (List.mem_mergeSort.mp hslice)
    rw [cut.localStart, cut.localStop]
    exact ⟨le_max_left _ _, min_le_left _ _⟩
  have positive : 0 < window.duration := sub_pos.mpr length
  have bound := leads_le le_rfl
    (List.forall_mem_map.mpr fun slice hslice => by
      change 0 + (0 - slice.localStart) ≤ 0
      linarith [(within slice hslice).1])
    (by linarith) (List.forall_mem_map.mpr fun slice hslice => (within slice hslice).2)
    (List.pairwise_map.mpr (Slice.byStart_apart apart htrack cuts whole)) h
  rwa [zero_add] at bound

end Tracks

/-- How far the streams of a concat composition drift. A window without length is not composed. In
the composition of any other, each visible track of which something is shown has a stream, the lowest
track first. The clips of the stream are the slices of the track by their start, and how far ahead
of them it is at each of them and at its end is what their overlaps and gaps add up to: so it is in
step exactly as long as that is never above the tolerance. If no clip is cut at the start of the
window, each clip is ahead by at most the tolerance for each clip in front of it. -/
theorem composeConcat_drifts (timeline : Timeline Rat) (apart : timeline.hasOverlaps = false)
    (access : MediaAccess) (settings : OutputFormat Rat) (window : Window Rat) :
    (window.stop ≤ window.start →
      composeConcat timeline access settings window = .error .nothingToRender) ∧
    (window.start < window.stop → ∃ composition streams,
      composeConcat timeline access settings window = .ok composition ∧
      composition.graph.Pictures FilterGraph.stream? streams ∧
      List.Forall₂ (fun track segments => ∃ slices : List (Slice Rat),
          List.Forall₂ (Slice.Cuts access window composition.inputs) slices
            (shownOn access window track) ∧
          List.Forall₂ Cue.Plays (cues segments 0) (Slice.byStart slices) ∧
          drifts window.duration segments (Slice.byStart slices) =
            leads window.duration ((Slice.byStart slices).map Slice.stretch) 0 0 ∧
          (InStep window.duration segments (Slice.byStart slices) ↔
            ∀ lead ∈ leads window.duration ((Slice.byStart slices).map Slice.stretch) 0 0,
              lead ≤ Timeline.gapTolerance) ∧
          ((∀ slice ∈ slices, window.start ≤ slice.clip.start) → ∀ (i : Nat) (drift : Rat),
            (drifts window.duration segments (Slice.byStart slices))[i]? = some drift →
              -Timeline.gapTolerance ≤ drift ∧ drift ≤ i * Timeline.gapTolerance))
        (timeline.layersFromBottom.filter fun track => !(shownOn access window track).isEmpty)
        streams) := by
  refine ⟨composeConcat_eq_error timeline access settings, fun length => ?_⟩
  obtain ⟨composition, streams, composed, pictures, each⟩ :=
    composeConcat_streams timeline access settings length
  refine ⟨composition, streams, composed, pictures, each.imp ?_⟩
  rintro track segments ⟨htrack, slices, cuts, rfl⟩
  exact ⟨slices, cuts, cues_stream _ _, drifts_stream _ _, inStep_stream_iff,
    fun whole i drift h => drifts_stream_le apart htrack length cuts whole h⟩

/-! ### Small overlaps -/

namespace SmallOverlaps

/-- A clip of a second. -/
def clip (start : Rat) (nonneg : 0 ≤ start) : Clip Rat where
  id := "clip"
  mediaId := some "film"
  trackId := "track"
  start := start
  duration := 1
  mediaIn := 0
  mediaOut := 1
  times_nonneg := by
    rw [Scalar.zero_rat]
    exact ⟨nonneg, by decide +kernel, le_rfl, by decide +kernel⟩

/-- Clips of which each overlaps the next one by half a millisecond. -/
def track : Track Rat where
  id := "track"
  kind := .video
  clips := [clip 0 le_rfl, clip (1999 / 2000) (by decide +kernel),
    clip (1999 / 1000) (by decide +kernel), clip (5997 / 2000) (by decide +kernel)]
  volume := 1

def timeline : Timeline Rat := { tracks := [track] }

def access : MediaAccess where
  media := [("film", { id := "film", type := .video, path := "film.mp4" })]
  useProxies := false
  pathExists _ := false

def window : Window Rat := ⟨0, 4⟩

theorem length_window : window.start < window.stop := by decide +kernel

theorem hasOverlaps_timeline : timeline.hasOverlaps = false := by
  have sorted : Timeline.clipsByStart track = track.clips :=
    List.mergeSort_of_pairwise (by decide +kernel)
  change (Timeline.hasOverlap (Timeline.clipsByStart track) || false) = false
  rw [sorted]
  decide +kernel

theorem filter_shownOn : timeline.layersFromBottom.filter
    (fun track => !(shownOn access window track).isEmpty) = [track] := by
  have some : (shownOn access window track).isEmpty = false := by decide +kernel
  change [track].filter (fun track => !(shownOn access window track).isEmpty) = [track]
  rw [List.filter_cons, some]
  rfl

end SmallOverlaps

/-- Clips that overlap by half a millisecond each put their stream ahead by at most a millisecond
each. -/
theorem small_overlaps_drift : SmallOverlaps.timeline.hasOverlaps = false ∧
    ∃ composition segments slices,
      composeConcat SmallOverlaps.timeline SmallOverlaps.access {} SmallOverlaps.window =
        .ok composition ∧
      composition.graph.Pictures FilterGraph.stream? [segments] ∧
      List.Forall₂ Cue.Plays (cues segments 0) (Slice.byStart slices) ∧
      ∀ (i : Nat) (drift : Rat),
        (drifts SmallOverlaps.window.duration segments (Slice.byStart slices))[i]? = some drift →
          -Timeline.gapTolerance ≤ drift ∧ drift ≤ i * Timeline.gapTolerance := by
  obtain ⟨composition, streams, composed, pictures, each⟩ :=
    (composeConcat_drifts SmallOverlaps.timeline SmallOverlaps.hasOverlaps_timeline
      SmallOverlaps.access {} SmallOverlaps.window).2 SmallOverlaps.length_window
  rw [SmallOverlaps.filter_shownOn] at each
  obtain ⟨segments, rest, ⟨slices, cuts, plays, -, -, near⟩, none, rfl⟩ :=
    List.forall₂_cons_left_iff.mp each
  obtain rfl := List.forall₂_nil_left_iff.mp none
  have whole : ∀ slice ∈ slices, (0 : Rat) ≤ slice.clip.start := fun slice _ => by
    have := slice.clip.times_nonneg.1
    rwa [Scalar.zero_rat] at this
  exact ⟨SmallOverlaps.hasOverlaps_timeline, composition, segments, slices, composed, pictures,
    plays, near whole⟩

/-- A stream of clips that overlap by half a millisecond each is out of step. -/
theorem exists_stream_out_of_step : ∃ (timeline : Timeline Rat) (access : MediaAccess)
    (window : Window Rat) (composition : Composition Rat) (track : Track Rat)
    (segments : List (StreamSegment Rat)) (slices : List (Slice Rat)),
    timeline.hasOverlaps = false ∧
      composeConcat timeline access {} window = .ok composition ∧
      composition.graph.Pictures FilterGraph.stream? [segments] ∧
      timeline.layersFromBottom = [track] ∧
      List.Forall₂ (Slice.Cuts access window composition.inputs) slices
        (shownOn access window track) ∧
      List.Forall₂ Cue.Plays (cues segments 0) (Slice.byStart slices) ∧
      ¬ InStep window.duration segments (Slice.byStart slices) := by
  obtain ⟨composition, streams, composed, pictures, each⟩ :=
    composeConcat_streams SmallOverlaps.timeline SmallOverlaps.access {}
      SmallOverlaps.length_window
  rw [SmallOverlaps.filter_shownOn] at each
  obtain ⟨segments, rest, ⟨-, slices, cuts, rfl⟩, none, rfl⟩ := List.forall₂_cons_left_iff.mp each
  obtain rfl := List.forall₂_nil_left_iff.mp none
  refine ⟨_, _, _, composition, SmallOverlaps.track, _, slices, SmallOverlaps.hasOverlaps_timeline,
    composed, pictures, rfl, cuts, cues_stream _ _, fun inStep => ?_⟩
  have times : slices.map Slice.stretch =
      [(0, 1), (1999 / 2000, 3999 / 2000), (1999 / 1000, 2999 / 1000),
        (5997 / 2000, 7997 / 2000)] := by
    have read : slices.map Slice.stretch =
        (shownOn SmallOverlaps.access SmallOverlaps.window SmallOverlaps.track).map
          fun placement => (max 0 (placement.clip.start - SmallOverlaps.window.start),
            min SmallOverlaps.window.duration
              (placement.clip.stop - SmallOverlaps.window.start)) :=
      map_eq_map_of_forall₂ (cuts.imp fun _ _ cut => Prod.ext cut.localStart cut.localStop)
    rw [read]
    decide +kernel
  have sorted : Slice.byStart slices = slices := by
    have inOrder : (slices.map Slice.stretch).Pairwise fun a b => (!decide (b.1 < a.1)) = true := by
      rw [times]
      decide +kernel
    exact List.mergeSort_of_pairwise (List.pairwise_map.mp inOrder)
  have near := inStep_stream_iff.mp inStep
  rw [sorted, times] at near
  exact absurd near (by decide +kernel)

end Montage
