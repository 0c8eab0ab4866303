import Montage.Compose.Concat
import Montage.Compose.Overlay
import Montage.Proofs.Compose.Coverage
import Montage.Proofs.Compose.Sequence

/-!
# Compositions are well-formed

Both compositors lay pipes without leaving an end loose: of the graph of a composition, only the
picture and the sound leave it, all that is made within it is read once, and all that is read is
there. So adding a stage never fails.

## Main definitions

* `Gathered.Numbered` — the inputs are in order, one for each media item
* `Slice.Drawn` — where a slice comes from and which input it reads
* `Composition.WellFormed` — what the encoder needs of a composition
* `Timeline.Endless` — a clip is heard so late that its delay is no number

## Main results

* `compose_wellFormed` — what both compositors make is well-formed
-/

namespace Montage

variable {τ : Type} [Scalar τ]

/-! ### Inputs and slices -/

/-- The inputs are numbered in order, and no two are for one media item. -/
structure Gathered.Numbered (gathered : Gathered) : Prop where
  indices : gathered.inputs.map (·.index) = List.range gathered.inputs.length
  media : (gathered.inputs.map (·.mediaId)).Nodup

theorem Gathered.numbered_empty : ({} : Gathered).Numbered := ⟨rfl, .nil⟩

/-- A media item has an input from here on. -/
theorem Gathered.Numbered.inputFor {gathered : Gathered} (numbered : gathered.Numbered)
    (access : MediaAccess) (item : MediaFile) :
    (gathered.inputFor access item).2.Numbered ∧
      gathered.inputs.length ≤ (gathered.inputFor access item).2.inputs.length ∧
      (gathered.inputFor access item).1 < (gathered.inputFor access item).2.inputs.length := by
  unfold Gathered.inputFor
  split
  · next source found =>
    refine ⟨numbered, Nat.le_refl _, ?_⟩
    have index : source.index ∈ gathered.inputs.map (·.index) :=
      List.mem_map_of_mem (List.mem_of_find?_eq_some found)
    rw [numbered.indices, List.mem_range] at index
    exact index
  · next absent =>
    refine ⟨⟨?_, ?_⟩, ?_, ?_⟩
    · rw [List.map_append, numbered.indices, List.length_append, List.length_singleton,
        List.range_succ]
      rfl
    · rw [List.map_append, List.nodup_append]
      refine ⟨numbered.media, List.nodup_singleton _, fun id hid _ h => ?_⟩
      rintro rfl
      obtain ⟨source, hsource, same⟩ := List.mem_map.mp hid
      have differs := List.find?_eq_none.mp absent source hsource
      exact differs (by simpa [same] using h)
    · simp
    · simp

/-- A slice reads one of so many inputs. -/
def Slice.Wired (count : Nat) (slice : Slice τ) : Prop :=
  ∃ n < count, slice.inputIndex = (n : Nat)

theorem Slice.Wired.mono {count count' : Nat} {slice : Slice τ} (wired : slice.Wired count)
    (more : count ≤ count') : slice.Wired count' := by
  obtain ⟨n, below, index⟩ := wired
  exact ⟨n, Nat.lt_of_lt_of_le below more, index⟩

/-- A slice of a clip that a window meets on some tracks, with an input. -/
structure Slice.Drawn (window : Window τ) (tracks : List (Track τ)) (count : Nat)
    (slice : Slice τ) : Prop where
  clip : ∃ track ∈ tracks, slice.clip ∈ track.clips
  enabled : slice.clip.enabled = true
  meets : window.meets slice.clip = true
  localStart : slice.localStart = Scalar.maxOf Scalar.zero (slice.clip.start - window.start)
  wired : slice.Wired count

namespace Slice

variable {access : MediaAccess} {window : Window τ} {gathered : Gathered} {count count' : Nat}
  {tracks : List (Track τ)} {slice : Slice τ}

theorem Drawn.mono (drawn : slice.Drawn window tracks count) (more : count ≤ count') :
    slice.Drawn window tracks count' where
  clip := drawn.clip
  enabled := drawn.enabled
  meets := drawn.meets
  localStart := drawn.localStart
  wired := drawn.wired.mono more

theorem ofClip?_eq_some {clip : Clip τ} {item : MediaFile}
    (h : ofClip? clip item window = some slice) :
    slice.clip = clip ∧ slice.localStart = Scalar.maxOf Scalar.zero (clip.start - window.start) := by
  unfold ofClip? at h
  split at h
  · dsimp only at h
    split at h
    · exact absurd h (by simp)
    · obtain rfl := Option.some.inj h
      exact ⟨rfl, rfl⟩
  · exact absurd h (by simp)

theorem gatherClip_drawn (skipImages : Bool) {track : Track τ} {clip : Clip τ}
    (known : track ∈ tracks) (on : clip ∈ track.clips) (numbered : gathered.Numbered) :
    (gatherClip access window skipImages track clip gathered).2.Numbered ∧
      gathered.inputs.length ≤
        (gatherClip access window skipImages track clip gathered).2.inputs.length ∧
      ∀ slice ∈ (gatherClip access window skipImages track clip gathered).1,
        slice.Drawn window tracks
          (gatherClip access window skipImages track clip gathered).2.inputs.length := by
  unfold gatherClip
  split
  · exact ⟨numbered, Nat.le_refl _, by simp⟩
  · next within =>
    split
    · exact ⟨⟨numbered.indices, numbered.media⟩, Nat.le_refl _, by simp⟩
    · next item found =>
      split
      · exact ⟨numbered, Nat.le_refl _, by simp⟩
      · split
        · exact ⟨numbered, Nat.le_refl _, by simp⟩
        · next cut hcut =>
          obtain ⟨numbered', more, below⟩ := numbered.inputFor access item
          obtain ⟨rfl, start⟩ := ofClip?_eq_some hcut
          refine ⟨numbered', more, fun slice h => ?_⟩
          obtain rfl := Option.some.inj h
          simp only [Bool.or_eq_true, Bool.not_eq_true', not_or, Bool.not_eq_false] at within
          exact ⟨⟨track, known, on⟩, within.1, within.2, start, _, below, rfl⟩

theorem gatherClips_drawn (skipImages : Bool) {clips : List (Track τ × Clip τ)}
    (known : ∀ entry ∈ clips, entry.1 ∈ tracks ∧ entry.2 ∈ entry.1.clips)
    (numbered : gathered.Numbered) :
    (gatherClips access window skipImages clips gathered).2.Numbered ∧
      gathered.inputs.length ≤
        (gatherClips access window skipImages clips gathered).2.inputs.length ∧
      ∀ slice ∈ (gatherClips access window skipImages clips gathered).1,
        slice.Drawn window tracks
          (gatherClips access window skipImages clips gathered).2.inputs.length := by
  induction clips generalizing gathered with
  | nil => exact ⟨numbered, Nat.le_refl _, by simp [gatherClips]⟩
  | cons entry rest ih =>
    obtain ⟨track, clip⟩ := entry
    obtain ⟨hentry, hrest⟩ := List.forall_mem_cons.mp known
    have first : (gatherClip access window skipImages track clip gathered).2.Numbered ∧ _ :=
      gatherClip_drawn skipImages hentry.1 hentry.2 numbered
    obtain ⟨numbered', more, drawn⟩ := first
    obtain ⟨numbered'', more', drawn'⟩ := ih hrest numbered'
    refine ⟨numbered'', Nat.le_trans more more', fun slice h => ?_⟩
    rcases List.mem_append.mp h with h | h
    · exact (drawn slice (Option.mem_toList.mp h)).mono more'
    · exact drawn' slice h

/-- The slices of some tracks are drawn from their clips. -/
theorem gather_drawn (access : MediaAccess) (window : Window τ) (skipImages : Bool)
    (tracks : List (Track τ)) (numbered : gathered.Numbered) :
    (gather access window skipImages tracks gathered).2.Numbered ∧
      gathered.inputs.length ≤
        (gather access window skipImages tracks gathered).2.inputs.length ∧
      ∀ slice ∈ (gather access window skipImages tracks gathered).1,
        slice.Drawn window tracks
          (gather access window skipImages tracks gathered).2.inputs.length := by
  refine gatherClips_drawn skipImages (fun entry h => ?_) numbered
  obtain ⟨track, htrack, h⟩ := List.mem_flatMap.mp h
  obtain ⟨clip, hclip, rfl⟩ := List.mem_map.mp h
  exact ⟨htrack, hclip⟩

end Slice

/-! ### Filters -/

namespace Slice

theorem Wired.picture {count : Nat} {slice : Slice τ} (wired : slice.Wired count) :
    ∀ pad ∈ [slice.pad "v"], IsInputPad count pad := by
  obtain ⟨n, below, index⟩ := wired
  rw [List.forall_mem_singleton, pad, index]
  exact ⟨n, below, .inl rfl⟩

theorem Wired.sound {count : Nat} {slice : Slice τ} (wired : slice.Wired count) :
    ∀ pad ∈ [slice.pad "a"], IsInputPad count pad := by
  obtain ⟨n, below, index⟩ := wired
  rw [List.forall_mem_singleton, pad, index]
  exact ⟨n, below, .inr rfl⟩

theorem plain_videoFilters (slice : Slice τ) (settings : OutputFormat τ) (offset : τ) :
    ∀ filter ∈ slice.videoFilters settings offset, filter.Plain := by
  unfold videoFilters trimFilters fitFilters
  split <;> simp [Filter.Plain, Filter.withOptions, Filter.withValues]

theorem plain_audioFilters (slice : Slice τ) (settings : OutputFormat τ) :
    ∀ filter ∈ slice.audioFilters settings, filter.Plain := by
  unfold audioFilters
  split <;> simp [Filter.Plain, Filter.withOptions, Filter.withValues]

end Slice

theorem plain_colorSource (settings : OutputFormat τ) (duration : τ) (color : String) :
    (colorSource settings duration color).Plain := by
  simp [colorSource, Filter.Plain, Filter.withOptions]

omit [Scalar τ] in
theorem plain_silenceFilters (settings : OutputFormat τ) (duration : τ) :
    ∀ filter ∈ silenceFilters settings duration, filter.Plain := by
  simp [silenceFilters, Filter.Plain, Filter.withOptions, Filter.withValues]

omit [Scalar τ] in
/-- The filter that joins sounds is told how many there are. -/
theorem takes_joint (settings : OutputFormat τ) (duration : τ) (labels : List String) :
    ∀ filter ∈ joint settings duration labels, filter.Takes labels.length := by
  rcases labels with _ | ⟨label, _ | ⟨next, rest⟩⟩
  · exact fun filter h => (plain_silenceFilters settings duration filter h).takes _
  · intro filter h
    rw [List.mem_singleton.mp h]
    exact Filter.Plain.takes (by simp [Filter.Plain, Filter.withValues]) _
  · intro filter h
    rw [List.mem_singleton.mp h]
    exact ⟨by simp [Filter.withOptions], fun _ => rfl, by simp [Filter.withOptions]⟩

/-! ### Parts of a composition -/

section Parts

open FilterGraph

variable {graph : FilterGraph τ} {count : Nat} {names loose : List String} {canvas : String}

theorem addBackground_plumbed (count : Nat) (settings : OutputFormat τ) (duration : τ) :
    Gives (addBackground {} settings duration) fun after =>
      after.Plumbed count [baseLabel] [baseLabel] :=
  (plumbed_empty count).add (by decide : Wordy baseLabel) (by simp) (.pads (by simp)) (by simp)
    fun filter h => by
      rw [List.mem_singleton.mp h]
      exact (plain_colorSource settings duration settings.background).takes _

omit [Scalar τ] in
theorem addVideoOutput_plumbed (plumbed : graph.Plumbed count names (canvas :: loose))
    (unused : videoLabel ∉ names) :
    Gives (addVideoOutput graph canvas) fun after =>
      after.Plumbed count (videoLabel :: names) (videoLabel :: loose) :=
  plumbed.add (by decide : Wordy videoLabel) unused (.labels (.refl _)) (by simp) fun filter h =>
    Filter.Plain.takes (by simp [List.mem_singleton.mp h, Filter.Plain, Filter.withValues]) _

omit [Scalar τ] in
/-- Whatever an overlay is told, it has two pads. -/
theorem takes_overlay (options : List (String × FilterValue τ)) :
    ∀ filter ∈ [(.withOptions "overlay" options : Filter τ)], filter.Takes 2 := by
  rw [List.forall_mem_singleton]
  exact ⟨fun _ => rfl, by simp [Filter.withOptions], by simp [Filter.withOptions]⟩

/-- Each overlay takes the canvas and a clip, and is the canvas of the next. -/
theorem addOverlays_plumbed (settings : OutputFormat τ) {slices : List (Slice τ)}
    (wired : ∀ slice ∈ slices, slice.Wired count)
    (plumbed : graph.Plumbed count names (canvas :: loose)) :
    Gives (addOverlays settings slices canvas graph) fun (label, after) =>
      after.Plumbed count names (label :: loose) := by
  induction slices generalizing graph canvas with
  | nil => exact plumbed
  | cons slice rest ih =>
    obtain ⟨first, others⟩ := List.forall_mem_cons.mp wired
    refine Yields.bind (plumbed.addFresh (by decide : Wordy "clip") (.pads first.picture)
      (by simp [Slice.videoFilters])
      fun filter h => (slice.plain_videoFilters settings _ filter h).takes _) fun clipped plumbed => ?_
    refine Yields.bind (plumbed.addFresh (by decide : Wordy "comp") (.labels (.swap _ _ _))
      (by simp) (takes_overlay _)) fun laid plumbed => ?_
    exact ih others plumbed

/-- A filler is a loose end. -/
theorem addFiller_plumbed (settings : OutputFormat τ) (gap : τ)
    (plumbed : graph.Plumbed count names loose) :
    Gives (addFiller settings gap graph) fun (label, after) =>
      after.Plumbed count names (label :: loose) := by
  refine Yields.bind (plumbed.addFresh (by decide : Wordy "gap") (.pads (by simp)) (by simp)
    fun filter h => Filter.Plain.takes ?_ _) fun after plumbed => plumbed
  rcases List.mem_cons.mp h with rfl | h
  · exact plain_colorSource settings gap _
  · rw [List.mem_singleton.mp h]
    simp [Filter.Plain, Filter.withValues]

/-- The segments of a stream are loose ends. -/
theorem addStreamSegments_plumbed (settings : OutputFormat τ) {slices : List (Slice τ)}
    (wired : ∀ slice ∈ slices, slice.Wired count) (emitted : τ)
    (plumbed : graph.Plumbed count names loose) :
    Gives (addStreamSegments settings slices emitted graph) fun (labels, _, after) =>
      after.Plumbed count names (labels ++ loose) := by
  induction slices generalizing graph emitted loose with
  | nil => exact plumbed
  | cons slice rest ih =>
    obtain ⟨first, others⟩ := List.forall_mem_cons.mp wired
    -- What is done with the slice and the rest, with or without a filler in front of it.
    have follow (filler : List String) (emitted : τ) {graph : FilterGraph τ}
        (plumbed : graph.Plumbed count names (filler ++ loose)) :
        Gives (do
          let placed ← (graph.freshLabel "seg").2.add [slice.pad "v"]
            (slice.videoFilters settings Scalar.zero) (graph.freshLabel "seg").1
          let made ← addStreamSegments settings rest
            (emitted + (slice.localStop - slice.localStart)) placed
          return (filler ++ (graph.freshLabel "seg").1 :: made.1, made.2)) fun made =>
            made.2.2.Plumbed count names (made.1 ++ loose) := by
      refine Yields.bind (plumbed.addFresh (by decide : Wordy "seg") (.pads first.picture)
        (by simp [Slice.videoFilters])
        fun filter h => (slice.plain_videoFilters settings _ filter h).takes _)
        fun placed plumbed => ?_
      refine Yields.bind (ih others _ plumbed) fun made plumbed => plumbed.perm ?_
      rw [← List.cons_append, ← List.append_assoc]
      refine List.Perm.append_right _ (List.perm_middle.trans ?_)
      exact (List.perm_append_comm.cons _).trans List.perm_middle.symm
    rw [addStreamSegments]
    dsimp only
    split
    · exact Yields.bind (addFiller_plumbed settings _ plumbed) fun filled plumbed =>
        follow [filled.1] _ plumbed
    · exact follow [] _ plumbed

omit [Scalar τ] in
/-- What is joined is one loose end, and so is a segment on its own. -/
theorem joinSegments_plumbed (labels : List String)
    (plumbed : graph.Plumbed count names (labels ++ loose)) :
    Gives (match labels with
      | [segment] => return (segment, graph)
      | segments =>
        let (label, graph) := graph.freshLabel "track"
        let concat := Filter.withOptions "concat"
          [("n", .int segments.length), ("v", .int 1), ("a", .int 0)]
        return (label, ← graph.add segments [concat] label)) fun (label, after) =>
          after.Plumbed count names (label :: loose) := by
  let concat : Filter τ := .withOptions "concat"
    [("n", .int labels.length), ("v", .int 1), ("a", .int 0)]
  have takes : concat.Takes labels.length :=
    ⟨by simp [concat, Filter.withOptions], fun _ => rfl, by simp [concat, Filter.withOptions]⟩
  have joined := plumbed.addFresh (by decide : Wordy "track") (.labels (.refl _))
    (List.cons_ne_nil concat []) (List.forall_mem_singleton.mpr takes)
  rcases labels with _ | ⟨segment, _ | ⟨next, rest⟩⟩
  · exact joined.bind fun after plumbed => plumbed
  · exact plumbed
  · exact joined.bind fun after plumbed => plumbed

/-- A stream is one loose end. -/
theorem addTrackStream_plumbed (settings : OutputFormat τ) (duration : τ)
    {slices : List (Slice τ)} (wired : ∀ slice ∈ slices, slice.Wired count)
    (plumbed : graph.Plumbed count names loose) :
    Gives (addTrackStream settings duration slices graph) fun (label, after) =>
      after.Plumbed count names (label :: loose) := by
  have wired : ∀ slice ∈ Slice.byStart slices, slice.Wired count := fun slice h =>
    wired slice (List.mem_mergeSort.mp h)
  refine Yields.bind (addStreamSegments_plumbed settings wired Scalar.zero plumbed) ?_
  rintro ⟨labels, emitted, after⟩ plumbed
  dsimp only
  split
  · refine Yields.bind (addFiller_plumbed settings _ plumbed) ?_
    rintro ⟨label, filled⟩ plumbed
    refine joinSegments_plumbed (labels ++ [label]) (plumbed.perm ?_)
    rw [List.append_assoc]
    exact List.perm_middle.symm
  · exact joinSegments_plumbed (labels ++ []) (by rwa [List.append_nil])

/-- Each stream is laid over the canvas. -/
theorem addTrackStreams_plumbed (settings : OutputFormat τ) (duration : τ)
    {tracks : List (List (Slice τ))}
    (wired : ∀ slices ∈ tracks, ∀ slice ∈ slices, slice.Wired count)
    (plumbed : graph.Plumbed count names (canvas :: loose)) :
    Gives (addTrackStreams settings duration tracks canvas graph) fun (label, after) =>
      after.Plumbed count names (label :: loose) := by
  induction tracks generalizing graph canvas with
  | nil => exact plumbed
  | cons slices rest ih =>
    obtain ⟨first, others⟩ := List.forall_mem_cons.mp wired
    refine Yields.bind (addTrackStream_plumbed settings duration first plumbed)
      fun (stream, streamed) plumbed => ?_
    refine Yields.bind (plumbed.addFresh (by decide : Wordy "comp") (.labels (.swap _ _ _))
      (by simp) (takes_overlay _)) fun laid plumbed => ?_
    exact ih others plumbed

/-- The pieces of a sequence are loose ends. -/
theorem addPieces_plumbed (settings : OutputFormat τ) {pieces : List (Piece τ)}
    (wired : ∀ slice, .sound slice ∈ pieces → slice.Wired count)
    (plumbed : graph.Plumbed count names loose) :
    Gives (addPieces settings pieces graph) fun (labels, after) =>
      after.Plumbed count names (labels ++ loose) := by
  induction pieces generalizing graph loose with
  | nil => exact plumbed
  | cons piece rest ih =>
    have pads : ∀ pad ∈ piece.inputs, IsInputPad count pad := by
      cases piece with
      | silence length => simp [Piece.inputs]
      | sound slice => exact (wired slice List.mem_cons_self).sound
    have plain : ∀ filter ∈ piece.filters settings, filter.Plain := by
      cases piece with
      | silence length => exact plain_silenceFilters settings length
      | sound slice => exact slice.plain_audioFilters settings
    refine Yields.bind (plumbed.addFresh piece.wordy_stem (.pads pads)
      (piece.filters_ne_nil settings) fun filter h => (plain filter h).takes _)
      fun placed plumbed => ?_
    exact Yields.bind (ih (fun slice h => wired slice (List.mem_cons_of_mem _ h)) plumbed)
      fun made plumbed => plumbed.perm List.perm_middle

/-- A sequence joins its pieces. -/
theorem addAudioSequence_plumbed (settings : OutputFormat τ) (duration : τ)
    {slices : List (Slice τ)} (wired : ∀ slice ∈ slices, slice.Wired count)
    (plumbed : graph.Plumbed count names loose) (unused : audioLabel ∉ names) :
    Gives (addAudioSequence settings duration slices graph) fun (label, after) =>
      after.Plumbed count (audioLabel :: names) (label :: loose) := by
  rw [addAudioSequence_eq]
  refine Yields.bind (addPieces_plumbed settings (fun part h => ?_) plumbed)
    fun (labels, placed) plumbed => ?_
  · obtain ⟨slice, hslice, cursor, rfl⟩ := Slice.exists_of_sound_mem_playlist h
    obtain ⟨n, below, index⟩ := wired slice hslice
    exact ⟨n, below, by rw [Slice.startingAt_inputIndex, index]⟩
  · exact (plumbed.add (by decide : Wordy audioLabel) unused (.labels (.refl _))
      (joint_ne_nil settings duration labels) (takes_joint settings duration labels)).bind
      fun after plumbed => plumbed

/-- The branches of a mix are loose ends, if the delay of each slice is a number. -/
theorem addMixBranches_plumbed (settings : OutputFormat τ) (duration : τ)
    {slices : List (Slice τ)} (wired : ∀ slice ∈ slices, slice.Wired count)
    (plumbed : graph.Plumbed count names loose) :
    Yields (addMixBranches settings duration slices graph)
      (fun failure => ∃ slice ∈ slices, ∃ cause,
        Scalar.round (slice.localStart * Scalar.whole 1000) = .error cause ∧
        failure = .number cause)
      fun (labels, after) => after.Plumbed count names (labels ++ loose) := by
  induction slices generalizing graph loose with
  | nil => exact plumbed
  | cons slice rest ih =>
    obtain ⟨first, others⟩ := List.forall_mem_cons.mp wired
    rw [addMixBranches]
    cases delayed : Scalar.round (slice.localStart * Scalar.whole 1000) with
    | error cause => exact ⟨slice, List.mem_cons_self, cause, delayed, rfl⟩
    | ok delay =>
      have plain : ∀ filter ∈ slice.audioFilters settings ++
          [.withValues "adelay" [.delay delay],
            .withOptions "apad" [("whole_dur", .number duration)]], filter.Plain := by
        intro filter h
        rcases List.mem_append.mp h with h | h
        · exact slice.plain_audioFilters settings filter h
        · rcases List.mem_pair.mp h with rfl | rfl <;>
            simp [Filter.Plain, Filter.withOptions, Filter.withValues]
      refine Yields.bind (show Yields (liftM (Except.ok delay : Except NumberError Int)) _
        (· = delay) from rfl) ?_
      rintro _ rfl
      refine Yields.bind (Yields.lift_graph (plumbed.addFresh (by decide : Wordy "a")
        (.pads first.sound) (by simp) fun filter h => (plain filter h).takes _))
        fun placed plumbed => ?_
      refine Yields.bind ((ih others plumbed).imp ?_ fun _ plumbed => plumbed)
        fun made plumbed => plumbed.perm List.perm_middle
      rintro failure ⟨late, hlate, cause, failed, rfl⟩
      exact ⟨late, List.mem_cons_of_mem _ hlate, cause, failed, rfl⟩

/-- A mix takes all of its branches. -/
theorem addAudioMix_plumbed (settings : OutputFormat τ) (duration : τ) (silentAudio : Bool)
    {slices : List (Slice τ)} (wired : ∀ slice ∈ slices, slice.Wired count)
    (plumbed : graph.Plumbed count names loose) (unused : audioLabel ∉ names) :
    Yields (addAudioMix settings duration silentAudio slices graph)
      (fun failure => ∃ slice ∈ slices, ∃ cause,
        Scalar.round (slice.localStart * Scalar.whole 1000) = .error cause ∧
        failure = .number cause)
      fun (label, after) => ∃ names, after.Plumbed count names (label.toList ++ loose) := by
  have wordy : Wordy audioLabel := by decide
  refine Yields.bind (addMixBranches_plumbed settings duration wired plumbed)
    fun (branches, mixed) plumbed => ?_
  dsimp only
  rcases branches with _ | ⟨branch, _ | ⟨next, rest⟩⟩
  · cases silentAudio with
    | false => exact ⟨names, plumbed⟩
    | true =>
      exact Yields.bind (Yields.lift_graph (plumbed.add wordy unused (.pads (by simp))
        (by simp [silenceFilters]) fun filter h =>
          (plain_silenceFilters settings duration filter h).takes _)) fun after plumbed =>
          ⟨_, plumbed⟩
  · exact Yields.bind (Yields.lift_graph (plumbed.add wordy unused
      (.labels (.refl _)) (by simp) fun filter h => Filter.Plain.takes
        (by simp [List.mem_singleton.mp h, Filter.Plain, Filter.withValues]) _))
      fun after plumbed => ⟨_, plumbed⟩
  · exact Yields.bind (Yields.lift_graph (plumbed.add wordy unused
      (.labels (.refl _)) (by simp) fun filter h => by
        rw [List.mem_singleton.mp h]
        exact ⟨by simp [Filter.withOptions], by simp [Filter.withOptions], fun _ => rfl⟩))
      fun after plumbed => ⟨_, plumbed⟩

end Parts

/-! ### Compositions -/

/-- The slices of each track are drawn from its clips. -/
theorem gatherTracks_wired (access : MediaAccess) (window : Window τ) (tracks : List (Track τ))
    {gathered : Gathered} (numbered : gathered.Numbered) :
    (gatherTracks access window tracks gathered).2.Numbered ∧
      gathered.inputs.length ≤ (gatherTracks access window tracks gathered).2.inputs.length ∧
      ∀ slices ∈ (gatherTracks access window tracks gathered).1, ∀ slice ∈ slices,
        slice.Wired (gatherTracks access window tracks gathered).2.inputs.length := by
  induction tracks generalizing gathered with
  | nil => exact ⟨numbered, Nat.le_refl _, by simp [gatherTracks]⟩
  | cons track rest ih =>
    obtain ⟨numbered', more, drawn⟩ :=
      Slice.gather_drawn access window false [track] numbered
    obtain ⟨numbered'', more', wired⟩ := ih numbered'
    refine ⟨numbered'', Nat.le_trans more more', fun slices h slice hslice => ?_⟩
    change slices ∈ (if _ then _ else _ :: _) at h
    split at h
    · exact wired slices h slice hslice
    · rcases List.mem_cons.mp h with rfl | h
      · exact ((drawn slice hslice).mono more').wired
      · exact wired slices h slice hslice

/-- What the encoder needs of a composition. -/
structure Composition.WellFormed (composition : Composition τ) : Prop where
  graph : composition.graph.WellFormed composition.inputs.length composition.outputs
  indices : composition.inputs.map (·.index) = List.range composition.inputs.length
  media : (composition.inputs.map (·.mediaId)).Nodup

/-- Some clip is heard in a window so late that its delay in milliseconds is no number. -/
def Timeline.Endless (timeline : Timeline τ) (window : Window τ) (cause : NumberError) : Prop :=
  ∃ track ∈ timeline.heardTracks, ∃ clip ∈ track.clips,
    clip.enabled = true ∧ window.meets clip = true ∧
      Scalar.round (Scalar.maxOf Scalar.zero (clip.start - window.start) * Scalar.whole 1000) =
        .error cause

/-- An overlay composition is well-formed, unless there is nothing to render or a delay is no
number. -/
theorem composeOverlay_yields (timeline : Timeline τ) (access : MediaAccess)
    (settings : OutputFormat τ) (window : Window τ) (silentAudio : Bool) :
    Yields (composeOverlay timeline access settings window silentAudio)
      (fun failure => (failure = .nothingToRender ∧ window.duration ≤ Scalar.zero) ∨
        ∃ cause, failure = .number cause ∧ timeline.Endless window cause)
      Composition.WellFormed := by
  obtain ⟨numbered, -, video⟩ := Slice.gather_drawn access window false
    timeline.layersFromBottom Gathered.numbered_empty
  obtain ⟨numbered, more, audio⟩ :=
    Slice.gather_drawn access window true timeline.heardTracks numbered
  unfold composeOverlay
  dsimp only
  generalize Slice.gather access window true timeline.heardTracks _ = heard at *
  obtain ⟨audioSlices, gathered⟩ := heard
  split
  · next nothing =>
    simp only [Bool.and_eq_true, decide_eq_true_eq] at nothing
    exact .inl ⟨rfl, nothing.1.1⟩
  · refine Yields.bind (Yields.lift_graph (addBackground_plumbed gathered.inputs.length settings
      window.duration)) fun backed plumbed => ?_
    refine Yields.bind (Yields.lift_graph (addOverlays_plumbed settings
      (fun slice h => ((video slice h).mono more).wired) plumbed)) fun (canvas, laid) plumbed => ?_
    refine Yields.bind (Yields.lift_graph (addVideoOutput_plumbed plumbed (by decide)))
      fun pictured plumbed => ?_
    refine Yields.bind ((addAudioMix_plumbed settings window.duration silentAudio
      (fun slice h => (audio slice h).wired) plumbed (by decide)).imp ?_ fun _ plumbed => plumbed)
      fun (output, after) ⟨names, plumbed⟩ => ?_
    · rintro failure ⟨slice, hslice, cause, failed, rfl⟩
      have drawn := audio slice hslice
      obtain ⟨track, htrack, hclip⟩ := drawn.clip
      exact .inr ⟨cause, rfl, track, htrack, slice.clip, hclip, drawn.enabled, drawn.meets,
        drawn.localStart ▸ failed⟩
    · exact ⟨(plumbed.perm List.perm_append_comm).wellFormed, numbered.indices, numbered.media⟩

/-- A concat composition is well-formed, unless there is nothing to render. -/
theorem composeConcat_yields (timeline : Timeline τ) (access : MediaAccess)
    (settings : OutputFormat τ) (window : Window τ) :
    Yields (composeConcat timeline access settings window)
      (fun failure => failure = .nothingToRender ∧ window.duration ≤ Scalar.zero)
      Composition.WellFormed := by
  obtain ⟨numbered, -, video⟩ :=
    gatherTracks_wired access window timeline.layersFromBottom Gathered.numbered_empty
  obtain ⟨numbered, more, audio⟩ :=
    Slice.gather_drawn access window true timeline.heardTracks numbered
  unfold composeConcat
  dsimp only
  generalize Slice.gather access window true timeline.heardTracks _ = heard at *
  obtain ⟨audioSlices, gathered⟩ := heard
  split
  · next nothing =>
    simp only [Bool.and_eq_true, decide_eq_true_eq] at nothing
    exact ⟨rfl, nothing.1.1⟩
  · refine Yields.bind (Yields.lift_graph (addBackground_plumbed gathered.inputs.length settings
      window.duration)) fun backed plumbed => ?_
    refine Yields.bind (Yields.lift_graph (addTrackStreams_plumbed settings window.duration
      (fun slices h slice hslice => (video slices h slice hslice).mono more) plumbed))
      fun (canvas, laid) plumbed => ?_
    refine Yields.bind (Yields.lift_graph (addVideoOutput_plumbed plumbed (by decide)))
      fun pictured plumbed => ?_
    refine Yields.bind (Yields.lift_graph (addAudioSequence_plumbed settings window.duration
      (fun slice h => (audio slice h).wired) plumbed (by decide))) fun (output, after) plumbed => ?_
    exact ⟨(plumbed.perm (.swap _ _ _)).wellFormed, numbered.indices, numbered.media⟩

/-- What both compositors make is well-formed. Adding a stage never fails: nothing is composed only
if the window has no length, or if the delay of a clip in a mix is no number. -/
theorem compose_wellFormed (timeline : Timeline τ) (access : MediaAccess)
    (settings : OutputFormat τ) (window : Window τ) :
    (∀ silentAudio, Yields (composeOverlay timeline access settings window silentAudio)
      (fun failure => (failure = .nothingToRender ∧ window.duration ≤ Scalar.zero) ∨
        ∃ cause, failure = .number cause ∧ timeline.Endless window cause)
      Composition.WellFormed) ∧
    Yields (composeConcat timeline access settings window)
      (fun failure => failure = .nothingToRender ∧ window.duration ≤ Scalar.zero)
      Composition.WellFormed :=
  ⟨composeOverlay_yields timeline access settings window,
    composeConcat_yields timeline access settings window⟩

/-- A sound that comes too late is in no graph, although there is something to render. -/
theorem exists_graphless : ∃ (timeline : Timeline Double) (access : MediaAccess)
    (window : Window Double), window.start < window.stop ∧
      composeOverlay timeline access {} window ≠ .error .nothingToRender ∧
      ¬ ∃ composition, composeOverlay timeline access {} window = .ok composition := by
  have failed : composeOverlay LateSong.timeline RetitledFilm.access {} LateSong.window =
      .error (.number .infinite) := eq_error_of_map (by decide +kernel)
  refine ⟨LateSong.timeline, RetitledFilm.access, LateSong.window, by decide +kernel, ?_, ?_⟩
  · rw [failed]
    simp
  · rintro ⟨composition, composed⟩
    exact absurd (failed.symm.trans composed) (by simp)

end Montage
