import Mathlib.Algebra.Order.Group.MinMax
import Montage.Proofs.Compose.Gather
import Montage.Proofs.Compose.Mix
import Montage.Proofs.Text.Digits

/-!
# Overlays show the timeline

The overlay composition of a window is read back from its graph and compared with the timeline. At
every time the layers that are shown are the clips that the timeline shows, each at its own place in
its own file; and the branches of the sound are the clips that are heard in the window.

## Main definitions

* `Timeline.shownAt`, `Timeline.heardIn` — the clips that are shown at a time and heard in a window
* `Layer.Shows`, `Branch.Plays` — what a layer and a branch have to be for a clip

## Main results

* `composeOverlay_shows_timeline` — an overlay composition shows and plays its timeline
-/

namespace Montage

/-! ### Reference -/

/-- Whether a clip is shown at a time that is neither its first nor its last. -/
def Placement.shownAt (placement : Placement) (t : Rat) : Bool :=
  placement.clip.start < t && t < placement.clip.stop

/-- The enabled clips with known media on visible tracks that are shown at a time, the lowest first:
the last track comes first, and on a track the clips stand in the order of their insertion. -/
def Timeline.shownAt (timeline : Timeline Rat) (media : MediaLibrary) (t : Rat) : List Placement :=
  (placements media timeline.layersFromBottom).filter (·.shownAt t)

/-- The enabled clips with known media that are no images, on tracks that are heard, of which a
window has some stretch. -/
def Timeline.heardIn (timeline : Timeline Rat) (media : MediaLibrary) (window : Window Rat) :
    List Placement :=
  (placements media timeline.heardTracks).filter fun placement =>
    window.overlaps placement.clip && placement.item.type ≠ .image

/-- No clip begins or ends within a millionth of a second of a time. -/
def Timeline.ApartFrom (timeline : Timeline Rat) (t : Rat) : Prop :=
  ∀ clip ∈ timeline.clips, 1 / 1000000 ≤ |t - clip.start| ∧ 1 / 1000000 ≤ |t - clip.stop|

/-- The file behind a pad of an input. -/
def fileOf? (inputs : List InputFile) (stream pad : String) : Option String :=
  (inputs.find? fun input => toString input.index ++ ":" ++ stream = pad).map (·.path)

namespace Layer

/-- Whether a layer is shown at a time. -/
def covers (layer : Layer Rat) (t : Rat) : Bool := layer.start ≤ t && t ≤ layer.stop

/-- The time in the source of what a layer shows at a time, if it has something to show. -/
def sourceTime? (layer : Layer Rat) (t : Rat) : Option Rat := do
  let (first, last) ← layer.source
  let time := first + (t - layer.shift)
  if first ≤ time ∧ time < last then some time else none

/-- The layer with its times as they are written, with six places: each is written as it was
before (`fixed_roundSixPlaces`). -/
def written (layer : Layer Rat) : Layer Rat where
  pad := layer.pad
  source := layer.source.map (Prod.map Scalar.roundSixPlaces Scalar.roundSixPlaces)
  shift := Scalar.roundSixPlaces layer.shift
  start := Scalar.roundSixPlaces layer.start
  stop := Scalar.roundSixPlaces layer.stop

/-- A layer shows a clip of a window as it is at a time. -/
structure Shows (access : MediaAccess) (inputs : List InputFile) (window : Window Rat) (t : Rat)
    (layer : Layer Rat) (placement : Placement) : Prop where
  file : fileOf? inputs "v" layer.pad =
    some (placement.item.resolvedPath access.useProxies access.pathExists)
  time : placement.item.type ≠ .image → layer.sourceTime? t =
    some (placement.clip.mediaIn + (window.start + t - placement.clip.start))
  still : placement.item.type = .image → layer.source = none

/-- A layer as it is written is shown at a time exactly if it is without rounding, and what it
shows then is off by a millionth of a second at most. -/
structure Faithful (layer : Layer Rat) (t : Rat) : Prop where
  covers : layer.written.covers t = layer.covers t
  time : ∀ first last, layer.source = some (first, last) → ∃ first' last',
    layer.written.source = some (first', last') ∧
      |first' + (t - layer.written.shift) - (first + (t - layer.shift))| ≤ 1 / 1000000

/-- Two roundings are off by half a millionth each. -/
theorem faithful {layer : Layer Rat} {t : Rat}
    (covers : layer.written.covers t = layer.covers t) : layer.Faithful t := by
  refine ⟨covers, fun first last source => ⟨Scalar.roundSixPlaces first,
    Scalar.roundSixPlaces last, by rw [written, source]; rfl, ?_⟩⟩
  obtain ⟨low, high⟩ := abs_le.mp (abs_roundSixPlaces_sub_le first)
  obtain ⟨low', high'⟩ := abs_le.mp (abs_roundSixPlaces_sub_le layer.shift)
  change |Scalar.roundSixPlaces first + (t - Scalar.roundSixPlaces layer.shift) - _| ≤ _
  rw [abs_le]
  constructor <;> linarith

end Layer

/-- A branch plays a clip of a window. -/
structure Branch.Plays (access : MediaAccess) (inputs : List InputFile) (window : Window Rat)
    (branch : Branch Rat) (placement : Placement) : Prop where
  file : fileOf? inputs "a" branch.pad =
    some (placement.item.resolvedPath access.useProxies access.pathExists)
  first : branch.source.1 =
    placement.clip.mediaIn + max 0 (window.start - placement.clip.start)
  last : branch.source.2 = branch.source.1 +
    (min window.stop placement.clip.stop - max window.start placement.clip.start)
  volume : branch.volume = placement.track.volume
  delay : branch.delay = roundHalfEven (max 0 (placement.clip.start - window.start) * 1000)
  length : branch.length = window.duration

/-! ### Pads -/

/-- The pad of an input leads to its file. -/
theorem fileOf?_eq {access : MediaAccess} {gathered : Gathered} (listed : gathered.Listed access)
    {i : Nat} {input : InputFile} (h : gathered.inputs[i]? = some input) (stream : String) :
    fileOf? gathered.inputs stream (toString (i : Int) ++ ":" ++ stream) = some input.path := by
  have pads : toString (i : Int) = toString i := rfl
  have found : gathered.inputs.find? (fun input => toString input.index ++ ":" ++ stream =
      toString i ++ ":" ++ stream) = some input := by
    obtain ⟨place, rfl⟩ := List.getElem?_eq_some_iff.mp h
    refine List.find?_eq_some_iff_getElem.mpr ⟨?_, i, place, rfl, fun j before => ?_⟩
    · simp [listed.placed i _ h]
    · have place' : j < gathered.inputs.length := before.trans place
      have index := listed.placed j _ (List.getElem?_eq_getElem place')
      simp only [Bool.not_eq_true', decide_eq_false_iff_not, index]
      exact fun same => before.ne (Text.number_inj_of_colon same)
  rw [fileOf?, pads, found, Option.map_some]

/-! ### Clips -/

theorem clip_mem_of_mem_placements {media : MediaLibrary} {timeline : Timeline Rat}
    {tracks : List (Track Rat)} (within : tracks ⊆ timeline.tracks) {placement : Placement}
    (h : placement ∈ placements media tracks) : placement.clip ∈ timeline.clips := by
  obtain ⟨track, htrack, h⟩ := List.mem_flatMap.mp h
  obtain ⟨clip, hclip, placed⟩ := List.mem_filterMap.mp h
  unfold place? at placed
  split at placed
  · obtain ⟨item, -, rfl⟩ := Option.map_eq_some_iff.mp placed
    exact List.mem_flatMap.mpr ⟨track, within htrack, hclip⟩
  · exact absurd placed (by simp)

theorem Timeline.layersFromBottom_subset (timeline : Timeline Rat) :
    timeline.layersFromBottom ⊆ timeline.tracks := by
  intro track h
  simp only [layersFromBottom, layersFromTop, videoTracks, List.mem_reverse, List.mem_filter] at h
  exact h.1.1

/-! ### Layers -/

section Layers

variable {access : MediaAccess} {gathered : Gathered} {window : Window Rat} {t : Rat}
  {slice : Slice Rat} {placement : Placement}

/-- Away from the ends of a clip, its layer is shown exactly while the clip is. -/
theorem Slice.Cuts.covers_iff (cut : slice.Cuts access window gathered.inputs placement)
    (first : 0 ≤ t) (last : t < window.duration)
    (apart : window.start + t ≠ placement.clip.start ∧ window.start + t ≠ placement.clip.stop) :
    slice.layer.covers t = true ↔
      placement.clip.start < window.start + t ∧ window.start + t < placement.clip.stop := by
  change (decide (slice.localStart ≤ t) && decide (t ≤ slice.localStop)) = true ↔ _
  rw [Bool.and_eq_true, decide_eq_true_eq, decide_eq_true_eq, cut.localStart, cut.localStop,
    max_le_iff, le_min_iff]
  constructor
  · rintro ⟨⟨-, begun⟩, -, ended⟩
    exact ⟨lt_of_le_of_ne (by linarith) apart.1.symm, lt_of_le_of_ne (by linarith) apart.2⟩
  · rintro ⟨begun, ended⟩
    exact ⟨⟨first, by linarith⟩, last.le, by linarith⟩

/-- While its layer is shown, the clip plays as it is placed. -/
theorem Slice.Cuts.shows (keyed : access.media.Keyed) (listed : gathered.Listed access)
    (cut : slice.Cuts access window gathered.inputs placement) (first : 0 ≤ t)
    (last : t < window.duration) (begun : placement.clip.start < window.start + t)
    (ended : window.start + t < placement.clip.stop) :
    slice.layer.Shows access gathered.inputs window t placement := by
  obtain ⟨i, input, index, serves⟩ := cut.input
  refine ⟨?_, fun moving => ?_, fun still => ?_⟩
  · change fileOf? gathered.inputs "v" (toString slice.inputIndex ++ ":" ++ "v") = _
    rw [index, fileOf?_eq listed serves.here, serves.path keyed]
  · have source : slice.layer.source = some (slice.sourceIn, slice.sourceOut) := by
      rw [Slice.layer, cut.media, if_neg moving]
    have shift : slice.layer.shift = slice.localStart := by
      have nonneg : 0 ≤ slice.localStart := cut.localStart ▸ le_max_left _ _
      change (if slice.localStart ≤ Scalar.zero then Scalar.zero else slice.localStart) = _
      rw [Scalar.zero_rat]
      split
      · next low => exact le_antisymm nonneg low
      · rfl
    have place : slice.sourceIn + (t - slice.localStart) =
        placement.clip.mediaIn + (window.start + t - placement.clip.start) := by
      rw [cut.sourceIn, cut.localStart]
      rcases le_total window.start placement.clip.start with h | h
      · rw [max_eq_left (by linarith), max_eq_right (by linarith)]
        ring
      · rw [max_eq_right (by linarith), max_eq_left (by linarith)]
        ring
    have early : slice.localStart ≤ t := by
      rw [cut.localStart]
      exact max_le first (by linarith)
    have late : t < slice.localStop := by
      rw [cut.localStop]
      exact lt_min last (by linarith)
    rw [Layer.sourceTime?, source]
    change (if slice.sourceIn ≤ slice.sourceIn + (t - slice.layer.shift) ∧
      slice.sourceIn + (t - slice.layer.shift) < slice.sourceOut then _ else _) = _
    rw [shift, cut.sourceOut, if_pos ⟨by linarith, by linarith⟩, place]
  · rw [Slice.layer, cut.media, if_pos still]

/-- A branch plays what the window has of its clip. -/
theorem Slice.Cuts.plays (keyed : access.media.Keyed) (listed : gathered.Listed access)
    (cut : slice.Cuts access window gathered.inputs placement) :
    (slice.branch window.duration).Plays access gathered.inputs window placement := by
  obtain ⟨i, input, index, serves⟩ := cut.input
  refine ⟨?_, cut.sourceIn, ?_, cut.volume, ?_, rfl⟩
  · change fileOf? gathered.inputs "a" (toString slice.inputIndex ++ ":" ++ "a") = _
    rw [index, fileOf?_eq listed serves.here, serves.path keyed]
  · change slice.sourceOut = slice.sourceIn + _
    have length : window.duration = window.stop - window.start := rfl
    have stop : slice.localStop = min window.stop placement.clip.stop - window.start := by
      rw [cut.localStop, length, min_sub_sub_right]
    have start : slice.localStart = max window.start placement.clip.start - window.start := by
      rw [cut.localStart, ← max_sub_sub_right, sub_self]
    rw [cut.sourceOut, stop, start]
    ring
  · change roundHalfEven (slice.localStart * 1000) = _
    rw [cut.localStart]

/-- Away from the ends of a clip and of the window, a layer with its times as they are written is
shown exactly while it is without rounding. -/
theorem Slice.Cuts.written_covers (cut : slice.Cuts access window gathered.inputs placement)
    (last : t ≤ window.duration - 1 / 1000000)
    (apart : 1 / 1000000 ≤ |window.start + t - placement.clip.start| ∧
      1 / 1000000 ≤ |window.start + t - placement.clip.stop|) :
    slice.layer.written.covers t = slice.layer.covers t := by
  change (decide (Scalar.roundSixPlaces slice.localStart ≤ t) &&
    decide (t ≤ Scalar.roundSixPlaces slice.localStop)) =
      (decide (slice.localStart ≤ t) && decide (t ≤ slice.localStop))
  have starts : Scalar.roundSixPlaces slice.localStart ≤ t ↔ slice.localStart ≤ t := by
    rw [cut.localStart]
    rcases le_total (placement.clip.start - window.start) 0 with h | h
    · rw [max_eq_left h, roundSixPlaces_zero]
    · rw [max_eq_right h]
      refine (roundSixPlaces_compare ?_).1
      rw [show t - (placement.clip.start - window.start) =
        window.start + t - placement.clip.start by ring]
      exact apart.1
  have stops : t ≤ Scalar.roundSixPlaces slice.localStop ↔ t ≤ slice.localStop := by
    rw [cut.localStop]
    refine (roundSixPlaces_compare ?_).2
    rcases le_total window.duration (placement.clip.stop - window.start) with h | h
    · rw [min_eq_left h, abs_sub_comm]
      exact (by linarith : _ ≤ window.duration - t).trans (le_abs_self _)
    · rw [min_eq_right h, show t - (placement.clip.stop - window.start) =
        window.start + t - placement.clip.stop by ring]
      exact apart.2
  rw [decide_eq_decide.mpr starts, decide_eq_decide.mpr stops]

/-- The layers that are shown are those of the clips that are shown. -/
theorem layers_show (keyed : access.media.Keyed) (listed : gathered.Listed access)
    (first : 0 ≤ t) (last : t < window.duration) {slices : List (Slice Rat)} {placed : List Placement}
    (cuts : List.Forall₂ (Slice.Cuts access window gathered.inputs) slices placed)
    (apart : ∀ placement ∈ placed, window.start + t ≠ placement.clip.start ∧
      window.start + t ≠ placement.clip.stop) :
    List.Forall₂ (Layer.Shows access gathered.inputs window t)
      ((slices.map Slice.layer).filter (·.covers t)) (placed.filter (·.shownAt (window.start + t))) := by
  induction cuts with
  | nil => exact .nil
  | @cons slice placement _ _ cut _ ih =>
    have here := cut.covers_iff first last (apart placement List.mem_cons_self)
    have rest := ih fun other hother => apart other (List.mem_cons_of_mem _ hother)
    rw [List.map_cons, List.filter_cons, List.filter_cons]
    by_cases shown : placement.shownAt (window.start + t) = true
    · obtain ⟨begun, ended⟩ := by simpa [Placement.shownAt] using shown
      rw [if_pos shown, if_pos (here.mpr ⟨begun, ended⟩)]
      exact .cons (cut.shows keyed listed first last begun ended) rest
    · have hidden : ¬ slice.layer.covers t = true := fun covers => shown (by
        simpa [Placement.shownAt] using here.mp covers)
      rw [if_neg shown, if_neg hidden]
      exact rest

/-- All layers are written faithfully. -/
theorem layers_faithful {slices : List (Slice Rat)} {placed : List Placement}
    (cuts : List.Forall₂ (Slice.Cuts access window gathered.inputs) slices placed)
    (last : t ≤ window.duration - 1 / 1000000)
    (apart : ∀ placement ∈ placed, 1 / 1000000 ≤ |window.start + t - placement.clip.start| ∧
      1 / 1000000 ≤ |window.start + t - placement.clip.stop|) :
    ∀ layer ∈ slices.map Slice.layer, layer.Faithful t := by
  induction cuts with
  | nil => simp
  | cons cut _ ih =>
    rw [List.map_cons, List.forall_mem_cons]
    exact ⟨Layer.faithful (cut.written_covers last (apart _ List.mem_cons_self)),
      ih fun other hother => apart other (List.mem_cons_of_mem _ hother)⟩

end Layers

/-- What is shown at a time in a window is shown in the window. -/
theorem Placement.shown_of_shownAt {window : Window Rat} {t : Rat} (first : 0 ≤ t)
    (last : t < window.duration) {placement : Placement}
    (h : placement.shownAt (window.start + t) = true) : Slice.shown window false placement = true := by
  obtain ⟨begun, ended⟩ : placement.clip.start < window.start + t ∧
    window.start + t < placement.clip.stop := by simpa [shownAt] using h
  have length : window.duration = window.stop - window.start := rfl
  have overlaps : max window.start placement.clip.start < min window.stop placement.clip.stop :=
    (max_le (by linarith) begun.le).trans_lt (lt_min (by linarith) ended)
  simp [Slice.shown, Window.overlaps, overlaps]

/-- A window that has length is composed of the slices that it has. -/
theorem composeOverlay_reads (timeline : Timeline Rat) (access : MediaAccess)
    (settings : OutputFormat Rat) (window : Window Rat) (length : window.start < window.stop)
    (silentAudio : Bool) {videoSlices audioSlices : List (Slice Rat)} {seen gathered : Gathered}
    (video : Slice.gather access window false timeline.layersFromBottom {} = (videoSlices, seen))
    (audio : Slice.gather access window true timeline.heardTracks seen =
      (audioSlices, gathered)) :
    ∃ composition, composeOverlay timeline access settings window silentAudio = .ok composition ∧
      composition.inputs = gathered.inputs ∧
      composition.graph.Pictures FilterGraph.layer? (videoSlices.map Slice.layer) ∧
      composition.graph.sound? composition.audioOutput =
        some (audioSlices.map fun slice => slice.branch window.duration) := by
  have positive : ¬ window.duration ≤ Scalar.zero := by
    rw [Scalar.zero_rat, not_le]
    exact sub_pos.mpr length
  have filled : [colorSource settings window.duration settings.background] ≠ [] := by simp
  obtain ⟨backed, added, tidy, -, made⟩ := FilterGraph.tidy_empty.add
    (by decide : Wordy baseLabel) (by simp) [] filled
  obtain ⟨canvas, stacked, done, tidy, -, layered⟩ :=
    addOverlays_stacks settings videoSlices tidy (.base made)
  have filled' : [(.withValues "null" [] : Filter Rat)] ≠ [] := by simp
  obtain ⟨pictured, added', tidy, grows, made'⟩ :=
    tidy.add (by decide : Wordy videoLabel) (by decide) [canvas] filled'
  obtain ⟨output, after, mixed, grows', sound⟩ :=
    addAudioMix_sound? settings window.duration silentAudio audioSlices tidy (by decide)
  refine ⟨{
    inputs := gathered.inputs, graph := after, duration := window.duration
    videoOutput := videoLabel, audioOutput := output, diagnostics := gathered.diagnostics },
    ?_, rfl, ⟨canvas, grows' _ _ made', ?_⟩, sound⟩
  · unfold composeOverlay addBackground addVideoOutput
    simp only [video, audio, decide_eq_false positive, Bool.false_and, Bool.false_eq_true, if_false,
      added, done, added', mixed, liftM_graph_ok, bind, Except.bind]
    rfl
  · exact layered.mono FilterGraph.layer?_stable (grows.trans grows')

/-- An overlay composition shows its timeline: at every time in the window at which no clip begins
or ends, the layers that are shown are the clips that the timeline shows, the lowest first, each at
its own place in its own file, also when the times are rounded as they are written. And it plays
its timeline: what is mixed is what the window has of the clips that are heard. -/
theorem composeOverlay_shows_timeline (timeline : Timeline Rat) (access : MediaAccess)
    (keyed : access.media.Keyed) (settings : OutputFormat Rat) (window : Window Rat)
    (length : window.start < window.stop) (silentAudio : Bool) :
    ∃ composition layers branches,
      composeOverlay timeline access settings window silentAudio = .ok composition ∧
      composition.graph.Pictures FilterGraph.layer? layers ∧
      composition.graph.sound? composition.audioOutput = some branches ∧
      (∀ t, 0 ≤ t → t < window.duration → timeline.ApartFrom (window.start + t) →
        List.Forall₂ (Layer.Shows access composition.inputs window t)
          (layers.filter (·.covers t)) (timeline.shownAt access.media (window.start + t)) ∧
        (t ≤ window.duration - 1 / 1000000 → ∀ layer ∈ layers, layer.Faithful t)) ∧
      List.Forall₂ (Branch.Plays access composition.inputs window) branches
        (timeline.heardIn access.media window) := by
  rcases video : Slice.gather access window false timeline.layersFromBottom {} with
    ⟨videoSlices, seen⟩
  rcases audio : Slice.gather access window true timeline.heardTracks seen with
    ⟨audioSlices, gathered⟩
  obtain ⟨listed, -, videoCuts⟩ := Slice.gather_cuts window false timeline.layersFromBottom
    (Gathered.listed_empty access)
  rw [video] at listed videoCuts
  obtain ⟨listed, grows, audioCuts⟩ :=
    Slice.gather_cuts window true timeline.heardTracks listed
  rw [audio] at listed grows audioCuts
  have videoCuts := videoCuts.imp fun _ _ cut => cut.mono grows
  obtain ⟨composition, composed, inputs, pictures, sound⟩ :=
    composeOverlay_reads timeline access settings window length silentAudio video audio
  have within : ∀ placement ∈ (placements access.media timeline.layersFromBottom).filter
      (Slice.shown window false), placement.clip ∈ timeline.clips := fun placement h =>
    clip_mem_of_mem_placements timeline.layersFromBottom_subset (List.mem_filter.mp h).1
  refine ⟨composition, _, _, composed, pictures, sound, fun t first last apart => ⟨?_, ?_⟩, ?_⟩
  · have shown : timeline.shownAt access.media (window.start + t) =
        ((placements access.media timeline.layersFromBottom).filter
          (Slice.shown window false)).filter (·.shownAt (window.start + t)) := by
      rw [Timeline.shownAt, List.filter_filter]
      refine List.filter_congr fun placement _ => ?_
      by_cases h : placement.shownAt (window.start + t) = true
      · rw [h, Placement.shown_of_shownAt first last h, Bool.and_self]
      · rw [Bool.eq_false_iff.mpr h, Bool.false_and]
    rw [shown, inputs]
    refine layers_show keyed listed first last videoCuts fun placement h => ?_
    obtain ⟨begin, stop⟩ := apart _ (within placement h)
    exact ⟨fun same => by norm_num [same] at begin, fun same => by norm_num [same] at stop⟩
  · exact fun before => layers_faithful videoCuts before fun placement h =>
      apart _ (within placement h)
  · rw [inputs, List.forall₂_map_left_iff]
    have heard : timeline.heardIn access.media window =
        (placements access.media timeline.heardTracks).filter (Slice.shown window true) := by
      refine List.filter_congr fun placement _ => ?_
      simp [Slice.shown]
    rw [heard]
    exact audioCuts.imp fun _ _ cut => cut.plays keyed listed

/-! ### A title over a film -/

namespace TitledFilm

/-- The film from its tenth second on, for two seconds. -/
def film : Clip Rat where
  id := "film"
  mediaId := some "film"
  trackId := "below"
  start := 1
  duration := 2
  mediaIn := 10
  mediaOut := 12
  times_nonneg := by decide +kernel

def title : Clip Rat where
  id := "title"
  mediaId := some "title"
  trackId := "above"
  start := 0
  duration := 4
  mediaIn := 0
  mediaOut := 4
  times_nonneg := by decide +kernel

def timeline : Timeline Rat where
  tracks := [
    { id := "above", kind := .video, clips := [title], volume := 1 },
    { id := "below", kind := .video, clips := [film], volume := 1 }]

def access : MediaAccess where
  media := [("film", { id := "film", type := .video, path := "film.mp4" }),
    ("title", { id := "title", type := .image, path := "title.png" })]
  useProxies := false
  pathExists _ := false

end TitledFilm

/-- One second into the window from one to four, the film is shown in its eleventh second, and the
title above it. -/
theorem titled_film_is_shown : TitledFilm.access.media.Keyed ∧ (1 : Rat) < 4 ∧
    ∃ composition layers,
      composeOverlay TitledFilm.timeline TitledFilm.access {} ⟨1, 4⟩ = .ok composition ∧
      composition.graph.Pictures FilterGraph.layer? layers ∧
      ((layers.filter (·.covers 1)).map fun layer =>
        (fileOf? composition.inputs "v" layer.pad, layer.sourceTime? 1)) =
          [(some "film.mp4", some 11), (some "title.png", none)] := by
  have keyed : TitledFilm.access.media.Keyed := by decide
  have length : (1 : Rat) < 4 := by decide +kernel
  obtain ⟨composition, layers, -, composed, pictures, -, shown, -⟩ :=
    composeOverlay_shows_timeline TitledFilm.timeline TitledFilm.access keyed {} ⟨1, 4⟩ length true
  have apart : TitledFilm.timeline.ApartFrom (1 + 1) := by
    intro clip h
    have h : clip ∈ [TitledFilm.title, TitledFilm.film] := h
    rw [List.mem_pair] at h
    rcases h with rfl | rfl <;> decide +kernel
  have now := (shown 1 (by decide +kernel) (by decide +kernel) apart).1
  refine ⟨keyed, length, composition, layers, composed, pictures, ?_⟩
  have read : ((layers.filter (·.covers 1)).map fun layer =>
      (fileOf? composition.inputs "v" layer.pad, layer.sourceTime? 1)) =
        (TitledFilm.timeline.shownAt TitledFilm.access.media (1 + 1)).map fun placement =>
          (some (placement.item.resolvedPath false fun _ => false),
            if placement.item.type = .image then none
            else some (placement.clip.mediaIn + (1 + 1 - placement.clip.start))) := by
    refine map_eq_map_of_forall₂ (now.imp fun layer placement shows => Prod.ext shows.file ?_)
    by_cases image : placement.item.type = .image
    · simp [image, Layer.sourceTime?, shows.still image]
    · rw [shows.time image, if_neg image]
  rw [read]
  decide +kernel

end Montage
