import Montage.Proofs.Number.Exact
import Montage.Slice

/-!
# Slices of a timeline

The slices of some tracks in a window are cut out of the enabled clips with known media that overlap
the window, in the order in which the clips stand on the tracks. Each reads the input of its media,
which is the file of its media if every media item is under its own id.

## Main definitions

* `Placement`, `placements` — a clip with its track and its media, and all that there are on tracks
* `Slice.Cuts` — a slice is what a window shows of a placement
* `Gathered.Listed` — the inputs stand at their places, and are the files of media

## Main results

* `Slice.gather_cuts` — the slices of tracks are cut out of their placements
-/

namespace Montage

/-- A clip with the track that it is on and its media. -/
structure Placement where
  track : Track Rat
  clip : Clip Rat
  item : MediaFile

/-- A clip with its track and its media, if it is enabled and its media are known. -/
def place? (media : MediaLibrary) (track : Track Rat) (clip : Clip Rat) : Option Placement :=
  if clip.enabled then (media.find? clip.mediaId).map fun item => ⟨track, clip, item⟩ else none

/-- The enabled clips of some tracks whose media are known, in order. -/
def placements (media : MediaLibrary) (tracks : List (Track Rat)) : List Placement :=
  tracks.flatMap fun track => track.clips.filterMap (place? media track)

/-- Whether a window shows some stretch of a clip. -/
def Window.overlaps (window : Window Rat) (clip : Clip Rat) : Bool :=
  max window.start clip.start < min window.stop clip.stop

/-- Every item of a library is under its own id. -/
def MediaLibrary.Keyed (media : MediaLibrary) : Prop :=
  ∀ key item, (key, item) ∈ media → item.id = key

instance (media : MediaLibrary) : Decidable media.Keyed :=
  decidable_of_iff (∀ entry ∈ media, entry.2.id = entry.1)
    ⟨fun h key item hitem => h (key, item) hitem, fun h entry => h entry.1 entry.2⟩

/-- An item that is found is the one under its id. -/
theorem MediaLibrary.Keyed.find? {media : MediaLibrary} (keyed : media.Keyed)
    {mediaId : Option String} {item : MediaFile} (h : media.find? mediaId = some item) :
    media.get? item.id = some item := by
  unfold MediaLibrary.find? at h
  split at h
  · next key =>
    split at h
    · exact absurd h (by simp)
    · obtain ⟨before, after, hmedia, -⟩ := List.lookup_eq_some_iff.mp h
      rw [keyed key item (by simp [hmedia])]
      exact h
  · exact absurd h (by simp)

/-! ### Inputs -/

/-- The inputs stand at their places, and each is the file of the media under its id. -/
structure Gathered.Listed (access : MediaAccess) (gathered : Gathered) : Prop where
  placed : ∀ (i : Nat) (input : InputFile), gathered.inputs[i]? = some input → input.index = i
  known : access.media.Keyed → ∀ input ∈ gathered.inputs, ∃ item,
    access.media.get? input.mediaId = some item ∧
      input.path = item.resolvedPath access.useProxies access.pathExists

/-- The input at a place is that of a media item; if items are under their own ids, it is their
file. -/
structure MediaAccess.Serves (access : MediaAccess) (inputs : List InputFile) (i : Nat)
    (item : MediaFile) (input : InputFile) : Prop where
  here : inputs[i]? = some input
  media : input.mediaId = item.id
  path : access.media.Keyed → input.path = item.resolvedPath access.useProxies access.pathExists

namespace Gathered

variable {access : MediaAccess} {gathered : Gathered}

theorem listed_empty (access : MediaAccess) : ({} : Gathered).Listed access :=
  ⟨by simp, by simp⟩

/-- The file of a media item is among the inputs from here on. -/
theorem Listed.inputFor (listed : gathered.Listed access) {item : MediaFile}
    (found : access.media.Keyed → access.media.get? item.id = some item) :
    (gathered.inputFor access item).2.Listed access ∧
      gathered.inputs <+: (gathered.inputFor access item).2.inputs ∧
      ∃ input, access.Serves (gathered.inputFor access item).2.inputs
        (gathered.inputFor access item).1 item input := by
  unfold Gathered.inputFor
  split
  · next input hfind =>
    -- The file is an input already; it is the same one if files are listed under their ids.
    have hinput := List.mem_of_find?_eq_some hfind
    have same : input.mediaId = item.id := by simpa using List.find?_some hfind
    obtain ⟨i, hi⟩ := List.mem_iff_getElem?.mp hinput
    refine ⟨listed, List.prefix_refl _, input, ?_, same, fun keyed => ?_⟩
    · rw [listed.placed i input hi, hi]
    · obtain ⟨other, hother, path⟩ := listed.known keyed input hinput
      obtain rfl : other = item := Option.some.inj (hother.symm.trans (same ▸ found keyed))
      exact path
  · refine ⟨⟨fun i input hi => ?_, fun keyed input hinput => ?_⟩, List.prefix_append _ _,
      ⟨gathered.inputs.length, item.id, item.resolvedPath access.useProxies access.pathExists⟩,
      by simp, rfl, fun _ => rfl⟩
    · rcases Nat.lt_or_ge i gathered.inputs.length with before | last
      · rw [List.getElem?_append_left before] at hi
        exact listed.placed i input hi
      · rw [List.getElem?_append_right last] at hi
        obtain ⟨place, rfl⟩ := List.getElem?_eq_some_iff.mp hi
        have : i = gathered.inputs.length := by
          rw [List.length_singleton] at place
          omega
        simp [this]
    · rcases List.mem_append.mp hinput with hinput | hinput
      · exact listed.known keyed input hinput
      · obtain rfl := List.mem_singleton.mp hinput
        exact ⟨item, found keyed, rfl⟩

end Gathered

/-! ### Slices -/

/-- A slice is what a window shows of a placement, and reads the input of its media. -/
structure Slice.Cuts (access : MediaAccess) (window : Window Rat) (inputs : List InputFile)
    (slice : Slice Rat) (placement : Placement) : Prop where
  clip : slice.clip = placement.clip
  media : slice.media = placement.item
  localStart : slice.localStart = max 0 (placement.clip.start - window.start)
  localStop : slice.localStop = min window.duration (placement.clip.stop - window.start)
  sourceIn : slice.sourceIn = placement.clip.mediaIn + max 0 (window.start - placement.clip.start)
  sourceOut : slice.sourceOut = slice.sourceIn + (slice.localStop - slice.localStart)
  volume : slice.volume = placement.track.volume
  input : ∃ (i : Nat) (input : InputFile), slice.inputIndex = i ∧
    access.Serves inputs i placement.item input

namespace Slice

variable {access : MediaAccess} {window : Window Rat} {inputs after : List InputFile}

/-- The input stays where it is when others join. -/
theorem Cuts.mono {slice : Slice Rat} {placement : Placement}
    (h : slice.Cuts access window inputs placement) (grows : inputs <+: after) :
    slice.Cuts access window after placement where
  clip := h.clip
  media := h.media
  localStart := h.localStart
  localStop := h.localStop
  sourceIn := h.sourceIn
  sourceOut := h.sourceOut
  volume := h.volume
  input := by
    obtain ⟨i, input, index, serves⟩ := h.input
    obtain ⟨rest, rfl⟩ := grows
    refine ⟨i, input, index, ?_, serves.media, serves.path⟩
    rw [List.getElem?_append_left (List.getElem?_eq_some_iff.mp serves.here).1, serves.here]

/-- A window overlaps a clip if it meets it, and the local times of the clip are in order. -/
theorem overlaps_iff {clip : Clip Rat} : max window.start clip.start < min window.stop clip.stop ↔
    (clip.start < window.stop ∧ window.start < clip.stop) ∧
      ¬ min window.duration (clip.stop - window.start) ≤ max 0 (clip.start - window.start) := by
  have length : window.duration = window.stop - window.start := rfl
  rw [length, not_le, lt_min_iff, max_lt_iff, max_lt_iff, lt_min_iff, max_lt_iff, max_lt_iff]
  constructor
  · rintro ⟨⟨h1, h2⟩, h3, h4⟩
    exact ⟨⟨h2, h3⟩, ⟨by linarith, by linarith⟩, by linarith, by linarith⟩
  · rintro ⟨⟨h1, -⟩, ⟨h3, h4⟩, h5, h6⟩
    exact ⟨⟨by linarith, h1⟩, by linarith, by linarith⟩

/-- A clip has a slice in a window exactly if the two overlap. -/
theorem ofClip?_rat {clip : Clip Rat} (item : MediaFile) :
    ofClip? clip item window = if window.overlaps clip then some {
      clip, media := item
      localStart := max 0 (clip.start - window.start)
      localStop := min window.duration (clip.stop - window.start)
      sourceIn := clip.mediaIn + max 0 (window.start - clip.start)
      sourceOut := clip.mediaIn + max 0 (window.start - clip.start) +
        (min window.duration (clip.stop - window.start) - max 0 (clip.start - window.start)) }
    else none := by
  unfold ofClip? Window.meets Window.intersects Window.overlaps
  simp only [Scalar.maxOf_rat, Scalar.minOf_rat, Scalar.zero_rat, Bool.and_eq_true,
    decide_eq_true_eq, overlaps_iff]
  by_cases meets : clip.start < window.stop ∧ window.start < clip.stop
  · rw [if_pos meets]
    by_cases h : min window.duration (clip.stop - window.start) ≤ max 0 (clip.start - window.start)
    · rw [if_pos h, if_neg (by simp [h])]
    · rw [if_neg h, if_pos ⟨meets, h⟩]
  · rw [if_neg meets, if_neg (fun h => meets h.1)]

/-- What a window shows of some placements; images make no sound. -/
def shown (window : Window Rat) (skipImages : Bool) (placement : Placement) : Bool :=
  window.overlaps placement.clip && !(skipImages && placement.item.type = .image)

theorem meets_of_overlaps {clip : Clip Rat} (h : window.overlaps clip = true) :
    window.meets clip = true := by
  have := (overlaps_iff.mp (of_decide_eq_true h)).1
  simpa [Window.meets, Window.intersects] using this

/-- The slice of a clip is cut out of its placement, if there is one and the window shows it. -/
theorem gatherClip_cuts (window : Window Rat) (skipImages : Bool) (track : Track Rat)
    (clip : Clip Rat) {gathered : Gathered} (listed : gathered.Listed access) :
    (gatherClip access window skipImages track clip gathered).2.Listed access ∧
      gathered.inputs <+: (gatherClip access window skipImages track clip gathered).2.inputs ∧
      List.Forall₂
        (Cuts access window (gatherClip access window skipImages track clip gathered).2.inputs)
        (gatherClip access window skipImages track clip gathered).1.toList
        ((place? access.media track clip).toList.filter (shown window skipImages)) := by
  unfold gatherClip place?
  split
  · next out =>
    -- The clip is disabled or does not overlap the window, so it is not shown either.
    refine ⟨listed, List.prefix_refl _, ?_⟩
    rcases Bool.or_eq_true_iff.mp out with disabled | apart
    · simp [show clip.enabled = false by simpa using disabled]
    · have apart : window.overlaps clip = false := by
        by_contra overlaps
        simp [meets_of_overlaps (by simpa using overlaps)] at apart
      split <;> cases access.media.find? clip.mediaId <;> simp [shown, apart]
  · next within =>
    have enabled : clip.enabled = true := by
      by_contra disabled
      simp [disabled] at within
    rw [if_pos enabled]
    split
    · next unknown => exact ⟨⟨listed.placed, listed.known⟩, List.prefix_refl _, by simp [unknown]⟩
    · next item found =>
      rw [found]
      split
      · next image => exact ⟨listed, List.prefix_refl _, by simp [shown, image]⟩
      · next moving =>
        rw [ofClip?_rat]
        by_cases overlaps : window.overlaps clip = true
        · rw [if_pos overlaps]
          obtain ⟨listed', grows, input, serves⟩ :=
            listed.inputFor fun keyed => keyed.find? found
          refine ⟨listed', grows, ?_⟩
          have here : shown window skipImages ⟨track, clip, item⟩ = true := by
            rw [shown, overlaps, Bool.true_and, Bool.not_eq_true']
            exact Bool.eq_false_iff.mpr moving
          simp only [Option.map_some, Option.toList_some, List.filter_cons, here, if_true,
            List.filter_nil]
          exact .cons ⟨rfl, rfl, rfl, rfl, rfl, rfl, rfl, _, input, rfl, serves⟩ .nil
        · rw [if_neg overlaps]
          exact ⟨listed, List.prefix_refl _, by simp [shown, overlaps]⟩

/-- The slices of clips on their tracks. -/
theorem gatherClips_cuts (window : Window Rat) (skipImages : Bool)
    (clips : List (Track Rat × Clip Rat)) {gathered : Gathered} (listed : gathered.Listed access) :
    (gatherClips access window skipImages clips gathered).2.Listed access ∧
      gathered.inputs <+: (gatherClips access window skipImages clips gathered).2.inputs ∧
      List.Forall₂
        (Cuts access window (gatherClips access window skipImages clips gathered).2.inputs)
        (gatherClips access window skipImages clips gathered).1
        ((clips.flatMap fun (track, clip) => (place? access.media track clip).toList).filter
          (shown window skipImages)) := by
  induction clips generalizing gathered with
  | nil => exact ⟨listed, List.prefix_refl _, .nil⟩
  | cons entry rest ih =>
    obtain ⟨track, clip⟩ := entry
    obtain ⟨listed', grows, cuts⟩ := gatherClip_cuts window skipImages track clip listed
    obtain ⟨listed'', grows', cuts'⟩ := ih listed'
    rw [gatherClips, List.flatMap_cons, List.filter_append]
    refine ⟨listed'', grows.trans grows', List.rel_append ?_ cuts'⟩
    exact cuts.imp fun _ _ cut => cut.mono grows'

/-- The slices of some tracks are cut out of the placements on them that the window shows. -/
theorem gather_cuts (window : Window Rat) (skipImages : Bool) (tracks : List (Track Rat))
    {gathered : Gathered} (listed : gathered.Listed access) :
    (gather access window skipImages tracks gathered).2.Listed access ∧
      gathered.inputs <+: (gather access window skipImages tracks gathered).2.inputs ∧
      List.Forall₂ (Cuts access window (gather access window skipImages tracks gathered).2.inputs)
        (gather access window skipImages tracks gathered).1
        ((placements access.media tracks).filter (shown window skipImages)) := by
  have same : placements access.media tracks =
      (tracks.flatMap fun track => track.clips.map fun clip => (track, clip)).flatMap
        fun (track, clip) => (place? access.media track clip).toList := by
    rw [List.flatMap_assoc, placements]
    refine List.flatMap_congr fun track _ => ?_
    rw [List.flatMap_map, List.filterMap_eq_flatMap_toList]
  rw [same]
  exact gatherClips_cuts window skipImages _ listed

end Slice

end Montage
