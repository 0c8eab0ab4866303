import Montage.Compose.Concat
import Montage.Proofs.Compose.WellFormed
import Montage.Proofs.Number.Order

/-!
# Slices track by track

Slices are gathered clip by clip, and each media item that is met for the first time becomes an input.
As inputs never move, the slice of a clip is known from the inputs that there are in the end: it does
not matter whether tracks are gathered all at once or one after another. A track of which the clips
are stored by their start gives slices by their start.

## Main definitions

* `Track.slices` — the slices of a track, as the final inputs determine them

## Main results

* `Slice.gather_slices`, `gatherTracks_eq` — both ways to gather find the same slices, inputs and
  complaints
* `Track.byStart_slices` — slices of clips that are stored by their start need no sorting
-/

namespace Montage

variable {τ : Type} [Scalar τ]

namespace Track

/-- The slice of a clip on a track, which reads the input of the media of the clip. -/
def slice? (track : Track τ) (access : MediaAccess) (window : Window τ) (inputs : List InputFile)
    (clip : Clip τ) : Option (Slice τ) :=
  if clip.enabled && window.meets clip then do
    let item ← access.media.find? clip.mediaId
    let slice ← Slice.ofClip? clip item window
    let input ← inputs.find? (·.mediaId = item.id)
    return { slice with inputIndex := input.index, volume := track.volume }
  else none

/-- The slices of a track in the order of its clips. -/
def slices (track : Track τ) (access : MediaAccess) (window : Window τ) (inputs : List InputFile) :
    List (Slice τ) :=
  track.clips.filterMap (track.slice? access window inputs)

end Track

/-! ### Inputs stay -/

namespace Gathered

variable {access : MediaAccess} {item : MediaFile} {gathered : Gathered}

theorem inputFor_grows : gathered.inputs <+: (gathered.inputFor access item).2.inputs := by
  unfold inputFor
  split
  · exact List.prefix_refl _
  · exact List.prefix_append _ _

/-- From here on, the input of a media item is found. -/
theorem find?_inputFor (access : MediaAccess) (item : MediaFile) (gathered : Gathered) :
    ∃ input, (gathered.inputFor access item).2.inputs.find? (·.mediaId = item.id) = some input ∧
      input.index = (gathered.inputFor access item).1 := by
  unfold inputFor
  split
  · next input found => exact ⟨input, found, rfl⟩
  · next absent =>
    refine ⟨⟨gathered.inputs.length, item.id,
      item.resolvedPath access.useProxies access.pathExists⟩, ?_, rfl⟩
    rw [List.find?_append, absent]
    simp

end Gathered

section Gather

variable {access : MediaAccess} {window : Window τ} {gathered : Gathered}
  {inputs : List InputFile}

namespace Slice

theorem gatherClip_grows {skipImages : Bool} {track : Track τ} {clip : Clip τ} :
    gathered.inputs <+: (gatherClip access window skipImages track clip gathered).2.inputs := by
  unfold gatherClip
  split
  · exact List.prefix_refl _
  · split
    · exact List.prefix_refl _
    · split
      · exact List.prefix_refl _
      · split
        · exact List.prefix_refl _
        · exact Gathered.inputFor_grows

theorem gatherClips_grows {skipImages : Bool} {clips : List (Track τ × Clip τ)} :
    gathered.inputs <+: (gatherClips access window skipImages clips gathered).2.inputs := by
  induction clips generalizing gathered with
  | nil => exact List.prefix_refl _
  | cons entry rest ih => exact gatherClip_grows.trans ih

/-- The slice of a clip is the one that the inputs determine, however many there are in the end. -/
theorem gatherClip_slice? {track : Track τ} {clip : Clip τ}
    (grows : (gatherClip access window false track clip gathered).2.inputs <+: inputs) :
    (gatherClip access window false track clip gathered).1 =
      track.slice? access window inputs clip := by
  unfold Track.slice?
  unfold gatherClip at grows ⊢
  have apart : (!clip.enabled || !window.meets clip) = !(clip.enabled && window.meets clip) :=
    (Bool.not_and _ _).symm
  rw [apart] at grows ⊢
  by_cases within : (clip.enabled && window.meets clip) = true
  · rw [within, if_neg (by decide)] at grows ⊢
    rw [if_pos rfl]
    cases found : access.media.find? clip.mediaId with
    | none => rfl
    | some item =>
      simp only [found, Bool.false_and, Bool.false_eq_true, if_false] at grows ⊢
      cases cut : ofClip? clip item window with
      | none => simp [cut]
      | some slice =>
        simp only [cut] at grows
        -- The input that the media has from here on is still the first one of it in the end.
        obtain ⟨input, here, index⟩ := Gathered.find?_inputFor access item gathered
        simp [cut, grows.find?_eq_some here, index]
  · rw [Bool.eq_false_iff.mpr within, if_pos (by decide), if_neg (by decide)]

theorem gatherClips_slices {clips : List (Track τ × Clip τ)}
    (grows : (gatherClips access window false clips gathered).2.inputs <+: inputs) :
    (gatherClips access window false clips gathered).1 =
      clips.filterMap fun entry => entry.1.slice? access window inputs entry.2 := by
  induction clips generalizing gathered with
  | nil => rfl
  | cons entry rest ih =>
    obtain ⟨track, clip⟩ := entry
    have first := gatherClip_slice? (gatherClips_grows.trans grows)
    change (gatherClip access window false track clip gathered).1.toList ++ _ = _
    rw [first, ih grows]
    cases h : track.slice? access window inputs clip <;> simp [h]

/-- The slices of tracks are those of each track in turn. -/
theorem gather_slices {tracks : List (Track τ)}
    (grows : (gather access window false tracks gathered).2.inputs <+: inputs) :
    (gather access window false tracks gathered).1 =
      tracks.flatMap fun track => track.slices access window inputs := by
  unfold gather at grows ⊢
  rw [gatherClips_slices grows, List.filterMap_flatMap]
  refine List.flatMap_congr fun track _ => ?_
  rw [List.filterMap_map]
  rfl

theorem gatherClips_append {skipImages : Bool} (clips others : List (Track τ × Clip τ)) :
    (gatherClips access window skipImages (clips ++ others) gathered).2 =
      (gatherClips access window skipImages others
        (gatherClips access window skipImages clips gathered).2).2 := by
  induction clips generalizing gathered with
  | nil => rfl
  | cons entry rest ih => exact ih

end Slice

/-- Gathered one after another, tracks give their slices if there are any, and lead to the same inputs
and complaints as all at once. -/
theorem gatherTracks_eq {tracks : List (Track τ)}
    (grows : (Slice.gather access window false tracks gathered).2.inputs <+: inputs) :
    gatherTracks access window tracks gathered =
      ((tracks.map fun track => track.slices access window inputs).filter (!·.isEmpty),
        (Slice.gather access window false tracks gathered).2) := by
  induction tracks generalizing gathered with
  | nil => rfl
  | cons track rest ih =>
    have whole : (Slice.gather access window false (track :: rest) gathered).2 =
        (Slice.gather access window false rest
          (Slice.gather access window false [track] gathered).2).2 := by
      unfold Slice.gather
      rw [List.flatMap_cons, Slice.gatherClips_append, List.flatMap_singleton]
    rw [whole] at grows ⊢
    -- The inputs that the first track leads to are among those of the end.
    have first := Slice.gather_slices (Slice.gatherClips_grows.trans grows)
    rw [List.flatMap_singleton] at first
    rw [gatherTracks]
    dsimp only
    rw [ih grows, first, List.map_cons, List.filter_cons]
    cases (track.slices access window inputs).isEmpty <;> rfl

end Gather

/-! ### Clips that are stored by their start -/

namespace Track

variable {track : Track τ} {access : MediaAccess} {window : Window τ} {inputs : List InputFile}

theorem slice?_eq_some {clip : Clip τ} {slice : Slice τ}
    (h : track.slice? access window inputs clip = some slice) :
    window.meets clip = true ∧
      slice.localStart = Scalar.maxOf Scalar.zero (clip.start - window.start) := by
  unfold slice? at h
  split at h
  · next within =>
    obtain ⟨item, -, h⟩ := Option.bind_eq_some_iff.mp h
    obtain ⟨cut, hcut, h⟩ := Option.bind_eq_some_iff.mp h
    obtain ⟨input, -, h⟩ := Option.bind_eq_some_iff.mp h
    obtain rfl := Option.some.inj h
    exact ⟨(Bool.and_eq_true_iff.mp within).2, (Slice.ofClip?_eq_some hcut).2⟩
  · exact absurd h (by simp)

end Track

/-- The start of a clip that meets a window is so many units away from that of the window. -/
theorem Window.start_isSome {window : Window Double} {clip : Clip Double}
    (meets : window.meets clip = true) : ((clip.start - window.start).position?).isSome := by
  unfold Window.meets Window.intersects at meets
  rw [Bool.and_eq_true, decide_eq_true_eq, decide_eq_true_eq] at meets
  obtain ⟨c, stop, hc, hstop, before⟩ := Double.lt_iff.mp meets.2
  obtain ⟨z, p, hz, hp, positive⟩ := Double.le_iff.mp clip.times_nonneg.1
  rw [Option.some.inj (hz.symm.trans Double.position?_zero)] at positive
  have limit := Double.limit_pos
  refine Double.sub_position?_isSome hp hc (by omega) ?_
  exact before.trans_le (Double.position?_le_limit hstop)

/-- Slices of clips that are stored by their start are by their start. -/
theorem Track.byStart_slices {track : Track Double} {access : MediaAccess} {window : Window Double}
    {inputs : List InputFile} (stored : track.clips.Pairwise fun a b => ¬ b.start < a.start) :
    Slice.byStart (track.slices access window inputs) = track.slices access window inputs := by
  refine List.mergeSort_of_pairwise (stored.filterMap _ fun a b inOrder cut hcut cut' hcut' => ?_)
  obtain ⟨-, start⟩ := slice?_eq_some hcut
  obtain ⟨meets, start'⟩ := slice?_eq_some hcut'
  rw [Bool.not_eq_true', decide_eq_false_iff_not, start, start']
  -- If the later slice came first, its clip would start first: rounding keeps the order of starts.
  intro less
  exact inOrder (Double.lt_of_sub_lt_sub
    (Double.lt_of_maxOf_zero_lt (Window.start_isSome meets) less))

end Montage
