import Mathlib.Algebra.Order.Group.MinMax
import Mathlib.Data.List.Chain
import Montage.Proofs.Compose.Gather

/-!
# Slices tile

Borders cut a stretch of the timeline into windows, and with it a clip into its slices in these
windows. Where one slice ends the next one begins, on the timeline and in the source, so that what is
rendered window by window is the clip as it is in the whole stretch: nothing of it is left out, and
nothing comes twice.

## Main definitions

* `Window.between` — the windows that some borders cut out
* `Window.Shares` — some stretch of a clip lies inside a window
* `Slice.placed`, `Slice.partsIn` — slices at their places on the timeline
* `Slice.Fits` — a slice lies inside its window and is as long as its source
* `Slice.Tiles` — slices lead from one to the next, and are together one slice

## Main results

* `Slice.ofClip?_tiles` — the slices of a clip between borders fit their windows and tile
-/

namespace Montage

namespace Window

variable {window : Window Rat} {clip : Clip Rat}

/-- The windows that borders cut out, each from one border to the next. -/
def between : Rat → List Rat → List (Window Rat)
  | _, [] => []
  | start, stop :: rest => ⟨start, stop⟩ :: between stop rest

/-- The window from the first border to the last one. -/
def across (first : Rat) (rest : List Rat) : Window Rat := ⟨first, rest.getLastD first⟩

/-- Some stretch of a clip, however short, lies inside a window. -/
def Shares (window : Window Rat) (clip : Clip Rat) : Prop :=
  ∃ start stop, start < stop ∧ (window.start ≤ start ∧ stop ≤ window.stop) ∧
    clip.start ≤ start ∧ stop ≤ clip.stop

theorem overlaps_iff_shares : window.overlaps clip = true ↔ window.Shares clip := by
  unfold overlaps
  rw [decide_eq_true_eq]
  constructor
  · intro longer
    exact ⟨_, _, longer, ⟨le_max_left _ _, min_le_left _ _⟩, le_max_right _ _, min_le_right _ _⟩
  · rintro ⟨start, stop, before, ⟨inside, inside'⟩, within, within'⟩
    calc max window.start clip.start ≤ start := max_le inside within
      _ < stop := before
      _ ≤ min window.stop clip.stop := le_min inside' within'

/-- Borders that increase do not come before the first one. -/
theorem le_getLastD {first : Rat} {rest : List Rat}
    (increasing : (first :: rest).Pairwise (· < ·)) : first ≤ rest.getLastD first := by
  cases rest with
  | nil => exact le_refl first
  | cons next rest =>
    have last : (next :: rest).getLastD first ∈ next :: rest := by
      rw [List.getLastD_eq_getLast?, List.getLast?_eq_getLast_of_ne_nil (List.cons_ne_nil _ _)]
      exact List.getLast_mem _
    exact ((List.pairwise_cons.mp increasing).1 _ last).le

end Window

namespace Slice

/-! ### Slices at their places -/

/-- A slice at its place on the timeline: its times do not count from the start of its window. -/
def placed (window : Window Rat) (slice : Slice Rat) : Slice Rat :=
  { slice with
    localStart := window.start + slice.localStart
    localStop := window.start + slice.localStop }

/-- The slices of a clip in some windows, each at its place. -/
def partsIn (clip : Clip Rat) (media : MediaFile) (windows : List (Window Rat)) :
    List (Slice Rat) :=
  windows.filterMap fun window => (ofClip? clip media window).map (placed window)

/-- A slice shows its clip inside its window, and the source that it reads is as long as itself. -/
structure Fits (clip : Clip Rat) (media : MediaFile) (window : Window Rat) (slice : Slice Rat) :
    Prop where
  clip : slice.clip = clip
  media : slice.media = media
  fromStart : 0 ≤ slice.localStart
  forward : slice.localStart < slice.localStop
  untilStop : slice.localStop ≤ window.duration
  source : slice.sourceOut - slice.sourceIn = slice.localStop - slice.localStart

/-- A slice begins where another one ends, on the timeline and in the source. -/
def LeadsTo (slice next : Slice Rat) : Prop :=
  slice.localStop = next.localStart ∧ slice.sourceOut = next.sourceIn

/-- From the start of a slice to the end of another. -/
def through (slice last : Slice Rat) : Slice Rat :=
  { slice with localStop := last.localStop, sourceOut := last.sourceOut }

/-- From the start of the first slice to the end of the last. -/
def joined : List (Slice Rat) → Option (Slice Rat)
  | [] => none
  | slice :: rest => some ((joined rest).elim slice slice.through)

/-- Whether a slice shows a moment of the source. -/
def plays (moment : Rat) (slice : Slice Rat) : Bool :=
  slice.sourceIn ≤ moment && moment < slice.sourceOut

/-- Slices lead from one to the next. They are together one slice, or there are none of them and no
such slice; and a moment of the source is shown by one of them, and not by two, if it is shown by
the whole. -/
structure Tiles (parts : List (Slice Rat)) (whole : Option (Slice Rat)) : Prop where
  leads : parts.IsChain LeadsTo
  joined : joined parts = whole
  plays : ∀ moment, parts.countP (plays moment) = whole.toList.countP (plays moment)

theorem tiles_nil : Tiles [] none := ⟨.nil, rfl, fun _ => rfl⟩

theorem tiles_singleton (slice : Slice Rat) : Tiles [slice] (some slice) :=
  ⟨.singleton _, rfl, fun _ => rfl⟩

/-- A whole slice begins where the first of its parts does. -/
theorem LeadsTo.head {slice whole : Slice Rat} {parts : List (Slice Rat)}
    (leads : slice.LeadsTo whole) (together : Slice.joined parts = some whole) :
    ∀ next ∈ parts.head?, slice.LeadsTo next := by
  intro next first
  cases parts with
  | nil => cases first
  | cons part rest =>
    obtain rfl := Option.some.inj first
    obtain rfl := Option.some.inj together
    -- Whatever follows, the first part keeps its start.
    generalize Slice.joined rest = others at leads
    cases others with
    | none => exact leads
    | some last => exact leads

/-- Of two slices that lead to each other, a moment is shown by one, if at all. -/
theorem LeadsTo.plays_through {slice whole : Slice Rat} (leads : slice.LeadsTo whole)
    (forward : slice.sourceIn ≤ slice.sourceOut) (forward' : whole.sourceIn ≤ whole.sourceOut)
    (moment : Rat) :
    (if whole.plays moment then 1 else 0) + (if slice.plays moment then 1 else 0) =
      if (slice.through whole).plays moment then 1 else 0 := by
  have border : slice.sourceOut = whole.sourceIn := leads.2
  unfold Slice.plays Slice.through
  simp only [Bool.and_eq_true, decide_eq_true_eq]
  rcases lt_or_ge moment whole.sourceIn with before | behind
  · have here : moment < slice.sourceOut := border ▸ before
    simp only [not_le.mpr before, here, before.trans_le forward', and_true, if_false, Nat.zero_add]
  · have gone : ¬ moment < slice.sourceOut := border ▸ not_lt.mpr behind
    have begun : slice.sourceIn ≤ moment := forward.trans (border ▸ behind)
    simp only [behind, gone, begun, true_and, and_false, if_false, Nat.add_zero]

/-- A slice in front of others. -/
theorem Tiles.cons {slice whole : Slice Rat} {parts : List (Slice Rat)}
    (tiles : Tiles parts (some whole)) (leads : slice.LeadsTo whole)
    (forward : slice.sourceIn ≤ slice.sourceOut) (forward' : whole.sourceIn ≤ whole.sourceOut) :
    Tiles (slice :: parts) (some (slice.through whole)) where
  leads := tiles.leads.cons (leads.head tiles.joined)
  joined := by
    rw [Slice.joined, tiles.joined]
    rfl
  plays := by
    intro moment
    have others := tiles.plays moment
    rw [Option.toList_some, List.countP_singleton] at others
    rw [Option.toList_some, List.countP_singleton, List.countP_cons, others]
    exact leads.plays_through forward forward' moment

/-! ### Slices between borders -/

section Between

variable {clip : Clip Rat} {media : MediaFile} {window : Window Rat} {first next last : Rat}

/-- What is shown of a clip from one time to another. -/
def part (clip : Clip Rat) (media : MediaFile) (start stop : Rat) : Slice Rat where
  clip := clip
  media := media
  localStart := start
  localStop := stop
  sourceIn := clip.mediaIn + (start - clip.start)
  sourceOut := clip.mediaIn + (stop - clip.start)

/-- At its place, a slice of a clip is the part of it inside the window. -/
theorem placed_ofClip? (clip : Clip Rat) (media : MediaFile) (window : Window Rat) :
    (ofClip? clip media window).map (placed window) =
      if window.overlaps clip then
        some (part clip media (max window.start clip.start) (min window.stop clip.stop))
      else none := by
  rw [ofClip?_rat]
  by_cases overlaps : window.overlaps clip = true
  · have start : window.start + max 0 (clip.start - window.start) =
        max window.start clip.start := by
      rw [← max_add_add_left, add_zero, add_sub_cancel]
    have stop : window.start + min window.duration (clip.stop - window.start) =
        min window.stop clip.stop := by
      rw [← min_add_add_left, Window.duration, add_sub_cancel, add_sub_cancel]
    have source : max 0 (window.start - clip.start) = max window.start clip.start - clip.start := by
      rw [← max_sub_sub_right, sub_self, max_comm]
    rw [if_pos overlaps, if_pos overlaps, Option.map_some]
    simp only [placed, part, start, stop, source, Option.some.injEq, Slice.mk.injEq, true_and,
      and_true]
    rw [← start, ← stop]
    ring
  · rw [if_neg overlaps, if_neg overlaps, Option.map_none]

/-- A slice fits its window. -/
theorem fits_of_ofClip? {slice : Slice Rat} (cut : ofClip? clip media window = some slice) :
    slice.Fits clip media window := by
  rw [ofClip?_rat] at cut
  split at cut
  · next overlaps =>
    obtain rfl := Option.some.inj cut
    have inOrder := (overlaps_iff.mp (of_decide_eq_true overlaps)).2
    exact ⟨rfl, rfl, le_max_left _ _, not_le.mp inOrder, min_le_left _ _, add_sub_cancel_left _ _⟩
  · cases cut

/-- Before a window that shows the clip, too, a window shows it up to the border between them. -/
theorem through_border (here : max first clip.start < min next clip.stop)
    (there : max next clip.start < min last clip.stop) :
    max next clip.start = next ∧ min next clip.stop = next := by
  rw [max_lt_iff, lt_min_iff, lt_min_iff] at here there
  exact ⟨max_eq_left here.2.1.le, min_eq_left there.1.2.le⟩

/-- If a clip is not shown from a border on, it has ended by then, or the last border is there. -/
theorem min_eq_of_not_there (here : max first clip.start < min next clip.stop) (ordered : next ≤ last)
    (there : ¬ max next clip.start < min last clip.stop) :
    min last clip.stop = min next clip.stop := by
  have begun : clip.start ≤ next := ((le_max_right _ _).trans_lt here).le.trans (min_le_left _ _)
  rw [max_eq_left begun, not_lt] at there
  apply le_antisymm
  · exact le_min there (min_le_right _ _)
  · exact min_le_min_right _ ordered

/-- If a clip is not shown up to a border, it begins there or later. -/
theorem max_eq_of_not_here (before : first < next)
    (here : ¬ max first clip.start < min next clip.stop)
    (there : max next clip.start < min last clip.stop) :
    max first clip.start = max next clip.start := by
  have lasts : next < clip.stop := ((le_max_left _ _).trans_lt there).trans_le (min_le_right _ _)
  rw [min_eq_left lasts.le, not_lt] at here
  have begins : next ≤ clip.start := (le_max_iff.mp here).resolve_left (not_le.mpr before)
  rw [max_eq_right begins, max_eq_right (before.le.trans begins)]

theorem Tiles.eq_nil {parts : List (Slice Rat)} (tiles : Tiles parts none) : parts = [] := by
  cases parts with
  | nil => rfl
  | cons slice rest => exact absurd tiles.joined nofun

/-- The window up to the first border comes before the others. -/
theorem Tiles.cutFront {parts : List (Slice Rat)} (before : first < next) (ordered : next ≤ last)
    (tiles : Tiles parts ((ofClip? clip media ⟨next, last⟩).map (placed ⟨next, last⟩))) :
    Tiles (((ofClip? clip media ⟨first, next⟩).map (placed ⟨first, next⟩)).toList ++ parts)
      ((ofClip? clip media ⟨first, last⟩).map (placed ⟨first, last⟩)) := by
  rw [placed_ofClip?] at tiles
  rw [placed_ofClip?, placed_ofClip?]
  simp only [Window.overlaps, decide_eq_true_eq] at tiles ⊢
  by_cases here : max first clip.start < min next clip.stop
  · rw [if_pos here]
    by_cases there : max next clip.start < min last clip.stop
    · -- The clip is shown on both sides of the border.
      obtain ⟨start, stop⟩ := through_border here there
      rw [if_pos there, start] at tiles
      rw [start] at there
      rw [stop] at here ⊢
      rw [if_pos (here.trans there)]
      apply tiles.cons ⟨rfl, rfl⟩
      · exact add_le_add_right (sub_le_sub_right here.le _) _
      · exact add_le_add_right (sub_le_sub_right there.le _) _
    · rw [if_neg there] at tiles
      obtain rfl := tiles.eq_nil
      rw [min_eq_of_not_there here ordered there, if_pos here]
      exact tiles_singleton _
  · rw [if_neg here]
    by_cases there : max next clip.start < min last clip.stop
    · rw [if_pos there] at tiles
      rw [max_eq_of_not_here before here there, if_pos there]
      exact tiles
    · -- Shown on neither side, the clip is not shown at all.
      have nowhere : ¬ max first clip.start < min last clip.stop := by
        intro shown
        have begins : next ≤ max first clip.start ∨ clip.stop ≤ max first clip.start :=
          min_le_iff.mp (not_lt.mp here)
        have reaches : max first clip.start < clip.stop := shown.trans_le (min_le_right _ _)
        have begins : next ≤ clip.start :=
          (le_max_iff.mp (begins.resolve_right reaches.not_ge)).resolve_left before.not_ge
        rw [max_eq_right begins] at there
        exact there ((le_max_right _ _).trans_lt shown)
      rw [if_neg there] at tiles
      rw [if_neg nowhere]
      exact tiles

/-- The slices of a clip between borders that increase are together its slice from the first border to
the last. -/
theorem tiles_partsIn (clip : Clip Rat) (media : MediaFile) {first : Rat} {rest : List Rat}
    (increasing : (first :: rest).Pairwise (· < ·)) :
    Tiles (partsIn clip media (Window.between first rest))
      ((ofClip? clip media (Window.across first rest)).map
        (placed (Window.across first rest))) := by
  induction rest generalizing first with
  | nil =>
    have empty : (⟨first, first⟩ : Window Rat).overlaps clip = false := by
      unfold Window.overlaps
      rw [decide_eq_false_iff_not, not_lt]
      exact (min_le_left _ _).trans (le_max_left _ _)
    rw [placed_ofClip?, Window.across, List.getLastD_nil, empty]
    exact tiles_nil
  | cons next rest ih =>
    obtain ⟨above, increasing⟩ := List.pairwise_cons.mp increasing
    have tiles := ih increasing
    unfold Window.across at tiles ⊢
    rw [Window.between, partsIn, List.filterMap_cons, List.getLastD_cons]
    have front := tiles.cutFront (above next List.mem_cons_self) (Window.le_getLastD increasing)
    generalize (ofClip? clip media ⟨first, next⟩).map (placed ⟨first, next⟩) = slice? at front ⊢
    cases slice? with
    | none => exact front
    | some slice => exact front

/-- Between borders that increase, a clip has a slice in exactly the windows that share some stretch
with it. Every slice fits its window, and the slices tile: each leads to the next, and they are
together the slice of the clip from the first border to the last, of which they neither repeat nor
skip any moment. -/
theorem ofClip?_tiles (clip : Clip Rat) (media : MediaFile) {first : Rat} {rest : List Rat}
    (increasing : (first :: rest).Pairwise (· < ·)) :
    (∀ window ∈ Window.between first rest,
      ((ofClip? clip media window).isSome ↔ window.Shares clip) ∧
        ∀ slice, ofClip? clip media window = some slice → slice.Fits clip media window) ∧
      Tiles (partsIn clip media (Window.between first rest))
        ((ofClip? clip media (Window.across first rest)).map
          (placed (Window.across first rest))) := by
  constructor
  · intro window _
    constructor
    · rw [ofClip?_rat, ← Window.overlaps_iff_shares]
      split
      · next overlaps => exact iff_of_true rfl overlaps
      · next apart => exact iff_of_false Bool.false_ne_true apart
    · intro slice cut
      exact fits_of_ofClip? cut
  · exact tiles_partsIn clip media increasing

end Between

end Slice

namespace CutFilm

/-- Four seconds of a film, from its tenth second on. -/
def film : Clip Rat where
  id := "film"
  mediaId := some "film"
  trackId := "picture"
  start := 1
  duration := 4
  mediaIn := 10
  mediaOut := 14
  times_nonneg := by decide +kernel

def media : MediaFile := { id := "film", type := .video, path := "film.mp4" }

end CutFilm

open CutFilm Slice in
/-- In windows of two seconds the film begins inside the first, fills the second, ends inside the third
and is not in the fourth. -/
theorem film_is_cut_in_three : [(0 : Rat), 2, 4, 6, 8].Pairwise (· < ·) ∧
    ((partsIn film media (Window.between 0 [2, 4, 6, 8])).map fun slice =>
      (slice.localStart, slice.localStop, slice.sourceIn, slice.sourceOut)) =
        [(1, 2, 10, 11), (2, 4, 11, 13), (4, 5, 13, 14)] ∧
    Tiles (partsIn film media (Window.between 0 [2, 4, 6, 8]))
      ((ofClip? film media ⟨0, 8⟩).map (placed ⟨0, 8⟩)) := by
  have increasing : [(0 : Rat), 2, 4, 6, 8].Pairwise (· < ·) := by decide +kernel
  have cut : ((partsIn film media (Window.between 0 [2, 4, 6, 8])).map fun slice =>
      (slice.localStart, slice.localStop, slice.sourceIn, slice.sourceOut)) =
        [(1, 2, 10, 11), (2, 4, 11, 13), (4, 5, 13, 14)] := by decide +kernel
  exact ⟨increasing, cut, (ofClip?_tiles film media increasing).2⟩

end Montage
