import Mathlib.Algebra.BigOperators.Group.List.Basic
import Montage.Proofs.Compose.Mix
import Montage.Proofs.Compose.Sequence

/-!
# What a sequence plays

A sequence of sounds is read back from its graph as the sounds that are joined, each for its length.
At every time it plays the first slice that covers the time, in the order of starts, then of ends,
then of the list; where no slice does, it is silent.

## Main definitions

* `AudioSegment`, `FilterGraph.sounds?` — what is read of a sequence
* `AudioSegment.heardAt` — what sounds play at a time, one after another
* `Slice.FirstCover` — the slice that should be heard at a time

## Main results

* `Slice.heardAt_pieces` — the pieces of slices play the first of them that covers a time
* `addAudioSequence_plays` — a sequence plays the right sample at every time
-/

namespace Montage

/-! ### Reading -/

/-- A sound in a sequence: silence of some length, or a stretch of a source at some volume. -/
inductive AudioSegment (τ : Type) where
  | silence (length : τ)
  | stretch (pad : String) (first last volume : τ)

section Reading

variable {τ : Type} [Scalar τ]

/-- The filters of which it is known what they make of a sound. -/
def soundFilters : List String :=
  ["anullsrc", "atrim", "asetpts", "aresample", "aformat", "volume"]

/-- The length of silence that filters make. -/
def silenceOf? : List (Filter τ) → Option τ
  | [source, trim] =>
    match trim.positional with
    | [.int 0, .number length] =>
      if source.name = "anullsrc" ∧ trim.name = "atrim" then some length else none
    | _ => none
  | _ => none

/-- The sound that a stage makes. -/
def FilterChain.sound? (stage : FilterChain τ) : Option (AudioSegment τ) :=
  if stage.filters.all (·.name ∈ soundFilters) then
    match stage.inputs with
    | [] => (silenceOf? stage.filters).map .silence
    | [pad] => (sourceOf? "atrim" stage.filters).map fun (first, last) =>
      .stretch pad first last (volumeOf stage.filters)
    | _ => none
  else none

/-- Whether a filter plays so many sounds one after another. -/
def Filter.joins (filter : Filter τ) (count : Nat) : Bool :=
  match filter.name, filter.option? "n", filter.option? "v", filter.option? "a" with
  | "anull", none, none, none => count = 1
  | "concat", some (.int n), some (.int 0), some (.int 1) => n = count
  | _, _, _, _ => false

/-- The sounds that are played one after another under a label. -/
def FilterGraph.sounds? (graph : FilterGraph τ) (label : String) :
    Option (List (AudioSegment τ)) := do
  let stage ← graph.stageProducing? label
  match stage.inputs, stage.filters with
  | [], _ => return [← stage.sound?]
  | inputs, [filter] =>
    if filter.joins inputs.length then
      inputs.mapM fun input => do (← graph.stageProducing? input).sound?
    else none
  | _, _ => none

/-- The sound that a piece makes. -/
def Piece.plays : Piece τ → AudioSegment τ
  | .silence length => .silence length
  | .sound slice => .stretch (slice.pad "a") slice.sourceIn slice.sourceOut slice.volume

end Reading

/-- What is heard: a time of the source behind a pad, at some volume. -/
structure Heard where
  pad : String
  time : Rat
  volume : Rat
  deriving DecidableEq

namespace AudioSegment

def length : AudioSegment Rat → Rat
  | .silence length => length
  | .stretch _ first last _ => last - first

/-- What is heard of a sound so long after its beginning. -/
def after (t : Rat) : AudioSegment Rat → Option Heard
  | .silence _ => none
  | .stretch pad first _ volume => some ⟨pad, first + t, volume⟩

/-- What is heard at a time when sounds are played one after another, unless they have ended. -/
def heardAt : List (AudioSegment Rat) → Rat → Option (Option Heard)
  | [], _ => none
  | sound :: rest, t =>
    if t < sound.length then some (sound.after t) else heardAt rest (t - sound.length)

end AudioSegment

/-! ### Reference -/

namespace Slice

/-- A slice inside a window, which has as much source as it has length. -/
structure Inside (duration : Rat) (slice : Slice Rat) : Prop where
  start : 0 ≤ slice.localStart
  ordered : slice.localStart ≤ slice.localStop
  stop : slice.localStop ≤ duration
  even : slice.sourceOut = slice.sourceIn + (slice.localStop - slice.localStart)

/-- Whether a slice has something to play at a time. -/
def covers (slice : Slice Rat) (t : Rat) : Bool := slice.localStart ≤ t && t < slice.localStop

/-- What a slice plays at a time. -/
def heard (slice : Slice Rat) (t : Rat) : Heard :=
  ⟨slice.pad "a", slice.sourceIn + (t - slice.localStart), slice.volume⟩

/-- Whether a slice at a place of a list is not behind another: by their starts, then by their ends,
then by their places. -/
def NotBehind (a b : Slice Rat × Nat) : Prop :=
  a.1.localStart < b.1.localStart ∨ a.1.localStart = b.1.localStart ∧
    (a.1.localStop < b.1.localStop ∨ a.1.localStop = b.1.localStop ∧ a.2 ≤ b.2)

/-- The slice at a place of a list is the first that covers a time. -/
structure FirstCover (slices : List (Slice Rat)) (t : Rat) (slice : Slice Rat) (i : Nat) :
    Prop where
  here : slices[i]? = some slice
  covers : slice.covers t = true
  first : ∀ other j, slices[j]? = some other → other.covers t = true →
    NotBehind (slice, i) (other, j)

theorem covers_iff {slice : Slice Rat} {t : Rat} :
    slice.covers t = true ↔ slice.localStart ≤ t ∧ t < slice.localStop := by
  simp [covers]

end Slice

/-! ### Order -/

namespace Slice

theorem le_iff_before {a b : Slice Rat} : (!before b a) = true ↔
    a.localStart < b.localStart ∨ a.localStart = b.localStart ∧ a.localStop ≤ b.localStop := by
  unfold before
  by_cases same : b.localStart = a.localStart
  · simp [same]
  · simp [same, Ne.symm same, le_iff_lt_or_eq]

theorem inSequence_trans (a b c : Slice Rat) (h : (!before b a) = true)
    (h' : (!before c b) = true) : (!before c a) = true := by
  rw [le_iff_before] at *
  rcases h with h | ⟨h, stop⟩ <;> rcases h' with h' | ⟨h', stop'⟩
  · exact .inl (h.trans h')
  · exact .inl (h'▸ h)
  · exact .inl (h ▸ h')
  · exact .inr ⟨h.trans h', stop.trans stop'⟩

theorem inSequence_total (a b : Slice Rat) : (!before b a || !before a b) = true := by
  rw [Bool.or_eq_true, le_iff_before, le_iff_before]
  rcases lt_trichotomy a.localStart b.localStart with h | h | h
  · exact .inl (.inl h)
  · rcases le_total a.localStop b.localStop with stop | stop
    · exact .inl (.inr ⟨h, stop⟩)
    · exact .inr (.inr ⟨h.symm, stop⟩)
  · exact .inr (.inl h)

/-- What is sorted together with its place is in order with it. -/
theorem notBehind_of_zipIdxLE {a b : Slice Rat × Nat}
    (h : List.zipIdxLE (fun a b => !before b a) a b = true) : NotBehind a b := by
  unfold List.zipIdxLE at h
  split at h
  · next order =>
    rcases le_iff_before.mp order with start | ⟨start, stop⟩
    · exact .inl start
    · refine .inr ⟨start, ?_⟩
      rcases stop.lt_or_eq with stop | stop
      · exact .inl stop
      · have back : (!before a.1 b.1) = true := le_iff_before.mpr (.inr ⟨start.symm, stop.ge⟩)
        rw [if_pos back] at h
        exact .inr ⟨stop, of_decide_eq_true h⟩
  · exact absurd h (by simp)

/-- The first slice in a sequence that covers a time is the first one of the list that does. -/
theorem firstCover_of_find? {slices : List (Slice Rat)} {t : Rat} {slice : Slice Rat}
    (found : (inSequence slices).find? (·.covers t) = some slice) :
    ∃ i, FirstCover slices t slice i := by
  -- Sorted together with their places, slices that compare as equal stand in the order of these.
  let le : Slice Rat → Slice Rat → Bool := fun a b => !before b a
  have sorted := List.pairwise_mergeSort (List.zipIdxLE_trans inSequence_trans)
    (List.zipIdxLE_total inSequence_total) slices.zipIdx
  have same : inSequence slices = (slices.zipIdx.mergeSort (List.zipIdxLE le)).map (·.1) :=
    List.mergeSort_zipIdx.symm
  rw [same, List.find?_map, Option.map_eq_some_iff] at found
  obtain ⟨⟨slice, i⟩, found, rfl⟩ := found
  obtain ⟨covers, before, behind, whole, earlier⟩ := List.find?_eq_some_iff_append.mp found
  have place {other : Slice Rat} {j : Nat} :
      (other, j) ∈ slices.zipIdx.mergeSort (List.zipIdxLE le) ↔ slices[j]? = some other := by
    rw [List.mem_mergeSort, List.mk_mem_zipIdx_iff_getElem?]
  refine ⟨i, place.mp (by simp [whole]), covers, fun other j hother hcovers => ?_⟩
  have inside : (other, j) ∈ before ++ (slice, i) :: behind := whole ▸ place.mpr hother
  rw [whole] at sorted
  rcases List.mem_append.mp inside with inside | inside
  · exact absurd hcovers (by simpa using earlier _ inside)
  · rcases List.mem_cons.mp inside with same | inside
    · obtain ⟨rfl, rfl⟩ := Prod.mk.inj same
      exact .inr ⟨rfl, .inr ⟨rfl, Nat.le_refl _⟩⟩
    · have order := (List.pairwise_cons.mp (List.pairwise_append.mp sorted).2.1).1 _ inside
      exact notBehind_of_zipIdxLE order

/-- Slices in sequence are in the order of their starts. -/
theorem pairwise_inSequence (slices : List (Slice Rat)) :
    (inSequence slices).Pairwise fun a b => a.localStart ≤ b.localStart := by
  refine (List.pairwise_mergeSort inSequence_trans inSequence_total slices).imp fun h => ?_
  rcases le_iff_before.mp h with start | ⟨start, -⟩
  · exact start.le
  · exact start.le

end Slice

/-! ### Playing -/

namespace Slice

variable {duration : Rat} {slices : List (Slice Rat)} {cursor t : Rat}

theorem startingAt_localStart (slice : Slice Rat) (cursor : Rat) :
    (slice.startingAt cursor).localStart = max slice.localStart cursor := by
  unfold startingAt
  split
  · next late => exact (max_eq_right late.le).symm
  · next early => exact (max_eq_left (not_lt.mp early)).symm

/-- What is left of a slice has lost as much of its source as of its time. -/
theorem plays_startingAt (slice : Slice Rat) (cursor : Rat) :
    (Piece.sound (slice.startingAt cursor)).plays = .stretch (slice.pad "a")
      (slice.sourceIn + (max slice.localStart cursor - slice.localStart)) slice.sourceOut
      slice.volume := by
  unfold startingAt
  split
  · next late =>
    rw [max_eq_right late.le]
    rfl
  · next early =>
    rw [max_eq_left (not_lt.mp early), sub_self, add_zero]
    rfl

/-- The end of pieces is behind the end of each slice. -/
theorem le_lastStop : cursor ≤ lastStop slices cursor ∧
    ∀ slice ∈ slices, slice.localStop ≤ lastStop slices cursor := by
  induction slices generalizing cursor with
  | nil => exact ⟨le_rfl, by simp [lastStop]⟩
  | cons slice rest ih =>
    rw [lastStop, List.forall_mem_cons]
    split
    · next past => exact ⟨ih.1, past.trans ih.1, ih.2⟩
    · next later => exact ⟨(not_le.mp later).le.trans ih.1, ih.1, ih.2⟩

theorem lastStop_le (inside : ∀ slice ∈ slices, slice.Inside duration) (within : cursor ≤ duration) :
    lastStop slices cursor ≤ duration := by
  induction slices generalizing cursor with
  | nil => exact within
  | cons slice rest ih =>
    obtain ⟨first, others⟩ := List.forall_mem_cons.mp inside
    rw [lastStop]
    split
    · exact ih others within
    · exact ih others first.stop

/-- Silence for a gap lasts as long as the gap. -/
theorem sum_hush {gap : Rat} (nonneg : 0 ≤ gap) :
    ((hush gap).map fun piece => piece.plays.length).sum = gap := by
  unfold hush
  rw [Scalar.zero_rat]
  split
  · simp [Piece.plays, AudioSegment.length]
  · next none => simp [le_antisymm (not_lt.mp none) nonneg]

/-- The pieces of slices fill the time from the cursor to the end of the last slice. -/
theorem sum_pieces (inside : ∀ slice ∈ slices, slice.Inside duration) (cursor : Rat) :
    ((pieces slices cursor).map fun piece => piece.plays.length).sum =
      lastStop slices cursor - cursor := by
  induction slices generalizing cursor with
  | nil => simp [pieces, lastStop]
  | cons slice rest ih =>
    obtain ⟨first, others⟩ := List.forall_mem_cons.mp inside
    rw [pieces, lastStop]
    by_cases past : slice.localStop ≤ cursor
    · rw [if_pos past, if_pos past, ih others]
    · rw [if_neg past, if_neg past]
      have gap : 0 ≤ (slice.startingAt cursor).localStart - cursor := by
        rw [startingAt_localStart, sub_nonneg]
        exact le_max_right _ _
      rw [List.map_append, List.sum_append, List.map_cons, List.sum_cons, sum_hush gap,
        ih others, plays_startingAt, startingAt_localStart, AudioSegment.length, first.even]
      ring

/-- Behind silence for a gap, the other sounds play. -/
theorem heardAt_hush {gap : Rat} (nonneg : 0 ≤ gap) (sounds : List (AudioSegment Rat)) (t : Rat) :
    AudioSegment.heardAt ((hush gap).map Piece.plays ++ sounds) t =
      if t < gap ∧ 0 < gap then some none else AudioSegment.heardAt sounds (t - gap) := by
  unfold hush
  rw [Scalar.zero_rat]
  by_cases wide : 0 < gap
  · by_cases early : t < gap <;>
      simp [wide, early, Piece.plays, AudioSegment.heardAt, AudioSegment.length, AudioSegment.after]
  · have none : gap = 0 := le_antisymm (not_lt.mp wide) nonneg
    simp [none]

/-- Nothing covers a time before the first slice begins. -/
theorem find?_covers_eq_none {slice : Slice Rat}
    (sorted : (slice :: slices).Pairwise fun a b => a.localStart ≤ b.localStart)
    (silent : t < slice.localStart) : (slice :: slices).find? (·.covers t) = none := by
  refine List.find?_eq_none.mpr fun other hother => ?_
  have begins : slice.localStart ≤ other.localStart := by
    rcases List.mem_cons.mp hother with rfl | hother
    · exact le_rfl
    · exact List.rel_of_pairwise_cons sorted hother
  simp [covers, silent.trans_le begins]

/-- The pieces of slices play, at each time from the cursor on, the first slice that covers it, and
nothing where no slice does before the last one has ended. -/
theorem heardAt_pieces (sorted : slices.Pairwise fun a b => a.localStart ≤ b.localStart)
    (inside : ∀ slice ∈ slices, slice.Inside duration) (since : cursor ≤ t)
    (tail : List (AudioSegment Rat)) :
    AudioSegment.heardAt ((pieces slices cursor).map Piece.plays ++ tail) (t - cursor) =
      match slices.find? (·.covers t) with
      | some slice => some (some (slice.heard t))
      | none => if t < lastStop slices cursor then some none
        else AudioSegment.heardAt tail (t - lastStop slices cursor) := by
  induction slices generalizing cursor with
  | nil => simp [pieces, lastStop, not_lt.mpr since]
  | cons slice rest ih =>
    obtain ⟨first, others⟩ := List.forall_mem_cons.mp inside
    rw [pieces, lastStop]
    by_cases past : slice.localStop ≤ cursor
    · -- The slice is over, so it covers no time from here on.
      have ended : slice.covers t = false := by
        simp [covers, past.trans since]
      rw [if_pos past, if_pos past, List.find?_cons, ended]
      exact ih sorted.of_cons others since
    · have gap : 0 ≤ max slice.localStart cursor - cursor := sub_nonneg.mpr (le_max_right _ _)
      rw [if_neg past, if_neg past, startingAt_localStart, List.map_append, List.append_assoc,
        heardAt_hush gap, List.map_cons, List.cons_append, plays_startingAt]
      by_cases silent : t < slice.localStart
      · -- It is silent before the slice, and no other begins earlier.
        have start : max slice.localStart cursor = slice.localStart :=
          max_eq_left (since.trans silent.le)
        have stop : slice.localStop ≤ lastStop rest slice.localStop := le_lastStop.1
        rw [find?_covers_eq_none sorted silent, start, if_pos ⟨by linarith, by linarith⟩]
        dsimp only
        rw [if_pos (by linarith [first.ordered])]
      · have begun : max slice.localStart cursor ≤ t := max_le (not_lt.mp silent) since
        rw [if_neg fun h => by linarith [h.1], AudioSegment.heardAt, AudioSegment.length]
        by_cases playing : t < slice.localStop
        · have covers : slice.covers t = true := covers_iff.mpr ⟨not_lt.mp silent, playing⟩
          rw [List.find?_cons, covers, if_pos (by linarith [first.even])]
          simp only [AudioSegment.after, heard]
          congr 3
          ring
        · -- Behind the slice, what is left of the others plays.
          have ended : slice.covers t = false := by simp [covers, playing]
          rw [List.find?_cons, ended, if_neg (by linarith [first.even])]
          rw [← ih sorted.of_cons others (not_lt.mp playing)]
          congr 1
          rw [first.even]
          ring

/-- A playlist is as long as its window. -/
theorem sum_playlist (inside : ∀ slice ∈ slices, slice.Inside duration) (nonneg : 0 ≤ duration) :
    ((playlist duration slices).map fun piece => piece.plays.length).sum = duration := by
  have inside : ∀ slice ∈ inSequence slices, slice.Inside duration := fun slice h =>
    inside slice (List.mem_mergeSort.mp h)
  have room := lastStop_le inside nonneg
  rw [playlist, List.map_append, List.sum_append, Scalar.zero_rat, sum_pieces inside,
    sum_hush (sub_nonneg.mpr room)]
  ring

/-- A window without length has no playlist. -/
theorem playlist_eq_nil (inside : ∀ slice ∈ slices, slice.Inside duration) (negative : duration < 0) :
    playlist duration slices = [] := by
  have none : slices = [] := List.eq_nil_iff_forall_not_mem.mpr fun slice h => by
    have inside := inside slice h
    linarith [inside.start, inside.ordered, inside.stop]
  simp [none, playlist, inSequence, pieces, lastStop, hush, negative.le]

/-- A playlist plays, at each time in its window, the first slice that covers it, or nothing. -/
theorem heardAt_playlist (inside : ∀ slice ∈ slices, slice.Inside duration) (first : 0 ≤ t)
    (last : t < duration) :
    AudioSegment.heardAt ((playlist duration slices).map Piece.plays) t =
      some (((inSequence slices).find? (·.covers t)).map (·.heard t)) := by
  have inside : ∀ slice ∈ inSequence slices, slice.Inside duration := fun slice h =>
    inside slice (List.mem_mergeSort.mp h)
  have room := lastStop_le inside (first.trans last.le)
  have played := heardAt_pieces (pairwise_inSequence slices) inside first
    ((hush (duration - lastStop (inSequence slices) 0)).map Piece.plays)
  rw [sub_zero] at played
  rw [playlist, List.map_append, Scalar.zero_rat, played]
  cases (inSequence slices).find? (·.covers t) with
  | some slice => rfl
  | none =>
    dsimp only
    split
    · rfl
    · next ended =>
      -- The window is filled up with silence.
      have silence := heardAt_hush (sub_nonneg.mpr room) [] (t - lastStop (inSequence slices) 0)
      rw [List.append_nil] at silence
      rw [silence, if_pos ⟨by linarith, by linarith [not_lt.mp ended]⟩]
      rfl

end Slice

/-! ### Graphs -/

/-- The stage of a piece is read as what the piece plays. -/
theorem sound?_piece (settings : OutputFormat Rat) (piece : Piece Rat) (label : String) :
    FilterChain.sound? ⟨piece.inputs, piece.filters settings, label⟩ = some piece.plays := by
  cases piece with
  | silence length =>
    simp [FilterChain.sound?, Piece.inputs, Piece.filters, silenceFilters, soundFilters, silenceOf?,
      Filter.withOptions, Filter.withValues, Piece.plays]
  | sound slice =>
    by_cases plain : slice.volume = 1 <;>
      simp [FilterChain.sound?, Piece.inputs, Piece.filters, Slice.audioFilters, soundFilters,
        sourceOf?, volumeOf, Filter.withOptions, Filter.withValues, Filter.option?, Piece.plays,
        List.lookup_cons, plain]

/-- A filter that joins sounds says how many there are. -/
theorem joins_joint (settings : OutputFormat Rat) (duration : Rat) {labels : List String}
    (some : labels ≠ []) : ∃ filter, joint settings duration labels = [filter] ∧
      filter.joins labels.length = true := by
  rcases labels with _ | ⟨label, _ | ⟨next, rest⟩⟩
  · exact absurd rfl some
  · exact ⟨_, rfl, rfl⟩
  · refine ⟨_, rfl, ?_⟩
    simp [Filter.joins, Filter.withOptions, Filter.option?, List.lookup_cons]

variable {graph : FilterGraph Rat}

/-- Joined pieces are read as what they play; without pieces there is silence. -/
theorem sounds?_joint {settings : OutputFormat Rat} {duration : Rat} {labels : List String}
    {pieces : List (Piece Rat)}
    (made : graph.stageProducing? audioLabel =
      some ⟨labels, joint settings duration labels, audioLabel⟩)
    (stages : List.Forall₂ (fun label (piece : Piece Rat) => graph.stageProducing? label =
      some ⟨piece.inputs, piece.filters settings, label⟩) labels pieces) :
    graph.sounds? audioLabel =
      some (if pieces = [] then [.silence duration] else pieces.map Piece.plays) := by
  unfold FilterGraph.sounds?
  rw [made]
  rcases labels with _ | ⟨label, labels⟩
  · rw [List.forall₂_nil_left_iff.mp stages, if_pos rfl]
    have silence := sound?_piece settings (.silence duration) audioLabel
    change (do return [← FilterChain.sound?
      ⟨[], (Piece.silence duration).filters settings, audioLabel⟩]) = _
    rw [show FilterChain.sound? ⟨[], _, audioLabel⟩ = _ from silence]
    rfl
  · have some : pieces ≠ [] := by
      rintro rfl
      exact absurd stages (by simp)
    obtain ⟨filter, only, joins⟩ := joins_joint settings duration (List.cons_ne_nil label labels)
    rw [if_neg some, only]
    change (if filter.joins (label :: labels).length = true then _ else none) = _
    rw [if_pos joins]
    refine mapM_eq_some_iff.mpr (List.forall₂_map_right_iff.mpr
      (stages.imp fun label piece made => ?_))
    change (graph.stageProducing? label).bind _ = _
    rw [made]
    exact sound?_piece settings piece label

/-- A sequence plays the right sample at every time. The sounds of which it is joined are as long as
the window, and what is heard at a time in the window is the first slice that covers the time, by
starts, then by ends, then by places in the list, at its own place in its source; it is silent
exactly where no slice covers the time. -/
theorem addAudioSequence_plays (settings : OutputFormat Rat) (duration : Rat)
    (slices : List (Slice Rat)) (inside : ∀ slice ∈ slices, slice.Inside duration)
    {names : List String} (tidy : graph.Tidy names) (unused : audioLabel ∉ names) :
    ∃ after sounds, addAudioSequence settings duration slices graph = .ok (audioLabel, after) ∧
      graph.Extends after ∧ after.sounds? audioLabel = some sounds ∧
      (sounds.map AudioSegment.length).sum = duration ∧
      ∀ t, 0 ≤ t → t < duration →
        (AudioSegment.heardAt sounds t = some none ∧ ∀ slice ∈ slices, slice.covers t = false) ∨
        ∃ slice i, Slice.FirstCover slices t slice i ∧
          AudioSegment.heardAt sounds t = some (some (slice.heard t)) := by
  obtain ⟨labels, after, added, grows, made, stages⟩ :=
    addAudioSequence_adds settings duration slices tidy unused
  have nonneg (some : Slice.playlist duration slices ≠ []) : 0 ≤ duration :=
    not_lt.mp fun negative => some (Slice.playlist_eq_nil inside negative)
  refine ⟨after, _, added, grows, sounds?_joint made stages, ?_, fun t first last => ?_⟩
  · split
    · simp [AudioSegment.length]
    · next some =>
      rw [List.map_map]
      exact Slice.sum_playlist inside (nonneg some)
  · have some : Slice.playlist duration slices ≠ [] := by
      intro none
      have length := Slice.sum_playlist inside (first.trans last.le)
      rw [none] at length
      exact absurd length (first.trans_lt last).ne
    rw [if_neg some, Slice.heardAt_playlist inside first last]
    cases found : (Slice.inSequence slices).find? (·.covers t) with
    | none =>
      refine .inl ⟨rfl, fun slice h => ?_⟩
      simpa using List.find?_eq_none.mp found slice (List.mem_mergeSort.mpr h)
    | some slice =>
      obtain ⟨i, first⟩ := Slice.firstCover_of_find? found
      exact .inr ⟨slice, i, first, rfl⟩

namespace TwoSongs

def clip : Clip Rat where
  id := "song"
  mediaId := some "song"
  trackId := "sound"
  start := 0
  duration := 2
  mediaIn := 0
  mediaOut := 2
  times_nonneg := by decide +kernel

def media : MediaFile := { id := "song", type := .audio, path := "song.wav" }

/-- A song that another one runs into. -/
def opening : Slice Rat where
  clip := clip
  media := media
  localStart := 0
  localStop := 2
  sourceIn := 5
  sourceOut := 7
  inputIndex := 0

def second : Slice Rat where
  clip := clip
  media := media
  localStart := 1
  localStop := 3
  sourceIn := 0
  sourceOut := 2
  inputIndex := 1

theorem inside : ∀ slice ∈ [second, opening], slice.Inside 4 := by
  intro slice h
  rcases List.mem_pair.mp h with rfl | rfl <;> constructor <;> decide +kernel

end TwoSongs

/-- While two songs overlap, the one that began first is heard. -/
theorem opening_is_heard : ∃ after sounds,
    addAudioSequence {} 4 [TwoSongs.second, TwoSongs.opening] {} = .ok (audioLabel, after) ∧
      after.sounds? audioLabel = some sounds ∧ (sounds.map AudioSegment.length).sum = 4 ∧
      AudioSegment.heardAt sounds (3 / 2) = some (some ⟨"0:a", 13 / 2, 1⟩) := by
  obtain ⟨after, sounds, added, -, reads, length, plays⟩ :=
    addAudioSequence_plays {} 4 [TwoSongs.second, TwoSongs.opening] TwoSongs.inside
      FilterGraph.tidy_empty (by simp)
  refine ⟨after, sounds, added, reads, length, ?_⟩
  rcases plays (3 / 2) (by decide +kernel) (by decide +kernel) with
    ⟨-, none⟩ | ⟨slice, i, cover, heard⟩
  · exact absurd (none TwoSongs.opening (by simp)) (by decide +kernel)
  · have order := cover.first TwoSongs.opening 1 rfl (by decide +kernel)
    rcases i with _ | _ | i
    · obtain rfl := Option.some.inj cover.here
      exact absurd order (by unfold Slice.NotBehind; decide +kernel)
    · obtain rfl := Option.some.inj cover.here
      exact heard.trans (by decide +kernel)
    · exact absurd cover.here (by simp)

end Montage
