import Montage.Proofs.Compose.Stream

/-!
# How far a stream drifts

A stream that is behind the start of a clip is filled up, if it is behind by more than the tolerance;
a stream that is ahead is not held back. So an overlap that is too small to count puts all that
follows ahead, and overlaps add up until a gap makes up for them.

## Main definitions

* `cues` — the clips of a stream and when they play
* `drifts` — how far ahead of its slice each clip of a stream is, and its end of the window
* `leads` — what the overlaps and the gaps between stretches of time add up to

## Main results

* `drifts_stream` — the drifts of a stream are the leads of its slices
* `inStep_stream_iff` — a stream is in step exactly if no lead is above the tolerance
* `leads_le` — overlaps within the tolerance add at most that each
-/

namespace Montage

open StreamSegment

theorem Timeline.gapTolerance_rat : (gapTolerance : Rat) = 1 / 1000 := by decide +kernel

/-! ### Reading -/

/-- A clip of a stream, and from when on and how long it plays. -/
structure Cue where
  pad : String
  time : Rat
  length : Rat

/-- The clips of a stream that begins at a time. -/
def cues : List (StreamSegment Rat) → Rat → List Cue
  | [], _ => []
  | ⟨some pad, length⟩ :: rest, t => ⟨pad, t, length⟩ :: cues rest (t + length)
  | ⟨none, length⟩ :: rest, t => cues rest (t + length)

/-- A clip of a stream plays a slice. -/
def Cue.Plays (cue : Cue) (slice : Slice Rat) : Prop :=
  cue.pad = slice.pad "v" ∧ cue.length = slice.duration

/-- How far ahead of its slice each clip of a stream is, and the end of the stream of that of the
window: the length of all that is before it, without its time in the window. -/
def drifts (duration : Rat) (segments : List (StreamSegment Rat)) (slices : List (Slice Rat)) :
    List Rat :=
  List.zipWith (fun cue slice => cue.time - slice.localStart) (cues segments 0) slices ++
    [stopOf segments 0 - duration]

/-- A stream is neither ahead nor behind by more than the tolerance. -/
def InStep (duration : Rat) (segments : List (StreamSegment Rat)) (slices : List (Slice Rat)) :
    Prop :=
  ∀ drift ∈ drifts duration segments slices, |drift| ≤ Timeline.gapTolerance

theorem cues_append (before after : List (StreamSegment Rat)) (t : Rat) :
    cues (before ++ after) t = cues before t ++ cues after (stopOf before t) := by
  induction before generalizing t with
  | nil => simp [cues, stopOf]
  | cons segment rest ih =>
    obtain ⟨pad, length⟩ := segment
    rw [stopOf_cons]
    cases pad <;> simp [cues, ih]

@[simp] theorem cues_filler (gap t : Rat) : cues (filler gap) t = [] := by
  unfold filler
  split <;> rfl

/-! ### Leads -/

/-- How far ahead a stream is that would be so far ahead without a filler. -/
def caughtUp (lead : Rat) : Rat := if lead < -Timeline.gapTolerance then 0 else lead

theorem neg_le_caughtUp (lead : Rat) : -Timeline.gapTolerance ≤ caughtUp lead := by
  unfold caughtUp
  split
  · rw [Timeline.gapTolerance_rat]
    norm_num
  · next near => exact not_lt.mp near

theorem caughtUp_le {lead bound : Rat} (nonneg : 0 ≤ bound) (h : lead ≤ bound) :
    caughtUp lead ≤ bound := by
  unfold caughtUp
  split
  · exact nonneg
  · exact h

/-- A gap is filled if the stream is behind by more than the tolerance. -/
theorem stopOf_filler (start t : Rat) : stopOf (filler (start - t)) t = start + caughtUp (t - start) := by
  unfold filler caughtUp stopOf
  by_cases wide : Timeline.gapTolerance < start - t
  · rw [if_pos wide, if_pos (by linarith)]
    simp
  · rw [if_neg wide, if_neg (by linarith)]
    simp

/-- How far ahead of some stretches of time a stream is at the start of each, and at the end of the
window, if it is `lead` ahead of a time: an overlap adds to that, and a gap takes from it. -/
def leads (duration : Rat) : List (Rat × Rat) → Rat → Rat → List Rat
  | [], t, lead => [caughtUp (lead + (t - duration))]
  | (start, stop) :: rest, t, lead =>
    caughtUp (lead + (t - start)) :: leads duration rest stop (caughtUp (lead + (t - start)))

theorem neg_le_of_mem_leads {duration : Rat} {stretches : List (Rat × Rat)} {t lead ahead : Rat}
    (h : ahead ∈ leads duration stretches t lead) : -Timeline.gapTolerance ≤ ahead := by
  induction stretches generalizing t lead with
  | nil =>
    rw [List.mem_singleton.mp h]
    exact neg_le_caughtUp _
  | cons stretch rest ih =>
    rcases List.mem_cons.mp h with rfl | h
    · exact neg_le_caughtUp _
    · exact ih h

/-- Stretches that overlap within the tolerance put a stream ahead by at most the tolerance each. -/
theorem leads_le {duration : Rat} {stretches : List (Rat × Rat)} {t lead bound : Rat}
    (nonneg : 0 ≤ bound) (first : ∀ stretch ∈ stretches, lead + (t - stretch.1) ≤ bound)
    (last : lead + (t - duration) ≤ bound) (within : ∀ stretch ∈ stretches, stretch.2 ≤ duration)
    (apart : stretches.Pairwise fun a b => a.2 - Timeline.gapTolerance ≤ b.1)
    {i : Nat} {ahead : Rat} (h : (leads duration stretches t lead)[i]? = some ahead) :
    ahead ≤ bound + i * Timeline.gapTolerance := by
  have tolerance : (0 : Rat) ≤ Timeline.gapTolerance := by
    rw [Timeline.gapTolerance_rat]
    norm_num
  induction stretches generalizing t lead bound i with
  | nil =>
    have only : [caughtUp (lead + (t - duration))][i]? = some ahead := h
    obtain ⟨-, rfl⟩ := List.getElem?_eq_some_iff.mp only
    have here := caughtUp_le nonneg last
    have more : (0 : Rat) ≤ i * Timeline.gapTolerance := mul_nonneg i.cast_nonneg tolerance
    rw [List.getElem_singleton]
    linarith
  | cons stretch rest ih =>
    have here := caughtUp_le nonneg (first stretch List.mem_cons_self)
    rw [leads] at h
    cases i with
    | zero =>
      obtain rfl : _ = ahead := Option.some.inj h
      simpa using here
    | succ i =>
      have apart := List.pairwise_cons.mp apart
      have := ih (add_nonneg nonneg tolerance)
        (fun other hother => by linarith [apart.1 other hother])
        (by linarith [within stretch List.mem_cons_self])
        (fun other hother => within other (List.mem_cons_of_mem _ hother)) apart.2 h
      rw [Nat.cast_succ]
      linarith

/-! ### Streams of slices -/

namespace Slice

/-- The stretch of the window in which a slice is shown. -/
def stretch (slice : Slice Rat) : Rat × Rat := (slice.localStart, slice.localStop)

/-- The clips of the segments of slices are the slices, in order. -/
theorem cues_segments (slices : List (Slice Rat)) (t : Rat) :
    List.Forall₂ Cue.Plays (cues (segments slices t) t) slices := by
  induction slices generalizing t with
  | nil => exact .nil
  | cons slice rest ih =>
    rw [segments, cues_append, cues_filler, List.nil_append]
    exact .cons ⟨rfl, rfl⟩ (ih _)

/-- A stream whose segments end a lead behind some time is ahead of the slices to come by theirs. -/
theorem drifts_segments (duration : Rat) (slices : List (Slice Rat)) (t stop : Rat) :
    List.zipWith (fun cue slice => cue.time - slice.localStart) (cues (segments slices t) t) slices ++
        [caughtUp (stopOf (segments slices t) t - duration)] =
      leads duration (slices.map stretch) stop (t - stop) := by
  induction slices generalizing t stop with
  | nil => simp [segments, leads, cues, stopOf]
  | cons slice rest ih =>
    have lead : t - stop + (stop - slice.localStart) = t - slice.localStart := by ring
    have first : stopOf (filler (slice.localStart - t)) t - slice.localStart =
        caughtUp (t - slice.localStart) := by
      rw [stopOf_filler]
      ring
    have later : stopOf (filler (slice.localStart - t)) t + slice.duration - slice.localStop =
        caughtUp (t - slice.localStart) := by
      rw [← first, Slice.duration]
      ring
    rw [List.map_cons, stretch, leads, lead, segments, cues_append, cues_filler, List.nil_append, cues,
      List.zipWith_cons_cons, List.cons_append, stopOf_append, stopOf_cons, first, ← later, ih]

end Slice

variable {duration : Rat} {slices : List (Slice Rat)}

/-- The clips of a stream are its slices by their start. -/
theorem cues_stream (duration : Rat) (slices : List (Slice Rat)) :
    List.Forall₂ Cue.Plays (cues (Slice.stream duration slices) 0) (Slice.byStart slices) := by
  rw [Slice.stream, cues_append, cues_filler, List.append_nil]
  exact Slice.cues_segments _ _

/-- The drifts of a stream are the leads of its slices. -/
theorem drifts_stream (duration : Rat) (slices : List (Slice Rat)) :
    drifts duration (Slice.stream duration slices) (Slice.byStart slices) =
      leads duration ((Slice.byStart slices).map Slice.stretch) 0 0 := by
  have ends (t : Rat) : stopOf (filler (duration - t)) t - duration = caughtUp (t - duration) := by
    rw [stopOf_filler]
    ring
  have same := Slice.drifts_segments duration (Slice.byStart slices) 0 0
  rw [sub_self] at same
  rw [drifts, Slice.stream, cues_append, cues_filler, List.append_nil, stopOf_append, ends, same]

/-- A stream is in step exactly if its slices never put it ahead by more than the tolerance. -/
theorem inStep_stream_iff :
    InStep duration (Slice.stream duration slices) (Slice.byStart slices) ↔
      ∀ lead ∈ leads duration ((Slice.byStart slices).map Slice.stretch) 0 0,
        lead ≤ Timeline.gapTolerance := by
  rw [InStep, drifts_stream]
  exact forall₂_congr fun lead h =>
    ⟨fun near => (abs_le.mp near).2, fun near => abs_le.mpr ⟨neg_le_of_mem_leads h, near⟩⟩

end Montage
