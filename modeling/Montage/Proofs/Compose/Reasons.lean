import Montage.Complexity
import Montage.Proofs.Compose.Coverage

/-!
# What the hash of a window covers of its complexity

A segment is complex for one of three reasons: its clips lie over each other, change their speed, or
have effects. The payload of a window tells where its clips lie and what they take from their sources,
so it decides on the first two. It leaves the effects out, so it does not decide on the third.

## Main definitions

* `Timeline.isComplexWithoutEffects`, `Timeline.showsEffects` — the reasons, apart
* `Timeline.InSixPlaces` — the times of a timeline and a window have six decimal places at most

## Main results

* `ContentHash.isComplex_eq_iff` — with the same payload, two windows are alike in being complex
  exactly if their effects make no difference
-/

namespace Montage

variable {τ : Type} [Scalar τ]

namespace Timeline

/-- Whether a segment is complex for another reason than effects. -/
def isComplexWithoutEffects (timeline : Timeline τ) (window : Window τ) : Bool :=
  let clips := timeline.videoClipsIn window.start window.stop
  (sampleTimes window.start window.stop).any (crowdedAt clips) || clips.any (·.changesSpeed)

/-- Whether a clip in a segment has an effect. -/
def showsEffects (timeline : Timeline τ) (window : Window τ) : Bool :=
  (timeline.videoClipsIn window.start window.stop).any (·.hasEnabledEffect)

/-- A segment is complex for one of its reasons. -/
theorem isComplex_segment (timeline : Timeline τ) (window : Window τ) :
    (timeline.segment window.start window.stop).isComplex =
      (timeline.isComplexWithoutEffects window || timeline.showsEffects window) := by
  unfold segment Segment.isComplex isComplexWithoutEffects showsEffects
  dsimp only
  generalize timeline.videoClipsIn window.start window.stop = clips
  cases clips with
  | nil =>
    have alone (t : τ) : crowdedAt ([] : List (Clip τ)) t = false := rfl
    simp [alone]
  | cons clip rest =>
    rw [List.isEmpty_cons, if_neg (by simp)]
    cases (sampleTimes window.start window.stop).any (crowdedAt (clip :: rest)) <;>
      cases (clip :: rest).any (·.hasEnabledEffect) <;>
      cases (clip :: rest).any (·.changesSpeed) <;> rfl

/-- The times of the clips and of a window have six decimal places at most. -/
structure InSixPlaces (timeline : Timeline τ) (window : Window τ) : Prop where
  clips : ∀ clip ∈ timeline.clips, clip.InSixPlaces
  start : Scalar.roundSixPlaces window.start = window.start
  stop : Scalar.roundSixPlaces window.stop = window.stop

instance [DecidableEq τ] (timeline : Timeline τ) (window : Window τ) :
    Decidable (timeline.InSixPlaces window) :=
  decidable_of_iff ((∀ clip ∈ timeline.clips, clip.InSixPlaces) ∧
      Scalar.roundSixPlaces window.start = window.start ∧
      Scalar.roundSixPlaces window.stop = window.stop)
    ⟨fun h => ⟨h.1, h.2.1, h.2.2⟩, fun h => ⟨h.clips, h.start, h.stop⟩⟩

end Timeline

/-- Two clips lie at the same time and show as much of their sources. -/
structure Clip.SameTimes (a b : Clip τ) : Prop where
  start : a.start = b.start
  duration : a.duration = b.duration
  mediaIn : a.mediaIn = b.mediaIn
  mediaOut : a.mediaOut = b.mediaOut

namespace Clip.SameTimes

variable {a b : Clip τ} (h : a.SameTimes b)

include h

theorem coversTime (t : τ) : a.coversTime t = b.coversTime t := by
  unfold Clip.coversTime Clip.stop
  rw [h.start, h.duration]

theorem changesSpeed : a.changesSpeed = b.changesSpeed := by
  unfold Clip.changesSpeed
  rw [h.duration, h.mediaIn, h.mediaOut]

end Clip.SameTimes

namespace Timeline

variable {timeline timeline' : Timeline τ} {window : Window τ}

/-- The clips that are looked at are those of the layers that meet the window and are enabled. -/
theorem videoClipsIn_eq (timeline : Timeline τ) (window : Window τ) :
    timeline.videoClipsIn window.start window.stop =
      ((window.cast (timeline.tracks.filter (ContentHash.takesPart .video))).filter
        (·.2.enabled)).map Prod.snd := by
  have layers : timeline.layersFromTop = timeline.tracks.filter (ContentHash.takesPart .video) := by
    have bottom := ContentHash.layersFromBottom_eq timeline
    unfold layersFromBottom at bottom
    exact List.reverse_injective bottom
  unfold videoClipsIn Window.cast
  rw [layers, List.filter_flatMap, List.map_flatMap]
  refine List.flatMap_congr fun track _ => ?_
  rw [List.filter_map, List.map_map, List.filter_filter]
  have second : (Prod.snd ∘ fun clip : Clip τ => (track, clip)) = id := rfl
  rw [second, List.map_id]
  refine List.filter_congr fun clip _ => ?_
  simp only [Window.meets, Window.intersects, Function.comp_apply, Bool.and_assoc]

theorem isComplexWithoutEffects_of_sameTimes
    (h : List.Forall₂ Clip.SameTimes (timeline.videoClipsIn window.start window.stop)
      (timeline'.videoClipsIn window.start window.stop)) :
    timeline.isComplexWithoutEffects window = timeline'.isComplexWithoutEffects window := by
  have crowded (t : τ) : crowdedAt (timeline.videoClipsIn window.start window.stop) t =
      crowdedAt (timeline'.videoClipsIn window.start window.stop) t := by
    have shown := map_eq_map_of_forall₂ (h.imp fun _ _ same => same.coversTime t)
    unfold crowdedAt
    rw [← List.countP_eq_length_filter, ← List.countP_eq_length_filter]
    have count (clips : List (Clip τ)) :
        clips.countP (·.coversTime t) = (clips.map (·.coversTime t)).countP id := by
      rw [List.countP_map]
      rfl
    rw [count, count, shown]
  have speeds := map_eq_map_of_forall₂ (h.imp fun _ _ same => same.changesSpeed)
  have any (clips : List (Clip τ)) :
      clips.any (·.changesSpeed) = (clips.map (·.changesSpeed)).any id := by
    rw [List.any_map]
    rfl
  unfold isComplexWithoutEffects
  dsimp only
  rw [funext crowded, any, any, speeds]

end Timeline

namespace ContentHash

variable {access access' : MediaAccess} {timeline timeline' : Timeline τ} {window window' : Window τ}

/-- A payload tells its window. -/
theorem window_eq_of_payload (places : timeline.InSixPlaces window)
    (places' : timeline'.InSixPlaces window')
    (h : windowPayload timeline access window = windowPayload timeline' access' window') :
    window = window' := by
  simp only [windowPayload, time, Json.object.injEq, List.cons.injEq, Prod.mk.injEq,
    Json.list.injEq, Json.real.injEq, true_and, and_true, places.start, places.stop, places'.start,
    places'.stop] at h
  obtain ⟨start, stop⟩ := h.1
  cases window
  cases window'
  exact congrArg₂ Window.mk start stop

/-- With the same payload, clips lie at the same times. -/
theorem sameTimes_of_payload (places : ∀ clip ∈ timeline.clips, clip.InSixPlaces)
    (places' : ∀ clip ∈ timeline'.clips, clip.InSixPlaces)
    (h : windowPayload timeline access window = windowPayload timeline' access' window) :
    List.Forall₂ Clip.SameTimes (timeline.videoClipsIn window.start window.stop)
      (timeline'.videoClipsIn window.start window.stop) := by
  have onTracks {timeline : Timeline τ} (places : ∀ clip ∈ timeline.clips, clip.InSixPlaces) :
      ∀ track ∈ timeline.tracks, ∀ clip ∈ track.clips, clip.InSixPlaces :=
    fun track htrack clip hclip => places clip (List.mem_flatMap.mpr ⟨track, htrack, hclip⟩)
  have entries : windowEntries access window 0 timeline.tracks =
      windowEntries access' window 0 timeline'.tracks := by
    unfold windowPayload at h
    simpa using h
  have alike := (cast_alike .video (onTracks places) (onTracks places') entries).1
  rw [timeline.videoClipsIn_eq, timeline'.videoClipsIn_eq, List.forall₂_map_left_iff,
    List.forall₂_map_right_iff]
  -- What is not enabled is left out on both sides.
  generalize window.cast (timeline.tracks.filter (takesPart .video)) = cast at alike ⊢
  generalize window.cast (timeline'.tracks.filter (takesPart .video)) = cast' at alike ⊢
  induction alike with
  | nil => exact .nil
  | @cons a b _ _ same _ ih =>
    obtain ⟨footprint, mediaOut⟩ := same
    obtain ⟨-, -, -, start, duration, mediaIn, enabled, -⟩ := Footprint.mk.inj footprint
    rw [List.filter_cons, List.filter_cons, show a.2.enabled = b.2.enabled from enabled]
    split
    · exact .cons ⟨start, duration, mediaIn, mediaOut⟩ ih
    · exact ih

/-- With the same payload, and times of six places, two windows are both complex or both not, unless
only their effects decide on it and one of them has some and the other has none. -/
theorem isComplex_eq_iff (places : timeline.InSixPlaces window)
    (places' : timeline'.InSixPlaces window')
    (h : windowPayload timeline access window = windowPayload timeline' access' window') :
    (timeline.segment window.start window.stop).isComplex =
        (timeline'.segment window'.start window'.stop).isComplex ↔
      timeline'.isComplexWithoutEffects window' = true ∨
        timeline.showsEffects window = timeline'.showsEffects window' := by
  obtain rfl := window_eq_of_payload places places' h
  rw [timeline.isComplex_segment, timeline'.isComplex_segment,
    Timeline.isComplexWithoutEffects_of_sameTimes (sameTimes_of_payload places.clips places'.clips h)]
  cases timeline'.isComplexWithoutEffects window <;> simp

end ContentHash

end Montage
