import Montage.Proofs.Compose.Coverage
import Montage.Proofs.Json.Compact

/-!
# The hash of a timeline covers its structure and its output

The hash of a timeline is taken of a text. Numbers that are equal are written alike unless they are
zeros of different sign, and a rate that was left out is written as the whole number that stands for it;
so equal timelines have the same hash as long as neither makes a difference. And the text says all that
it is made of: timelines with the same text have the same tracks with the same flags, volumes and clips,
but for names, effects and the track that a clip itself names, and the same output.

## Main definitions

* `Double.Identical` — two numbers are equal and have the same sign
* `Timeline.Agrees`, `OutputFormat.Agrees` — the same as far as the hash of a timeline goes

## Main results

* `timelinePayload_covers` — equal timelines have the same hash, and the same text is that of the same
  structure and output
* `equal_outputs_hashed_apart` — a rate that was left out is told from the rate that stands for it, as
  are zeros of different sign; and the track that a clip names is not seen
-/

namespace Montage

/-! ### Timelines that agree -/

/-- Two numbers are equal and have the same sign, also where they are zero. -/
structure Double.Identical (x y : Double) : Prop where
  equal : (x == y) = true
  sign : x.isNegative = y.isNegative

instance (x y : Double) : Decidable (x.Identical y) :=
  decidable_of_iff ((x == y) = true ∧ x.isNegative = y.isNegative)
    ⟨fun h => ⟨h.1, h.2⟩, fun h => ⟨h.equal, h.sign⟩⟩

theorem Double.Identical.eq {x y : Double} (h : x.Identical y) : x = y := by
  obtain ⟨equal, sign⟩ := h
  obtain ⟨a, hx, hy⟩ := Iff.mp beq_iff equal
  by_cases zero : a = 0
  · subst zero
    have limit := limit_pos
    -- An infinity is at the end of the line, and so not at zero.
    have units {negative : Bool} {n : Nat} (h : signed negative n = 0) : n = 0 := by
      cases negative <;> simpa [signed] using h
    cases x with
    | nan => cases hx
    | infinite negative => exact absurd (units (Option.some.inj hx)) (Nat.ne_of_gt limit)
    | finite negative m fits =>
      cases y with
      | nan => cases hy
      | infinite negative' => exact absurd (units (Option.some.inj hy)) (Nat.ne_of_gt limit)
      | finite negative' n fits' =>
        obtain rfl : negative = negative' := sign
        obtain rfl : m = 0 := units (Option.some.inj hx)
        obtain rfl : n = 0 := units (Option.some.inj hy)
        rfl
  · exact eq_of_position? hx hy zero

section Agreement

variable {τ : Type} [Scalar τ] {R S : τ → τ → Prop}

/-- Two clips are the same but for names, effects and the tracks that they name, their times as `R`
has it. -/
structure Clip.Agrees (R : τ → τ → Prop) (a b : Clip τ) : Prop where
  id : a.id = b.id
  mediaId : a.mediaId = b.mediaId
  start : R a.start b.start
  duration : R a.duration b.duration
  mediaIn : R a.mediaIn b.mediaIn
  mediaOut : R a.mediaOut b.mediaOut
  enabled : a.enabled = b.enabled

/-- Two tracks are the same but for names, with clips that agree in the same order. -/
structure Track.Agrees (R : τ → τ → Prop) (a b : Track τ) : Prop where
  id : a.id = b.id
  kind : a.kind = b.kind
  muted : a.muted = b.muted
  visible : a.visible = b.visible
  volume : R a.volume b.volume
  clips : List.Forall₂ (Clip.Agrees R) a.clips b.clips

/-- Two timelines have tracks that agree in the same order. -/
def Timeline.Agrees (R : τ → τ → Prop) (a b : Timeline τ) : Prop :=
  List.Forall₂ (Track.Agrees R) a.tracks b.tracks

/-- Two rates are both left out or both given. -/
def FrameRate.Agrees (R : τ → τ → Prop) : FrameRate τ → FrameRate τ → Prop
  | .unset, .unset => True
  | .given rate, .given rate' => R rate rate'
  | _, _ => False

/-- Two outputs have the same resolution and rate. -/
structure OutputFormat.Agrees (R : τ → τ → Prop) (a b : OutputFormat τ) : Prop where
  width : a.width = b.width
  height : a.height = b.height
  frameRate : a.frameRate.Agrees R b.frameRate

theorem Clip.Agrees.imp (weaken : ∀ x y, R x y → S x y) {a b : Clip τ} (h : a.Agrees R b) :
    a.Agrees S b :=
  { h with
    start := weaken _ _ h.start
    duration := weaken _ _ h.duration
    mediaIn := weaken _ _ h.mediaIn
    mediaOut := weaken _ _ h.mediaOut }

theorem Timeline.Agrees.imp (weaken : ∀ x y, R x y → S x y) {a b : Timeline τ} (h : a.Agrees R b) :
    a.Agrees S b :=
  List.Forall₂.imp (fun _ _ track =>
    { track with
      volume := weaken _ _ track.volume
      clips := track.clips.imp fun _ _ => Clip.Agrees.imp weaken }) h

omit [Scalar τ] in
theorem FrameRate.Agrees.imp (weaken : ∀ x y, R x y → S x y) {a b : FrameRate τ} (h : a.Agrees R b) :
    a.Agrees S b := by
  cases a <;> cases b <;> first | exact h | exact weaken _ _ h

omit [Scalar τ] in
theorem FrameRate.Agrees.eq {a b : FrameRate τ} (h : a.Agrees Eq b) : a = b := by
  cases a <;> cases b <;> first | rfl | exact absurd h id | exact congrArg _ h

/-- Timelines that agree in every number end together. -/
theorem Timeline.Agrees.duration_eq {a b : Timeline τ} (h : a.Agrees Eq b) :
    a.duration = b.duration := by
  have clips : List.Forall₂ (Clip.Agrees Eq) a.clips b.clips :=
    List.rel_flatMap h fun _ _ track => track.clips
  have enabled : List.Forall₂ (Clip.Agrees Eq) a.enabledClips b.enabledClips :=
    List.rel_filter (fun _ _ clip => iff_of_eq (congrArg (· = true) clip.enabled)) clips
  have stops : a.enabledClips.map Clip.stop = b.enabledClips.map Clip.stop :=
    map_eq_map_of_forall₂ (enabled.imp fun _ _ clip => by
      unfold Clip.stop
      rw [clip.start, clip.duration])
  unfold Timeline.duration
  rw [stops]

end Agreement

namespace ContentHash

/-! ### The same timeline, the same payload -/

section Payload

variable {τ : Type} [Scalar τ] {timeline timeline' : Timeline τ} {settings settings' : OutputFormat τ}
  {duration duration' : Option τ}

/-- A clip in the payload of a timeline. -/
def clipEntry (clip : Clip τ) : Json τ := .list (clipFields clip ++ [.ofText? clip.mediaId])

theorem clipEntry_eq_of_agrees {a b : Clip τ} (h : a.Agrees Eq b) : clipEntry a = clipEntry b := by
  unfold clipEntry clipFields
  rw [h.id, h.mediaId, h.start, h.duration, h.mediaIn, h.mediaOut, h.enabled]

theorem trackPayload_eq_of_agrees {a b : Track τ} (h : a.Agrees Eq b) :
    trackPayload a = trackPayload b := by
  have clips : a.clips.map clipEntry = b.clips.map clipEntry :=
    map_eq_map_of_forall₂ (h.clips.imp fun _ _ => clipEntry_eq_of_agrees)
  unfold clipEntry at clips
  unfold trackPayload
  rw [h.id, h.kind, h.muted, h.visible, h.volume, clips]

theorem timelinePayload_eq_of_agrees (same : timeline.Agrees Eq timeline')
    (output : settings.Agrees Eq settings') :
    timelinePayload timeline settings duration = timelinePayload timeline' settings' duration := by
  have tracks : timeline.tracks.map trackPayload = timeline'.tracks.map trackPayload :=
    map_eq_map_of_forall₂ (List.Forall₂.imp (fun _ _ => trackPayload_eq_of_agrees) same)
  unfold timelinePayload
  rw [tracks, output.width, output.height, output.frameRate.eq, same.duration_eq]

end Payload

/-! ### The same text, the same timeline -/

variable {timeline timeline' : Timeline Double} {settings settings' : OutputFormat Double}
  {duration duration' : Option Double}

theorem sorted_clipEntry (clip : Clip Double) : (clipEntry clip).sorted = clipEntry clip := by
  unfold clipEntry
  cases clip.mediaId <;> rfl

theorem sorted_trackPayload (track : Track Double) : (trackPayload track).sorted = .object [
    ("clips", .list (track.clips.map clipEntry)),
    ("id", .text track.id),
    ("muted", .bool track.muted),
    ("type", .text track.kind.name),
    ("visible", .bool track.visible),
    ("volume", .real track.volume)] := by
  have clips : Json.sortedItems (track.clips.map clipEntry) = track.clips.map clipEntry := by
    rw [Json.sortedItems_eq_map, List.map_map]
    exact List.map_congr_left fun clip _ => sorted_clipEntry clip
  have entries : (track.clips.map fun clip => Json.list (clipFields clip ++ [.ofText? clip.mediaId])) =
    track.clips.map clipEntry := rfl
  rw [trackPayload, entries]
  simp [Json.sorted, Json.sortedFields, Json.byName, clips]

theorem sorted_timelinePayload : (timelinePayload timeline settings duration).sorted = .object [
    ("duration", time (duration.getD timeline.duration)),
    ("frame_rate", frameRate settings.frameRate),
    ("resolution", .list [.int settings.width, .int settings.height]),
    ("tracks", .list (timeline.tracks.map fun track => (trackPayload track).sorted))] := by
  have tracks : Json.sortedItems (timeline.tracks.map trackPayload) =
      timeline.tracks.map fun track => (trackPayload track).sorted := by
    rw [Json.sortedItems_eq_map, List.map_map]
    rfl
  have rate : (frameRate settings.frameRate).sorted = frameRate settings.frameRate := by
    cases settings.frameRate <;> rfl
  simp [timelinePayload, time, Json.sorted, Json.sortedFields, Json.sortedItems, Json.byName, rate, tracks]

theorem ofText?_inj {s s' : Option String} (h : (Json.ofText? s : Json Double) = Json.ofText? s') :
    s = s' := by
  cases s <;> cases s' <;> simp_all [Json.ofText?]

theorem frameRate_inj {rate rate' : FrameRate Double} (h : frameRate rate = frameRate rate') :
    rate.Agrees Eq rate' := by
  cases rate <;> cases rate' <;> simp_all [frameRate, FrameRate.Agrees]

theorem agrees_of_clipEntry_eq {a b : Clip Double} (places : a.InSixPlaces) (places' : b.InSixPlaces)
    (h : clipEntry a = clipEntry b) : a.Agrees Eq b := by
  simp only [clipEntry, clipFields, time, List.cons_append, List.nil_append, Json.list.injEq,
    List.cons.injEq, Json.text.injEq, Json.real.injEq, Json.bool.injEq, and_true, places.start,
    places.duration, places.mediaIn, places.mediaOut, places'.start, places'.duration,
    places'.mediaIn, places'.mediaOut] at h
  obtain ⟨id, start, duration, mediaIn, mediaOut, enabled, mediaId⟩ := h
  exact ⟨id, ofText?_inj mediaId, start, duration, mediaIn, mediaOut, enabled⟩

theorem agrees_of_sorted_trackPayload_eq {a b : Track Double}
    (places : ∀ clip ∈ a.clips, clip.InSixPlaces) (places' : ∀ clip ∈ b.clips, clip.InSixPlaces)
    (h : (trackPayload a).sorted = (trackPayload b).sorted) : a.Agrees Eq b := by
  simp only [sorted_trackPayload, Json.object.injEq, List.cons.injEq, Prod.mk.injEq, true_and,
    Json.list.injEq, Json.text.injEq, Json.bool.injEq, Json.real.injEq, and_true] at h
  obtain ⟨clips, id, muted, kind, visible, volume⟩ := h
  refine ⟨id, TrackKind.name_inj kind, muted, visible, volume, forall₂_of_map_eq ?_ clips⟩
  exact fun clip hclip clip' hclip' =>
    agrees_of_clipEntry_eq (places clip hclip) (places' clip' hclip')

/-- Equal timelines have the same hash: timelines that agree in structure and in their numbers, for
outputs and durations that do, as long as equal numbers have the same sign and the rates are both given
or both left out. And the same text comes, where the times have six places at most, from timelines with
the same tracks and clips but for names, effects and the tracks that clips name, from the same resolution
and rate, and from the same duration. -/
theorem timelinePayload_covers :
    (timeline.Agrees Double.Identical timeline' → settings.Agrees Double.Identical settings' →
      Option.Rel Double.Identical duration duration' →
      ofTimeline timeline settings duration = ofTimeline timeline' settings' duration') ∧
    ((∀ clip ∈ timeline.clips, clip.InSixPlaces) → (∀ clip ∈ timeline'.clips, clip.InSixPlaces) →
      (∀ length ∈ [duration.getD timeline.duration, duration'.getD timeline'.duration],
        Scalar.roundSixPlaces length = length) →
      (timelinePayload timeline settings duration).compact Scalar.jsonText =
        (timelinePayload timeline' settings' duration').compact Scalar.jsonText →
      timeline.Agrees Eq timeline' ∧ settings.Agrees Eq settings' ∧
        duration.getD timeline.duration = duration'.getD timeline'.duration) := by
  constructor
  · intro same output durations
    -- Nothing that is hashed differs, so neither does the hash.
    obtain rfl : duration = duration' := by
      cases durations with
      | none => rfl
      | some equal => rw [equal.eq]
    have weaken : ∀ x y, Double.Identical x y → x = y := fun _ _ => Double.Identical.eq
    unfold ofTimeline
    rw [timelinePayload_eq_of_agrees (same.imp weaken)
      { output with frameRate := output.frameRate.imp weaken }]
  · intro places places' whole text
    -- The text tells the payload, and the payload tells each field; times are kept by the rounding.
    have sorted := Json.compact_eq_compact_iff.mp text
    simp only [sorted_timelinePayload, Json.object.injEq, List.cons.injEq, Prod.mk.injEq, true_and,
      Json.list.injEq, Json.int.injEq, and_true, time, Json.real.injEq] at sorted
    obtain ⟨length, rate, ⟨width, height⟩, tracks⟩ := sorted
    refine ⟨forall₂_of_map_eq (fun track htrack track' htrack' => ?_) tracks,
      ⟨width, height, frameRate_inj rate⟩, ?_⟩
    · exact agrees_of_sorted_trackPayload_eq
        (fun clip hclip => places clip (List.mem_flatMap.mpr ⟨track, htrack, hclip⟩))
        (fun clip hclip => places' clip (List.mem_flatMap.mpr ⟨track', htrack', hclip⟩))
    · rwa [whole _ (by simp), whole _ (by simp)] at length

end ContentHash

/-! ### The film again -/

open RetitledFilm in
/-- Under another title, in gray and under another name, the film has the hash that it had, and nothing
else has its text. -/
theorem retitled_film_is_hashed_alike :
    let gray : Clip Double := { film with name := "Opening", effects := [{ type := "grayscale" }] }
    ContentHash.ofTimeline (timeline "Film" [film]) {} none =
        ContentHash.ofTimeline (timeline "Feature" [gray]) {} none ∧
      (timeline "Film" [film]).Agrees Eq (timeline "Feature" [gray]) ∧
      (timeline "Film" [film]).duration = (timeline "Feature" [gray]).duration := by
  intro gray
  have agree : (timeline "Film" [film]).Agrees Double.Identical (timeline "Feature" [gray]) := by
    refine .cons ⟨rfl, rfl, rfl, rfl, by decide +kernel, .cons ?_ .nil⟩
      (.cons ⟨rfl, rfl, rfl, rfl, by decide +kernel, .cons ?_ .nil⟩ .nil)
    · exact ⟨rfl, rfl, by decide +kernel, by decide +kernel, by decide +kernel, by decide +kernel, rfl⟩
    · exact ⟨rfl, rfl, by decide +kernel, by decide +kernel, by decide +kernel, by decide +kernel, rfl⟩
  have places : ∀ clip ∈ (timeline "Film" [film]).clips, clip.InSixPlaces := by decide +kernel
  have places' : ∀ clip ∈ (timeline "Feature" [gray]).clips, clip.InSixPlaces := by decide +kernel
  have whole : ∀ length ∈ [Option.getD none (timeline "Film" [film]).duration,
      Option.getD none (timeline "Feature" [gray]).duration], Scalar.roundSixPlaces length = length := by
    decide +kernel
  have payload : ContentHash.timelinePayload (timeline "Film" [film]) {} none =
      ContentHash.timelinePayload (timeline "Feature" [gray]) {} none :=
    ContentHash.timelinePayload_eq_of_agrees (agree.imp fun _ _ => Double.Identical.eq) ⟨rfl, rfl, trivial⟩
  have text := congrArg (Json.compact Scalar.jsonText) payload
  have covered := ContentHash.timelinePayload_covers.2 places places' whole text
  have same := ContentHash.timelinePayload_covers.1 agree
    (show OutputFormat.Agrees Double.Identical {} {} from ⟨rfl, rfl, trivial⟩) Option.Rel.none
  exact ⟨same, covered.1, by simpa only [Option.getD_none] using covered.2.2⟩

/-! ### What tells equal timelines apart -/

namespace LeftOutRate

/-- An output whose rate was given as the number that stands for one that was left out. -/
def spelledOut : OutputFormat Double where
  frameRate := .given (Scalar.whole 30)

/-- The film on a track that it does not name. -/
def moved : Clip Double := { RetitledFilm.film with trackId := "title" }

/-- A sound that is silent, its volume written with or without a sign. -/
def silent (negative : Bool) : Timeline Double where
  tracks := [{ id := "sound", kind := .audio, volume := .signedZero negative }]

end LeftOutRate

open LeftOutRate RetitledFilm in
/-- Two outputs that are the same have different hashes where one has its rate left out, and so have two
volumes of zero; and two timelines whose clips name different tracks have the same text. -/
theorem equal_outputs_hashed_apart :
    (OutputFormat.sameOutput {} spelledOut = true ∧
      ContentHash.ofTimeline (silent false) {} none ≠
        ContentHash.ofTimeline (silent false) spelledOut none) ∧
    ((Double.signedZero false == Double.signedZero true) = true ∧
      ContentHash.ofTimeline (silent false) {} none ≠ ContentHash.ofTimeline (silent true) {} none) ∧
    ((∀ clip ∈ (timeline "Film" [film]).clips ++ (timeline "Film" [moved]).clips, clip.InSixPlaces) ∧
      Scalar.roundSixPlaces (timeline "Film" [film]).duration = (timeline "Film" [film]).duration ∧
      (ContentHash.timelinePayload (timeline "Film" [film]) {} none).compact Scalar.jsonText =
        (ContentHash.timelinePayload (timeline "Film" [moved]) {} none).compact Scalar.jsonText ∧
      film.trackId ≠ moved.trackId) := by
  refine ⟨⟨by decide +kernel, by decide +kernel⟩, ⟨by decide +kernel, by decide +kernel⟩, by decide +kernel,
    by decide +kernel, rfl, by decide⟩

end Montage
