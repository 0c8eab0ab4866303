import Montage.ContentHash
import Montage.Proofs.Compose.Footprint

/-!
# The hash of a window covers its composition

The payload of a window lists the clips that meet it, track by track as they are stored, where a
composition visits the layers from the bottom up and then the sounds. Two timelines with the same
payload have the same footprints in both orders, so their compositions are the same; times count only
to six places, so this is said of times that have no more. And the payload is not about anything else:
clips outside the window, names and effects do not change it.

## Main definitions

* `Clip.InSixPlaces` — the times of a clip have six decimal places at most
* `Track.ChangedOutside` — a track after a change that no composition of a window shows

## Main results

* `windowPayload_covers` — the same payload, the same composition; and nothing else in the payload
-/

namespace Montage

variable {τ : Type} [Scalar τ]

/-- The times of a clip have six decimal places at most. -/
structure Clip.InSixPlaces (clip : Clip τ) : Prop where
  start : Scalar.roundSixPlaces clip.start = clip.start
  duration : Scalar.roundSixPlaces clip.duration = clip.duration
  mediaIn : Scalar.roundSixPlaces clip.mediaIn = clip.mediaIn
  mediaOut : Scalar.roundSixPlaces clip.mediaOut = clip.mediaOut

instance [DecidableEq τ] (clip : Clip τ) : Decidable clip.InSixPlaces :=
  decidable_of_iff (Scalar.roundSixPlaces clip.start = clip.start ∧
      Scalar.roundSixPlaces clip.duration = clip.duration ∧
      Scalar.roundSixPlaces clip.mediaIn = clip.mediaIn ∧
      Scalar.roundSixPlaces clip.mediaOut = clip.mediaOut)
    ⟨fun h => ⟨h.1, h.2.1, h.2.2.1, h.2.2.2⟩, fun h => ⟨h.start, h.duration, h.mediaIn, h.mediaOut⟩⟩

theorem TrackKind.name_inj {a b : TrackKind} (h : a.name = b.name) : a = b := by
  cases a <;> cases b <;> first | rfl | exact absurd h (by decide)

theorem MediaType.name_inj {a b : MediaType} (h : a.name = b.name) : a = b := by
  cases a <;> cases b <;> first | rfl | exact absurd h (by decide)

namespace ContentHash

variable {access access' : MediaAccess} {window : Window τ}

/-! ### Entries -/

/-- Clips with the same source read the same file. -/
theorem file?_eq_of_source {clip clip' : Clip τ} (h : source access clip = source access' clip') :
    access.file? clip = access'.file? clip' := by
  unfold source at h
  unfold MediaAccess.file?
  cases found : access.media.find? clip.mediaId with
  | none =>
    cases found' : access'.media.find? clip'.mediaId with
    | none => rfl
    | some item' => simp [found, found'] at h
  | some item =>
    cases found' : access'.media.find? clip'.mediaId with
    | none => simp [found, found'] at h
    | some item' =>
      simp only [found, found', Json.list.injEq, List.cons.injEq, Json.text.injEq, and_true] at h
      obtain ⟨id, type, path⟩ := h
      simp only [Option.map_some, id, MediaType.name_inj type, path]

/-- Clips on their tracks of which the same is read, also behind what is shown. -/
def SameEntry (access access' : MediaAccess) (a b : Track τ × Clip τ) : Prop :=
  SameFootprint access access' a b ∧ a.2.mediaOut = b.2.mediaOut

/-- An entry says at which position its track stands, and what is read of the clip. -/
theorem windowEntry_inj {position position' : Nat} {track track' : Track τ} {clip clip' : Clip τ}
    (places : clip.InSixPlaces) (places' : clip'.InSixPlaces)
    (h : windowEntry access position track clip = windowEntry access' position' track' clip') :
    position = position' ∧ SameEntry access access' (track, clip) (track', clip') := by
  simp only [windowEntry, clipFields, time, List.cons_append, List.nil_append, Json.list.injEq,
    List.cons.injEq, Json.text.injEq, Json.int.injEq, Json.bool.injEq, Json.real.injEq, places.start,
    places.duration, places.mediaIn, places.mediaOut, places'.start, places'.duration,
    places'.mediaIn, places'.mediaOut, and_true, Int.natCast_inj] at h
  obtain ⟨-, position, kind, active, volume, -, start, duration, mediaIn, mediaOut, enabled, read⟩ := h
  refine ⟨position, ?_, mediaOut⟩
  simp only [SameFootprint, footprint, Footprint.mk.injEq]
  exact ⟨TrackKind.name_inj kind, active, volume, start, duration, mediaIn, enabled,
    file?_eq_of_source read⟩

/-- Whether an entry is about the track at a position. -/
def isAt (position : Nat) : Json τ → Bool
  | .list (_ :: .int place :: _) => place = position
  | _ => false

theorem isAt_windowEntry {position place : Nat} {track : Track τ} {clip : Clip τ} :
    isAt place (windowEntry access position track clip) = true ↔ position = place := by
  change decide ((position : Int) = place) = true ↔ _
  rw [decide_eq_true_eq, Int.natCast_inj]

/-- Entries of tracks from a position on are about no track in front of it. -/
theorem not_isAt_of_lt {tracks : List (Track τ)} {position place : Nat} (before : place < position)
    {entry : Json τ} (h : entry ∈ windowEntries access window position tracks) :
    ¬ isAt place entry = true := by
  induction tracks generalizing position with
  | nil => exact absurd h (by simp [windowEntries])
  | cons track rest ih =>
    rw [windowEntries] at h
    rcases List.mem_append.mp h with here | there
    · obtain ⟨clip, -, rfl⟩ := List.mem_map.mp here
      rw [isAt_windowEntry]
      omega
    · exact ih (by omega) there

/-- Entries of tracks are those of the first track and those of the others. -/
theorem windowEntries_cons_inj {track track' : Track τ} {rest rest' : List (Track τ)} {position : Nat}
    (h : windowEntries access window position (track :: rest) =
      windowEntries access' window position (track' :: rest')) :
    (track.clips.filter window.meets).map (windowEntry access position track) =
        (track'.clips.filter window.meets).map (windowEntry access' position track') ∧
      windowEntries access window (position + 1) rest =
        windowEntries access' window (position + 1) rest' := by
  rw [windowEntries, windowEntries] at h
  have here {access : MediaAccess} {track : Track τ} :
      ∀ entry ∈ (track.clips.filter window.meets).map (windowEntry access position track),
        isAt position entry = true := by
    intro entry hentry
    obtain ⟨clip, -, rfl⟩ := List.mem_map.mp hentry
    exact isAt_windowEntry.mpr rfl
  -- The position at which an entry is tells where the first track's entries end.
  exact append_inj_of_apart h here here (fun _ => not_isAt_of_lt (Nat.lt_succ_self _))
    fun _ => not_isAt_of_lt (Nat.lt_succ_self _)

/-- Where there is no entry, no clip meets the window. -/
theorem cast_eq_nil {tracks : List (Track τ)} {position : Nat}
    (h : windowEntries access window position tracks = []) {part : List (Track τ)}
    (within : part ⊆ tracks) : window.cast part = [] := by
  have none : ∀ track ∈ tracks, track.clips.filter window.meets = [] := by
    clear within
    induction tracks generalizing position with
    | nil => simp
    | cons track rest ih =>
      rw [windowEntries, List.append_eq_nil_iff, List.map_eq_nil_iff] at h
      exact List.forall_mem_cons.mpr ⟨h.1, ih h.2⟩
  rw [Window.cast, List.flatMap_eq_nil_iff]
  intro track htrack
  rw [none track (within htrack), List.map_nil]

/-! ### Layers and sounds -/

/-- Whether a track is one of a kind that takes part in what is rendered. -/
def takesPart (kind : TrackKind) (track : Track τ) : Bool := track.kind = kind && track.active

theorem layersFromBottom_eq (timeline : Timeline τ) :
    timeline.layersFromBottom = (timeline.tracks.filter (takesPart .video)).reverse := by
  unfold Timeline.layersFromBottom Timeline.layersFromTop Timeline.videoTracks
  rw [List.filter_filter]
  congr 1
  refine List.filter_congr fun track _ => ?_
  unfold takesPart Track.active
  cases track.kind <;> simp

theorem heardTracks_eq (timeline : Timeline τ) :
    timeline.heardTracks = timeline.tracks.filter (takesPart .audio) := by
  unfold Timeline.heardTracks Timeline.audioTracks
  rw [List.filter_filter]
  refine List.filter_congr fun track _ => ?_
  unfold takesPart Track.active
  cases track.kind <;> simp

/-- The same entries come of clips of which the same is read. -/
theorem forall₂_of_entries {track track' : Track τ} {position : Nat} {clips clips' : List (Clip τ)}
    (places : ∀ clip ∈ clips, clip.InSixPlaces) (places' : ∀ clip ∈ clips', clip.InSixPlaces)
    (h : clips.map (windowEntry access position track) =
      clips'.map (windowEntry access' position track')) :
    List.Forall₂ (SameEntry access access') (clips.map fun clip => (track, clip))
      (clips'.map fun clip => (track', clip)) := by
  induction clips generalizing clips' with
  | nil =>
    rw [List.map_eq_nil_iff.mp h.symm]
    exact .nil
  | cons clip rest ih =>
    cases clips' with
    | nil => exact absurd h (by simp)
    | cons clip' rest' =>
      obtain ⟨place, places⟩ := List.forall_mem_cons.mp places
      obtain ⟨place', places'⟩ := List.forall_mem_cons.mp places'
      obtain ⟨first, others⟩ := List.cons.inj h
      exact .cons (windowEntry_inj place place' first).2 (ih places places' others)

theorem cast_append (tracks tracks' : List (Track τ)) :
    window.cast (tracks ++ tracks') = window.cast tracks ++ window.cast tracks' :=
  List.flatMap_append

/-- A track with the same entries takes part in the same way, as far as it has clips in the window. -/
theorem cast_track_alike (kind : TrackKind) {track track' : Track τ} {position : Nat}
    (places : ∀ clip ∈ track.clips, clip.InSixPlaces)
    (places' : ∀ clip ∈ track'.clips, clip.InSixPlaces)
    (h : (track.clips.filter window.meets).map (windowEntry access position track) =
      (track'.clips.filter window.meets).map (windowEntry access' position track')) :
    List.Forall₂ (SameEntry access access') (window.cast ([track].filter (takesPart kind)))
      (window.cast ([track'].filter (takesPart kind))) := by
  have same := forall₂_of_entries (fun clip h => places clip (List.mem_filter.mp h).1)
    (fun clip h => places' clip (List.mem_filter.mp h).1) h
  have cast (track : Track τ) : window.cast ([track].filter (takesPart kind)) =
      if takesPart kind track then (track.clips.filter window.meets).map fun clip => (track, clip)
      else [] := by
    unfold Window.cast
    by_cases takes : takesPart kind track = true <;> simp [takes]
  rw [cast, cast]
  cases clips : track.clips.filter window.meets with
  | nil =>
    rw [clips] at same
    rw [List.forall₂_nil_left_iff.mp same]
    simp
  | cons clip rest =>
    cases clips' : track'.clips.filter window.meets with
    | nil => exact absurd same (by simp [clips, clips'])
    | cons clip' rest' =>
      rw [clips, clips'] at same
      -- The first clips tell that the tracks take part in the same way.
      cases same with
      | cons first others =>
        have takes : takesPart kind track = takesPart kind track' := by
          obtain ⟨kinds, active, -⟩ := Footprint.mk.inj first.1
          unfold takesPart
          rw [show track.kind = track'.kind from kinds, show track.active = track'.active from active]
        rw [takes]
        split
        · exact .cons first others
        · exact .nil

/-- With the same entries, the same is read of the tracks of a kind, in the order in which they are
stored and in the opposite one. -/
theorem cast_alike (kind : TrackKind) {tracks tracks' : List (Track τ)} {position : Nat}
    (places : ∀ track ∈ tracks, ∀ clip ∈ track.clips, clip.InSixPlaces)
    (places' : ∀ track ∈ tracks', ∀ clip ∈ track.clips, clip.InSixPlaces)
    (h : windowEntries access window position tracks =
      windowEntries access' window position tracks') :
    List.Forall₂ (SameEntry access access') (window.cast (tracks.filter (takesPart kind)))
        (window.cast (tracks'.filter (takesPart kind))) ∧
      List.Forall₂ (SameEntry access access')
        (window.cast (tracks.filter (takesPart kind)).reverse)
        (window.cast (tracks'.filter (takesPart kind)).reverse) := by
  have nothing {access : MediaAccess} {tracks : List (Track τ)} {position : Nat}
      (h : windowEntries access window position tracks = []) :
      window.cast (tracks.filter (takesPart kind)) = [] ∧
        window.cast (tracks.filter (takesPart kind)).reverse = [] :=
    ⟨cast_eq_nil h List.filter_sublist.subset,
      cast_eq_nil h fun track htrack => List.filter_sublist.subset (List.mem_reverse.mp htrack)⟩
  -- By induction on the tracks of one timeline; those of the other may be more or fewer, as long as
  -- the rest of them has no clip in the window.
  induction tracks generalizing tracks' position with
  | nil =>
    obtain ⟨there, there'⟩ := nothing h.symm
    rw [there, there']
    exact ⟨.nil, .nil⟩
  | cons track rest ih =>
    cases tracks' with
    | nil =>
      obtain ⟨here, here'⟩ := nothing h
      rw [here, here']
      exact ⟨.nil, .nil⟩
    | cons track' rest' =>
      obtain ⟨place, places⟩ := List.forall_mem_cons.mp places
      obtain ⟨place', places'⟩ := List.forall_mem_cons.mp places'
      obtain ⟨first, others⟩ := windowEntries_cons_inj h
      have here := cast_track_alike kind place place' first
      obtain ⟨forward, backward⟩ := ih places places' others
      have split (track : Track τ) (rest : List (Track τ)) :
          (track :: rest).filter (takesPart kind) =
            [track].filter (takesPart kind) ++ rest.filter (takesPart kind) := by
        rw [← List.filter_append, List.singleton_append]
      have alone (track : Track τ) :
          ([track].filter (takesPart kind)).reverse = [track].filter (takesPart kind) := by
        by_cases takes : takesPart kind track = true <;> simp [takes]
      -- The first track comes first in the order of the sounds and last in that of the layers.
      rw [split, split track', List.reverse_append, List.reverse_append, alone, alone, cast_append,
        cast_append, cast_append, cast_append]
      exact ⟨List.rel_append here forward, List.rel_append backward here⟩

end ContentHash

/-! ### Changes that do not show -/

/-- A clip with another name and other effects. -/
structure Clip.Restyled (before after : Clip τ) : Prop where
  id : after.id = before.id
  mediaId : after.mediaId = before.mediaId
  start : after.start = before.start
  duration : after.duration = before.duration
  mediaIn : after.mediaIn = before.mediaIn
  mediaOut : after.mediaOut = before.mediaOut
  enabled : after.enabled = before.enabled

/-- A track with another name and any other clips outside a window, whose clips that meet the window
have other names and effects at most. -/
structure Track.ChangedOutside (window : Window τ) (before after : Track τ) : Prop where
  id : after.id = before.id
  kind : after.kind = before.kind
  muted : after.muted = before.muted
  visible : after.visible = before.visible
  volume : after.volume = before.volume
  clips : List.Forall₂ Clip.Restyled (before.clips.filter window.meets)
    (after.clips.filter window.meets)

namespace ContentHash

variable {access access' : MediaAccess} {window : Window τ}

theorem windowEntry_restyled {before after : Track τ} (changed : before.ChangedOutside window after)
    {clip clip' : Clip τ} (restyled : clip.Restyled clip') (position : Nat) :
    windowEntry access position after clip' = windowEntry access position before clip := by
  have active : after.active = before.active := by
    unfold Track.active
    rw [changed.kind, changed.visible, changed.muted]
  unfold windowEntry clipFields source
  rw [changed.id, changed.kind, changed.volume, active, restyled.id, restyled.mediaId,
    restyled.start, restyled.duration, restyled.mediaIn, restyled.mediaOut, restyled.enabled]

theorem windowEntries_changed {before after : List (Track τ)}
    (changed : List.Forall₂ (Track.ChangedOutside window) before after) (position : Nat) :
    windowEntries access window position after = windowEntries access window position before := by
  induction changed generalizing position with
  | nil => rfl
  | cons first _ ih =>
    rw [windowEntries, windowEntries, ih]
    congr 1
    exact (map_eq_map_of_forall₂ (first.clips.imp fun clip clip' restyled =>
      (windowEntry_restyled first restyled position).symm)).symm

/-- The payload of a window covers all that its composition depends on: with the same payload, and
times of six places, there is the same composition but for the wording of complaints, or the same
failure, which is that there is nothing to render or that a delay is no number of milliseconds. And it
covers nothing else: clips outside the window, names and effects do not change it. -/
theorem windowPayload_covers (access access' : MediaAccess) {timeline timeline' : Timeline τ} :
    ((∀ clip ∈ timeline.clips, clip.InSixPlaces) → (∀ clip ∈ timeline'.clips, clip.InSixPlaces) →
      windowPayload timeline access window = windowPayload timeline' access' window →
      ∀ settings silentAudio,
        (∃ cause, composeOverlay timeline access settings window silentAudio = .error cause ∧
          composeOverlay timeline' access' settings window silentAudio = .error cause ∧
          (cause = .nothingToRender ∨ ∃ number, cause = .number number)) ∨
        ∃ a b, composeOverlay timeline access settings window silentAudio = .ok a ∧
          composeOverlay timeline' access' settings window silentAudio = .ok b ∧ a.Alike b) ∧
    (List.Forall₂ (Track.ChangedOutside window) timeline.tracks timeline'.tracks →
      windowPayload timeline' access window = windowPayload timeline access window) := by
  constructor
  · intro places places' same settings silentAudio
    have entries : windowEntries access window 0 timeline.tracks =
        windowEntries access' window 0 timeline'.tracks := by
      unfold windowPayload at same
      simpa using same
    have onTracks {timeline : Timeline τ} (places : ∀ clip ∈ timeline.clips, clip.InSixPlaces) :
        ∀ track ∈ timeline.tracks, ∀ clip ∈ track.clips, clip.InSixPlaces :=
      fun track htrack clip hclip => places clip (List.mem_flatMap.mpr ⟨track, htrack, hclip⟩)
    have seen := (cast_alike .video (onTracks places) (onTracks places') entries).2
    have heard := (cast_alike .audio (onTracks places) (onTracks places') entries).1
    rw [← layersFromBottom_eq, ← layersFromBottom_eq] at seen
    rw [← heardTracks_eq, ← heardTracks_eq] at heard
    rcases composeOverlay_alike settings silentAudio (seen.imp fun _ _ => And.left)
        (heard.imp fun _ _ => And.left) with
      ⟨cause, failed, failed'⟩ | composed
    · exact .inl ⟨cause, failed, failed', composeOverlay_fails failed⟩
    · exact .inr composed
  · intro changed
    unfold windowPayload
    rw [windowEntries_changed changed]

end ContentHash

/-! ### A film with another title, and a sound that comes too late -/

namespace RetitledFilm

/-- Two seconds of a film, from its tenth second on. -/
def film : Clip Double where
  id := "film"
  mediaId := some "film"
  trackId := "picture"
  start := 0
  duration := 2
  mediaIn := 10
  mediaOut := 12
  times_nonneg := by decide +kernel

/-- A song that begins in the middle of the film. -/
def song : Clip Double where
  id := "song"
  mediaId := some "song"
  trackId := "sound"
  start := 1
  duration := 2
  mediaIn := 0
  mediaOut := 2
  times_nonneg := by decide +kernel

/-- Clips of a picture under a title, and the song. -/
def timeline (title : String) (clips : List (Clip Double)) : Timeline Double where
  tracks := [
    { id := "picture", kind := .video, name := title, clips, volume := 1 },
    { id := "sound", kind := .audio, clips := [song], volume := Double.ofRatio false 1 2 }]

/-- The film in gray under another name, and a clip behind the window. -/
def retitledClips : List (Clip Double) := [
  { film with name := "Opening", effects := [{ type := "grayscale" }] },
  { film with id := "credits", start := 100, times_nonneg := by decide +kernel }]

/-- The film has a proxy, the song has none. -/
def access : MediaAccess where
  media := [
    ("film", { id := "film", type := .video, path := "film.mp4", proxyPath := some "proxy.mp4" }),
    ("song", { id := "song", type := .audio, path := "song.wav" })]
  useProxies := true
  pathExists path := path = "proxy.mp4"

/-- The second half of the film, and the rest of the song. -/
def window : Window Double := ⟨1, 3⟩

theorem changed : List.Forall₂ (Track.ChangedOutside window) (timeline "Film" [film]).tracks
    (timeline "Feature" retitledClips).tracks := by
  have inside : window.meets film = true := by decide +kernel
  have inside' : window.meets { film with name := "Opening", effects := [{ type := "grayscale" }] } =
    true := inside
  have outside : window.meets { film with
      id := "credits", start := 100, times_nonneg := by decide +kernel } = false := by decide +kernel
  refine .cons ⟨rfl, rfl, rfl, rfl, rfl, ?_⟩ (.cons ⟨rfl, rfl, rfl, rfl, rfl, ?_⟩ .nil)
  · simp only [retitledClips, List.filter_cons, inside, inside', outside, List.filter_nil,
      if_true, Bool.false_eq_true, if_false]
    exact .cons ⟨rfl, rfl, rfl, rfl, rfl, rfl, rfl⟩ .nil
  · exact List.forall₂_same.mpr fun clip _ => ⟨rfl, rfl, rfl, rfl, rfl, rfl, rfl⟩

end RetitledFilm

open RetitledFilm in
/-- Under another title, in gray and with a clip behind the window, the film is composed as before. -/
theorem retitled_film_is_composed_alike :
    ContentHash.windowPayload (timeline "Feature" retitledClips) access window =
        ContentHash.windowPayload (timeline "Film" [film]) access window ∧
      ∃ a b, composeOverlay (timeline "Film" [film]) access {} window = .ok a ∧
        composeOverlay (timeline "Feature" retitledClips) access {} window = .ok b ∧ a.Alike b := by
  have same := (ContentHash.windowPayload_covers access access).2 changed
  have places : ∀ clip ∈ (timeline "Film" [film]).clips, clip.InSixPlaces := by decide +kernel
  have places' : ∀ clip ∈ (timeline "Feature" retitledClips).clips, clip.InSixPlaces := by
    decide +kernel
  refine ⟨same, ?_⟩
  rcases (ContentHash.windowPayload_covers access access).1 places places' same.symm {} true with
    ⟨cause, failed, -⟩ | composed
  · have composes : (composeOverlay (timeline "Film" [film]) access {} window).toBool = true := by
      decide +kernel
    rw [failed] at composes
    exact absurd composes (by simp [Except.toBool])
  · exact composed

namespace LateSong

/-- A song so late that its delay in milliseconds is beyond the doubles. -/
def song : Clip Double where
  id := "song"
  mediaId := some "song"
  trackId := "sound"
  start := Double.ofRatio false (Nat.pow 10 306) 1
  duration := Double.ofRatio false (Nat.pow 10 306) 1
  mediaIn := 0
  mediaOut := 2
  times_nonneg := by decide +kernel

def timeline : Timeline Double where
  tracks := [{ id := "sound", kind := .audio, clips := [song], volume := 1 }]

def window : Window Double := ⟨0, Double.ofRatio false (Nat.pow 10 307) 1⟩

end LateSong

theorem eq_error_of_map {ε α : Type} {result : Except ε α} {cause : ε}
    (h : result.map (fun _ => ()) = .error cause) : result = .error cause := by
  cases result with
  | ok a => exact absurd h (by simp [Except.map])
  | error cause' => exact congrArg _ (Except.error.inj h)

/-- A sound that comes too late is in no composition, although the window has length and a clip. -/
theorem exists_uncomposed : ∃ (timeline : Timeline Double) (access : MediaAccess)
    (window : Window Double), (∀ clip ∈ timeline.clips, clip.InSixPlaces) ∧
      window.start < window.stop ∧
      composeOverlay timeline access {} window = .error (.number .infinite) :=
  ⟨LateSong.timeline, RetitledFilm.access, LateSong.window, by decide +kernel, by decide +kernel,
    eq_error_of_map (by decide +kernel)⟩

end Montage
