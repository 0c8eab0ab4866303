import Montage.Json.Basic
import Montage.Number.Scalar

/-!
Timelines: tracks of clips, placed in time. The tracks stand in storage order, and the first
video track is the topmost layer.
-/

namespace Montage

/-- An effect on a clip, with all its parameters as they were given. -/
structure Effect where
  type : String
  enabled : Bool := true
  parameters : List (String × Json Double) := []

open Scalar in
/-- A stretch of a media file at a place on a track. -/
structure Clip (τ : Type) [Scalar τ] where
  id : String
  mediaId : Option String := none
  trackId : String
  start : τ
  duration : τ
  mediaIn : τ
  mediaOut : τ
  enabled : Bool := true
  name : String := ""
  effects : List Effect := []
  times_nonneg : (zero : τ) ≤ start ∧ (zero : τ) ≤ duration ∧ (zero : τ) ≤ mediaIn ∧
    (zero : τ) ≤ mediaOut

/-- What a track holds; all clips on it are of its kind. -/
inductive TrackKind where
  | video
  | audio
  deriving DecidableEq, Repr

def TrackKind.name : TrackKind → String
  | .video => "video"
  | .audio => "audio"

/-- Clips in order of insertion. -/
structure Track (τ : Type) [Scalar τ] where
  id : String
  kind : TrackKind
  name : String := ""
  clips : List (Clip τ) := []
  muted : Bool := false
  visible : Bool := true
  volume : τ

structure Timeline (τ : Type) [Scalar τ] where
  tracks : List (Track τ) := []

variable {τ : Type} [Scalar τ]

namespace Clip

/-- The end of a clip on the timeline. -/
def stop (clip : Clip τ) : τ := clip.start + clip.duration

/-- The name under which a clip is mentioned to people. -/
def label (clip : Clip τ) : String := if clip.name = "" then clip.id else clip.name

/-- Whether a clip is shown at a time. -/
def coversTime (clip : Clip τ) (t : τ) : Bool := clip.start ≤ t && t < clip.stop

/-- The most by which a clip may differ in length from its source without a change of speed. -/
def speedTolerance : τ := Scalar.ofDecimal 1 2

/-- Whether a clip is longer or shorter than the stretch of source that it names. -/
def changesSpeed (clip : Clip τ) : Bool :=
  speedTolerance < Scalar.magnitude ((clip.mediaOut - clip.mediaIn) - clip.duration)

def hasEnabledEffect (clip : Clip τ) : Bool := clip.effects.any (·.enabled)

end Clip

/-- Whether a track contributes to what is rendered. -/
def Track.active (track : Track τ) : Bool :=
  match track.kind with
  | .video => track.visible
  | .audio => !track.muted

/-- The greatest of some numbers; zero if there are none. -/
def maximum : List τ → τ
  | [] => Scalar.zero
  | x :: xs => xs.foldl Scalar.maxOf x

namespace Timeline

def videoTracks (timeline : Timeline τ) : List (Track τ) :=
  timeline.tracks.filter (·.kind = .video)

def audioTracks (timeline : Timeline τ) : List (Track τ) :=
  timeline.tracks.filter (·.kind = .audio)

/-- All clips, track by track. -/
def clips (timeline : Timeline τ) : List (Clip τ) := timeline.tracks.flatMap (·.clips)

def enabledClips (timeline : Timeline τ) : List (Clip τ) := timeline.clips.filter (·.enabled)

/-- The end of the last enabled clip. -/
def duration (timeline : Timeline τ) : τ := maximum (timeline.enabledClips.map Clip.stop)

/-- The visible video tracks, the topmost first. -/
def layersFromTop (timeline : Timeline τ) : List (Track τ) :=
  timeline.videoTracks.filter (·.visible)

/-- The visible video tracks in the order in which they are laid over each other. -/
def layersFromBottom (timeline : Timeline τ) : List (Track τ) := timeline.layersFromTop.reverse

def heardTracks (timeline : Timeline τ) : List (Track τ) :=
  timeline.audioTracks.filter (!·.muted)

/-- The media ids that enabled clips refer to, each once, in order of first use. -/
def mediaInUse (timeline : Timeline τ) : List String :=
  (timeline.enabledClips.filterMap fun clip => clip.mediaId.filter (· ≠ "")).foldl
    (fun seen id => if seen.contains id then seen else seen ++ [id]) []

/-- A gap or overlap of at most this length does not count. -/
def gapTolerance : τ := Scalar.ofDecimal 1 3

/-- The enabled clips of a track by their start; clips of one start keep their order. -/
def clipsByStart (track : Track τ) : List (Clip τ) :=
  (track.clips.filter (·.enabled)).mergeSort fun a b => !decide (b.start < a.start)

/-- Whether a clip starts before the one in front of it has ended. -/
def hasOverlap : List (Clip τ) → Bool
  | a :: b :: rest => decide (b.start < a.stop - gapTolerance) || hasOverlap (b :: rest)
  | _ => false

/-- Whether two enabled clips of one visible video track overlap. -/
def hasOverlaps (timeline : Timeline τ) : Bool :=
  timeline.layersFromBottom.any fun track => hasOverlap (clipsByStart track)

end Timeline

end Montage
