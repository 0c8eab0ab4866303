import Montage.Json.Writer
import Montage.Slice
import Montage.Text.Md5

/-!
Hashes of what is rendered. The hash of a window covers the window, every clip that meets it with
the layer on which it lies, and the file that the clip reads; the hash of a timeline covers its
structure and the output. Times count to six decimal places.
-/

namespace Montage.ContentHash

variable {τ : Type} [Scalar τ]

/-- The digest of a payload in its compact form. -/
def digest (payload : Json τ) : String := Text.Md5.hex (payload.compact Scalar.jsonText)

def time (x : τ) : Json τ := .real (Scalar.roundSixPlaces x)

/-- The fields of a clip that decide what it shows. -/
def clipFields (clip : Clip τ) : List (Json τ) :=
  [.text clip.id, time clip.start, time clip.duration, time clip.mediaIn, time clip.mediaOut,
    .bool clip.enabled]

/-- The file that a clip reads. -/
def source (access : MediaAccess) (clip : Clip τ) : Json τ :=
  match access.media.find? clip.mediaId with
  | some item => .list [.text item.id, .text item.type.name,
      .text (item.resolvedPath access.useProxies access.pathExists)]
  | none => .null

/-- A clip on its layer. -/
def windowEntry (access : MediaAccess) (position : Nat) (track : Track τ) (clip : Clip τ) :
    Json τ :=
  .list ([.text track.id, .int position, .text track.kind.name, .bool track.active,
    .real track.volume] ++ clipFields clip ++ [source access clip])

/-- The clips that meet a window, of tracks from a position on. -/
def windowEntries (access : MediaAccess) (window : Window τ) :
    Nat → List (Track τ) → List (Json τ)
  | _, [] => []
  | position, track :: rest =>
    (track.clips.filter window.meets).map (windowEntry access position track) ++
      windowEntries access window (position + 1) rest

/-- All that the hash of a window covers. -/
def windowPayload (timeline : Timeline τ) (access : MediaAccess) (window : Window τ) : Json τ :=
  .object [
    ("window", .list [time window.start, time window.stop]),
    ("clips", .list (windowEntries access window 0 timeline.tracks))]

/-- The hash of everything that affects the picture and the sound of a window. -/
def ofWindow (timeline : Timeline τ) (access : MediaAccess) (window : Window τ) : String :=
  digest (windowPayload timeline access window)

def trackPayload (track : Track τ) : Json τ := .object [
  ("id", .text track.id),
  ("type", .text track.kind.name),
  ("muted", .bool track.muted),
  ("visible", .bool track.visible),
  ("volume", .real track.volume),
  ("clips", .list (track.clips.map fun clip =>
    .list (clipFields clip ++ [.ofText? clip.mediaId])))]

/-- A frame rate that was never given is a whole number, and hashed as one. -/
def frameRate : FrameRate τ → Json τ
  | .unset => .int 30
  | .given rate => .real rate

/-- All that the hash of a timeline covers. -/
def timelinePayload (timeline : Timeline τ) (settings : OutputFormat τ)
    (duration : Option τ) : Json τ := .object [
  ("tracks", .list (timeline.tracks.map trackPayload)),
  ("resolution", .list [.int settings.width, .int settings.height]),
  ("frame_rate", frameRate settings.frameRate),
  ("duration", time (duration.getD timeline.duration))]

/-- The hash of a whole timeline and its output. -/
def ofTimeline (timeline : Timeline τ) (settings : OutputFormat τ) (duration : Option τ) :
    String :=
  digest (timelinePayload timeline settings duration)

/-- The name under which the cache of a project is kept. -/
def ofProject (path : Option String) : String :=
  match path.filter (· ≠ "") with
  | none => "unsaved-project"
  | some path => String.ofList ((Text.Md5.hex path).toList.take 16)

end Montage.ContentHash
