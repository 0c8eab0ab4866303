import Montage.Filter.Graph
import Montage.Media
import Montage.OutputFormat
import Montage.Window

/-!
Slices: the parts of clips that lie inside a render window, the media files that they read, and
the filters that bring each of them to the geometry and timing of the output.
-/

namespace Montage

/-- A file that the encoder reads; its index is its place among the inputs. -/
structure InputFile where
  index : Nat
  mediaId : String
  path : String
  deriving DecidableEq, Repr

/-- Where clips find their media. -/
structure MediaAccess where
  media : MediaLibrary
  useProxies : Bool
  pathExists : PathExists

/-- The part of a clip inside a window. Local times count from the start of the window, source
times from the start of the file; both stretches have the same length. -/
structure Slice (τ : Type) [Scalar τ] where
  clip : Clip τ
  media : MediaFile
  localStart : τ
  localStop : τ
  sourceIn : τ
  sourceOut : τ
  inputIndex : Int := -1
  volume : τ := Scalar.whole 1

/-- The inputs and the complaints that gathering slices has led to. -/
structure Gathered where
  inputs : List InputFile := []
  diagnostics : List String := []

namespace Gathered

/-- The index of a media item among the inputs, which it joins if its id is not there yet. -/
def inputFor (access : MediaAccess) (item : MediaFile) (gathered : Gathered) :
    Nat × Gathered :=
  match gathered.inputs.find? (·.mediaId = item.id) with
  | some source => (source.index, gathered)
  | none =>
    let index := gathered.inputs.length
    let path := item.resolvedPath access.useProxies access.pathExists
    (index, { gathered with inputs := gathered.inputs ++ [⟨index, item.id, path⟩] })

def complain (gathered : Gathered) (diagnostic : String) : Gathered :=
  { gathered with diagnostics := gathered.diagnostics ++ [diagnostic] }

end Gathered

variable {τ : Type} [Scalar τ]

namespace Slice

def duration (slice : Slice τ) : τ := slice.localStop - slice.localStart

/-- The part of a clip inside a window, if it has any length. -/
def ofClip? (clip : Clip τ) (media : MediaFile) (window : Window τ) : Option (Slice τ) :=
  if window.meets clip then
    let localStart := Scalar.maxOf Scalar.zero (clip.start - window.start)
    let localStop := Scalar.minOf window.duration (clip.stop - window.start)
    if localStop ≤ localStart then none
    else
      let sourceIn := clip.mediaIn + Scalar.maxOf Scalar.zero (window.start - clip.start)
      some {
        clip, media, localStart, localStop, sourceIn
        sourceOut := sourceIn + (localStop - localStart) }
  else none

/-- The pad of the input that a slice reads, its picture or its sound. -/
def pad (slice : Slice τ) (stream : String) : String :=
  toString slice.inputIndex ++ ":" ++ stream

/-- The slice of one clip. Its media item is looked up, and becomes an input, only when the
clip is enabled and meets the window. -/
def gatherClip (access : MediaAccess) (window : Window τ) (skipImages : Bool)
    (track : Track τ) (clip : Clip τ) (gathered : Gathered) :
    Option (Slice τ) × Gathered :=
  if !clip.enabled || !window.meets clip then (none, gathered)
  else
    match access.media.find? clip.mediaId with
    | none => (none, gathered.complain ("Media not found for clip: " ++ clip.label))
    | some item =>
      if skipImages && item.type = .image then (none, gathered)
      else
        match ofClip? clip item window with
        -- A clip without length meets the window, but there is nothing of it to see.
        | none => (none, gathered)
        | some slice =>
          let (index, gathered) := gathered.inputFor access item
          (some { slice with inputIndex := index, volume := track.volume }, gathered)

/-- The slices of clips in order. -/
def gatherClips (access : MediaAccess) (window : Window τ) (skipImages : Bool) :
    List (Track τ × Clip τ) → Gathered → List (Slice τ) × Gathered
  | [], gathered => ([], gathered)
  | (track, clip) :: rest, gathered =>
    let (slice?, gathered) := gatherClip access window skipImages track clip gathered
    let (slices, gathered) := gatherClips access window skipImages rest gathered
    (slice?.toList ++ slices, gathered)

/-- The slices of all clips of some tracks. -/
def gather (access : MediaAccess) (window : Window τ) (skipImages : Bool)
    (tracks : List (Track τ)) (gathered : Gathered) : List (Slice τ) × Gathered :=
  gatherClips access window skipImages
    (tracks.flatMap fun track => track.clips.map fun clip => (track, clip)) gathered

end Slice

/-! ### Filters of slices -/

/-- A source of one color. -/
def colorSource (settings : OutputFormat τ) (duration : τ) (color : String) : Filter τ :=
  .withOptions "color" [
    ("c", .text color),
    ("s", .text (toString settings.width ++ "x" ++ toString settings.height)),
    ("r", .number settings.frameRate.value),
    ("d", .number duration)]

namespace Slice

/-- The stretch of source that a slice plays; an image stands still for its length. -/
def trimFilters (slice : Slice τ) : List (Filter τ) :=
  if slice.media.type = .image then
    [.withOptions "loop" [("loop", .int (-1)), ("size", .int 1)],
      .withValues "trim" [.int 0, .number slice.duration]]
  else
    [.withOptions "trim" [("start", .number slice.sourceIn), ("end", .number slice.sourceOut)]]

/-- Scaled to fit inside the output, then centered on it. -/
def fitFilters (settings : OutputFormat τ) : List (Filter τ) :=
  let size := [.int settings.width, .int settings.height]
  [{ name := "scale", positional := size,
     options := [("force_original_aspect_ratio", .text "decrease")] },
    .withValues "pad" (size ++
      [.text "(ow-iw)/2", .text "(oh-ih)/2", .text settings.background])]

/-- Time stamps that start at `offset`, or at zero. -/
def timeStamps (offset : τ) : FilterValue τ :=
  if offset ≤ Scalar.zero then .text "PTS-STARTPTS" else .shift offset

/-- The picture of a slice, its first frame at `offset`. -/
def videoFilters (slice : Slice τ) (settings : OutputFormat τ) (offset : τ) :
    List (Filter τ) :=
  slice.trimFilters ++ [.withValues "setpts" [timeStamps offset]] ++ fitFilters settings ++
    [.withValues "fps" [.number settings.frameRate.value],
      .withValues "format" [.text "yuva420p"]]

/-- The sound of a slice; a volume of one is not written. -/
def audioFilters (slice : Slice τ) (settings : OutputFormat τ) : List (Filter τ) :=
  [.withOptions "atrim" [("start", .number slice.sourceIn), ("end", .number slice.sourceOut)],
    .withValues "asetpts" [.text "PTS-STARTPTS"],
    .withValues "aresample" [.int settings.sampleRate],
    .withOptions "aformat" [("channel_layouts", .text "stereo")]] ++
  (if slice.volume == Scalar.whole 1 then []
   else [.withValues "volume" [.number slice.volume]])

end Slice

/-- Silence of some length. -/
def silenceFilters (settings : OutputFormat τ) (duration : τ) : List (Filter τ) :=
  [.withOptions "anullsrc" [("r", .int settings.sampleRate), ("cl", .text "stereo")],
    .withValues "atrim" [.int 0, .number duration]]

end Montage
