import Montage.Chunk.Partition

/-!
Segments that a plain decoder cannot play: clips lie over each other, have effects, or change
their speed. Overlaps are looked for at eleven times of a segment.
-/

namespace Montage

inductive Complication where
  | multipleClips
  | hasEffects
  | speedChange
  deriving DecidableEq, Repr

def Complication.name : Complication → String
  | .multipleClips => "multiple_clips"
  | .hasEffects => "has_effects"
  | .speedChange => "speed_change"

/-- A segment and the reasons for which it is complex. -/
structure Segment (τ : Type) where
  start : τ
  stop : τ
  reasons : List Complication

def Segment.isComplex {τ : Type} (segment : Segment τ) : Bool :=
  !segment.reasons.isEmpty

namespace Timeline

variable {τ : Type} [Scalar τ]

/-- The enabled clips of the visible video tracks that meet a stretch of time, the topmost
first. -/
def videoClipsIn (timeline : Timeline τ) (start stop : τ) : List (Clip τ) :=
  timeline.layersFromTop.flatMap fun track => track.clips.filter fun clip =>
    clip.enabled && clip.start < stop && start < clip.stop

/-- The number of equal steps between the times at which overlaps are looked for. -/
def sampleSteps : Nat := 10

/-- The times at which overlaps are looked for, both ends among them. -/
def sampleTimes (start stop : τ) : List τ :=
  (List.range (sampleSteps + 1)).map fun i =>
    start + (stop - start) * Scalar.whole i / Scalar.whole sampleSteps

/-- Whether more than one of some clips is shown at a time. -/
def crowdedAt (clips : List (Clip τ)) (t : τ) : Bool := 1 < (clips.filter (·.coversTime t)).length

/-- The reasons for which a segment is complex. -/
def segment (timeline : Timeline τ) (start stop : τ) : Segment τ :=
  let clips := timeline.videoClipsIn start stop
  let reasons :=
    if clips.isEmpty then []
    else
      (if (sampleTimes start stop).any (crowdedAt clips) then [.multipleClips] else []) ++
      (if clips.any (·.hasEnabledEffect) then [.hasEffects] else []) ++
      (if clips.any (·.changesSpeed) then [.speedChange] else [])
  { start, stop, reasons }

/-- The complexity of every window of a partition. -/
def complexity (timeline : Timeline τ) (duration chunkDuration : τ) :
    Except NumberError (List (Segment τ)) := do
  return (← partition duration chunkDuration).map fun window =>
    timeline.segment window.start window.stop

/-- Whether what is shown at a time is complex. -/
def isComplexAt (timeline : Timeline τ) (t : τ) : Bool :=
  let active := (timeline.videoClipsIn t (t + Scalar.ofDecimal 1 6)).filter (·.coversTime t)
  1 < active.length || active.any fun clip => clip.changesSpeed || clip.hasEnabledEffect

/-- The topmost enabled clip at a time. -/
def clipAt? (timeline : Timeline τ) (t : τ) : Option (Clip τ) :=
  (timeline.layersFromTop.flatMap (·.clips)).find? fun clip => clip.enabled && clip.coversTime t

end Timeline

end Montage
