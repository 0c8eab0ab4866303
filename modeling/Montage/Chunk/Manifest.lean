import Montage.OutputFormat
import Montage.Timestamp

/-!
Manifests: what a cache folder holds, and for which project, partition and output it was made.
-/

namespace Montage

/-- A rendered chunk on disk. -/
structure ManifestEntry where
  index : Nat
  contentHash : String
  fileName : String
  isComplex : Bool := false
  deriving DecidableEq, Repr

structure Manifest (τ : Type) where
  version : Int
  projectHash : String
  /-- The time at which the project was last changed, as far as it was told. -/
  projectTime : Option τ := none
  chunkDuration : τ
  totalDuration : τ
  resolution : Int × Int
  frameRate : τ
  entries : List ManifestEntry := []
  createdAt : Timestamp
  updatedAt : Timestamp
  deriving DecidableEq

namespace Manifest

/-- The version of the manifests that are written, and the only one that is reused. -/
def currentVersion : Int := 1

variable {τ : Type} [Scalar τ]

/-- The first entry of a chunk. -/
def entryFor? (manifest : Manifest τ) (index : Int) : Option ManifestEntry :=
  manifest.entries.find? fun entry => (entry.index : Int) = index

/-- A manifest with its numbers read as times. -/
def ofDoubles? (manifest : Manifest Double) : Option (Manifest τ) := do
  let projectTime ← match manifest.projectTime with
    | none => some none
    | some x => (Scalar.ofDouble? x).map some
  return {
    version := manifest.version, projectHash := manifest.projectHash, projectTime
    chunkDuration := ← Scalar.ofDouble? manifest.chunkDuration
    totalDuration := ← Scalar.ofDouble? manifest.totalDuration
    resolution := manifest.resolution
    frameRate := ← Scalar.ofDouble? manifest.frameRate
    entries := manifest.entries
    createdAt := manifest.createdAt, updatedAt := manifest.updatedAt }

end Manifest

end Montage
