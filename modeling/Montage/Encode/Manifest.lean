import Montage.Chunk.Manifest
import Montage.Json.Writer
import Montage.Preview.Report

/-!
Manifests and reports on previews as JSON values, and the text of a manifest on disk.
-/

namespace Montage

namespace Encode

variable {τ : Type}

def manifestEntry (entry : ManifestEntry) : Json τ := .object [
  ("index", .int entry.index),
  ("content_hash", .text entry.contentHash),
  ("file_name", .text entry.fileName),
  ("is_complex", .bool entry.isComplex)]

/-- A manifest, given the text of a moment. -/
def manifest (moment : Timestamp → String) (manifest : Manifest τ) : Json τ := .object [
  ("version", .int manifest.version),
  ("project_hash", .text manifest.projectHash),
  ("project_mtime", .ofReal? manifest.projectTime),
  ("chunk_duration", .real manifest.chunkDuration),
  ("total_duration", .real manifest.totalDuration),
  ("resolution", .list [.int manifest.resolution.1, .int manifest.resolution.2]),
  ("frame_rate", .real manifest.frameRate),
  ("chunks", .list (manifest.entries.map manifestEntry)),
  ("created_at", .text (moment manifest.createdAt)),
  ("updated_at", .text (moment manifest.updatedAt))]

def previewReport (report : PreviewReport τ) : Json τ := .object [
  ("phase", .text report.phase.name),
  ("overall_percent", .real report.overall),
  ("phase_percent", .real report.ofPhase),
  ("current_task", .text report.task)]

end Encode

namespace Manifest

variable {τ : Type} [Scalar τ]

/-- The way in which the numbers of a manifest are written: with an exponent below `10 ^ -5` and
from `10 ^ 16` on. -/
def numberLayout : DoubleLayout where
  pointAbove := -5
  pointAtMost := 16
  exponentDigits := 1
  plusSign := false
  nan := "null"
  infinity := "null"

/-- A number of a manifest; one that is not finite is left open. -/
def numberText (x : τ) : String :=
  match Scalar.value x with
  | .ok _ => Scalar.write numberLayout x
  | .error _ => "null"

/-- The text of a manifest. -/
def text (manifest : Manifest τ) : String :=
  (Encode.manifest Timestamp.shortText manifest).indented numberText 0

end Manifest

end Montage
