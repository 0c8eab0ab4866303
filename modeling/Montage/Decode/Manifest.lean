import Montage.Chunk.Manifest
import Montage.Decode.Basic
import Montage.Json.Reader
import Montage.Preview.Report

/-!
Decoders of manifests and of reports on previews.
-/

namespace Montage

namespace Decode

/-- A whole number that is not negative. -/
def count : Decoder Nat := fun value =>
  (integer value).andThen fun n => if 0 ≤ n then .ok n.toNat else .fail .atLeast

def manifestEntry : Decoder ManifestEntry := record fun fields =>
  ManifestEntry.mk <$> required fields "index" count
    <*> required fields "content_hash" text
    <*> required fields "file_name" text
    <*> withDefault fields "is_complex" false flag

/-- A manifest; times that are left out are those of the moment `now`. -/
def manifest (now : Timestamp) : Decoder (Manifest Double) := record fun fields =>
  Manifest.mk <$> withDefault fields "version" Manifest.currentVersion integer
    <*> required fields "project_hash" text
    <*> withDefault fields "project_mtime" none (optional number)
    <*> required fields "chunk_duration" number
    <*> required fields "total_duration" number
    <*> required fields "resolution" (pair integer)
    <*> required fields "frame_rate" number
    <*> withDefault fields "chunks" [] (list manifestEntry)
    <*> withDefault fields "created_at" now moment
    <*> withDefault fields "updated_at" now moment

def previewReport : Decoder (PreviewReport Double) := record fun fields =>
  PreviewReport.mk <$> required fields "phase" (literal [("proxy", .proxy), ("render", .render)])
    <*> required fields "overall_percent" percent
    <*> required fields "phase_percent" percent
    <*> withDefault fields "current_task" "" text

end Decode

namespace Manifest

/-- What manifests may hold at the edges of JSON. -/
def dialect : Json.Dialect where
  loneSurrogates := false
  maxDepth := 200

variable {τ : Type} [Scalar τ]

/-- The manifest that a text holds, if it holds one. -/
def read? (now : Timestamp) (text : String) : Option (Manifest τ) :=
  match Json.read dialect text with
  | .error _ => none
  | .ok value =>
    match Decode.manifest now value with
    | .problems _ => none
    | .ok manifest => ofDoubles? manifest

end Manifest

end Montage
