import Montage.Chunk.Cache

/-!
Chunks and what a cache holds as JSON values.
-/

namespace Montage.Encode

def chunk (chunk : Chunk Double) : Json Double := .object [
  ("index", .int chunk.index), ("start", .real chunk.start), ("end", .real chunk.stop),
  ("status", .text chunk.status.name), ("content_hash", Json.ofText? chunk.contentHash),
  ("output_path", Json.ofText? chunk.outputPath), ("error", Json.ofText? chunk.error),
  ("is_complex", .bool chunk.isComplex), ("generation", .int chunk.generation),
  ("render_generation", Json.ofInt? (chunk.renderGeneration.map Int.ofNat)),
  ("failed_hash", Json.ofText? chunk.failedHash)]

/-- A chunk as a row. -/
def chunkRow (chunk : Chunk Double) : Json Double := .list [
  .int chunk.index, .real chunk.start, .real chunk.stop, .text chunk.status.name,
  .int chunk.generation,
  Json.ofText? (chunk.contentHash.map fun hash => String.ofList (hash.toList.take 8)),
  Json.ofText? chunk.outputPath, Json.ofText? chunk.error, .bool chunk.isComplex]

def indices (indices : List Nat) : Json Double := .list (indices.map fun i => .int (Int.ofNat i))

def cacheStats (cache : Cache Double) (files : FileTree) : List (String × Json Double) := [
  ("total_chunks", .int cache.chunks.length),
  ("cached_chunks", .int (cache.count .valid)),
  ("by_status", .object (ChunkState.all.map fun status =>
    (status.name, .int (cache.count status)))),
  ("total_size", .int (cache.totalSize files))]

end Montage.Encode
