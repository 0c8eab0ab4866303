import Montage.Chunk.Cache
import Montage.Proofs.Files.Folder
import Montage.Proofs.Text.Digits

/-!
# Names of rendered chunks

The file of a chunk is named for the place of the chunk and for the hash of what it shows. The name is
one that the cache takes for that of a rendered chunk, and it tells the place.

## Main definitions

* `Cache.chunkName` — the name of the file of a chunk

## Main results

* `Cache.isChunkFile_chunkName` — the cache knows such a name
* `Cache.index_eq_of_chunkName` — chunks at different places have different names
-/

namespace Montage

namespace CacheAction

theorem unlike_up : isChunkFile ".." = false := rfl

theorem unlike_manifest : isChunkFile "manifest.json" = false := rfl

theorem unlike_draft : isChunkFile "manifest.json.tmp" = false := rfl

theorem ne_of_unlike {name other : String} (chunk : isChunkFile name = true)
    (unlike : isChunkFile other = false) : name ≠ other := by
  rintro rfl
  exact absurd (chunk.symm.trans unlike) (by simp)

end CacheAction

namespace Cache

/-- The name of the file of a chunk that shows what a hash says. -/
def chunkName (index : Nat) (contentHash : String) : String :=
  "chunk-" ++ toString (index : Int) ++ "-" ++ String.ofList (contentHash.toList.take 8) ++ ".mp4"

theorem outputPath_eq {τ : Type} (cache : Cache τ) (index : Nat) (contentHash : String) :
    cache.outputPath index contentHash = cache.folder.join (chunkName index contentHash) := rfl

variable {index : Nat} {contentHash : String}

theorem toList_chunkName : (chunkName index contentHash).toList =
    "chunk-".toList ++ (Nat.toDigits 10 index ++ '-' :: (contentHash.toList.take 8 ++
      ".mp4".toList)) := by
  have digits : (toString (index : Int)).toList = Nat.toDigits 10 index := Text.toList_toString index
  simp only [chunkName, String.toList_append, digits, String.toList_ofList, List.append_assoc]
  rfl

theorem isChunkFile_chunkName : CacheAction.isChunkFile (chunkName index contentHash) = true := by
  have front : "chunk-".toList <+: (chunkName index contentHash).toList :=
    ⟨_, toList_chunkName.symm⟩
  have back : ".mp4".toList <:+ (chunkName index contentHash).toList :=
    ⟨"chunk-".toList ++ (Nat.toDigits 10 index ++ '-' :: contentHash.toList.take 8), by
      rw [toList_chunkName]
      simp⟩
  have long : 10 ≤ (chunkName index contentHash).length := by
    rw [← String.length_toList, toList_chunkName]
    simp
    omega
  unfold CacheAction.isChunkFile
  rw [List.isPrefixOf_iff_prefix.mpr front, List.isSuffixOf_iff_suffix.mpr back]
  simpa using long

/-- The name of the file of a chunk is one that a path can have. -/
theorem plain_chunkName (plain : ∀ c ∈ contentHash.toList, c ≠ '/') :
    Path.Plain (chunkName index contentHash) where
  nonempty empty := absurd isChunkFile_chunkName (by rw [empty]; decide)
  not_here here := absurd isChunkFile_chunkName (by rw [here]; decide)
  no_slash c hc := by
    rw [toList_chunkName] at hc
    simp only [List.mem_append, List.mem_cons] at hc
    rcases hc with hc | hc | rfl | hc | hc
    · exact (by simp : ∀ c ∈ "chunk-".toList, c ≠ '/') c hc
    · have digit := Text.numeric_toDigits index c hc
      rintro rfl
      exact absurd digit (by decide)
    · decide
    · exact plain c (List.mem_of_mem_take hc)
    · exact (by simp : ∀ c ∈ ".mp4".toList, c ≠ '/') c hc

theorem chunkName_ne {name : String} (other : CacheAction.isChunkFile name = false) :
    chunkName index contentHash ≠ name :=
  CacheAction.ne_of_unlike isChunkFile_chunkName other

theorem chunkName_ne_manifest : chunkName index contentHash ≠ "manifest.json" :=
  chunkName_ne CacheAction.unlike_manifest

/-- A name tells the place of its chunk: the first hyphen behind the front stands where the number of
the place ends. -/
theorem index_eq_of_chunkName {other : Nat} {otherHash : String}
    (same : chunkName index contentHash = chunkName other otherHash) : index = other := by
  have letters := congrArg String.toList same
  rw [toList_chunkName, toList_chunkName] at letters
  have numbers := List.append_cancel_left letters
  have front := congrArg (List.takeWhile (·.isDigit)) numbers
  have stops (rest : List Char) : ('-' :: rest).takeWhile (·.isDigit) = [] :=
    List.takeWhile_cons_of_neg (by decide)
  rw [List.takeWhile_append_of_pos (Text.numeric_toDigits index), stops,
    List.takeWhile_append_of_pos (Text.numeric_toDigits other), stops, List.append_nil,
    List.append_nil] at front
  rw [← Text.ofDigits_toDigits index, front, Text.ofDigits_toDigits]

end Cache

end Montage
