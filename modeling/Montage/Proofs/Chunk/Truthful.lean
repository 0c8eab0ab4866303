import Montage.Proofs.Chunk.Disk
import Montage.Proofs.Chunk.Effect

/-!
# What valid chunks say about themselves

A valid chunk tells the hash of what it shows and whether that was complex to render. It has this from
the render that it was made by, or from the manifest, which has it from a valid chunk. So whatever was
true of every render, and of the manifest that was found at first, is true of every valid chunk.

## Main definitions

* `Chunk.Truthful` — what a chunk says of itself, if it is valid, is so
* `CacheState.Truthful` — what the chunks and the manifest say is so

## Main results

* `CacheCall.truthful` — every call keeps it so
-/

namespace Montage

variable {τ : Type} {fits : String → Bool → Prop}

/-- What a chunk says of itself, if it is valid, is so. -/
def Chunk.Truthful (fits : String → Bool → Prop) (chunk : Chunk τ) : Prop :=
  chunk.status = .valid → ∃ hash, chunk.contentHash = some hash ∧ fits hash chunk.isComplex

/-- What is said of a render as done is so. -/
def TruthfulRender (fits : String → Bool → Prop) (contentHash : Option String)
    (isComplex : Option Bool) : Prop :=
  ∃ hash flag, contentHash = some hash ∧ isComplex = some flag ∧ fits hash flag

/-- What the valid chunks of a cache and the manifest on disk say is so. -/
structure CacheState.Truthful [Scalar τ] (fits : String → Bool → Prop) (state : CacheState τ) :
    Prop where
  chunks : ∀ chunk ∈ state.cache.chunks, chunk.Truthful fits
  manifest : ∀ manifest, state.Contains manifest → ∀ entry ∈ manifest.entries,
    fits entry.contentHash entry.isComplex

/-! ### Chunks -/

namespace Chunk.Truthful

variable {chunk old : Chunk τ}

/-- A chunk that is not valid says nothing. -/
theorem of_not_valid (invalid : chunk.status ≠ .valid) : chunk.Truthful fits :=
  fun valid => absurd valid invalid

/-- What is said does not depend on the file. -/
theorem of_same (h : old.Truthful fits) (same : chunk = { old with outputPath := chunk.outputPath }) :
    chunk.Truthful fits := by
  intro valid
  rw [same] at valid ⊢
  exact h valid

/-- What an invalidation leaves valid says what it said before. -/
theorem of_partlyInvalidated {meets : Chunk τ → Bool} (h : old.Truthful fits)
    (partly : old.PartlyInvalidated meets chunk) : chunk.Truthful fits := by
  rcases partly with rfl | ⟨-, exposed, same⟩
  · exact h
  · refine of_not_valid fun valid => ?_
    rw [same] at valid
    unfold Chunk.exposed at exposed
    cases status : old.status <;> simp [Chunk.invalidated, status] at valid exposed

end Chunk.Truthful

namespace Cache

/-- An entry of a manifest says what a valid chunk says. -/
theorem fits_of_entry? {chunk : Chunk τ} {entry : ManifestEntry} (h : chunk.Truthful fits)
    (made : entry? chunk = some entry) : fits entry.contentHash entry.isComplex := by
  obtain ⟨valid, -, contentHash⟩ := entry?_eq_some made
  obtain ⟨path, hash, -, rfl⟩ := entry?_eq_some_iff.mp made
  obtain ⟨hash', same, fitting⟩ := h valid
  obtain rfl := Option.some.inj (contentHash.symm.trans same)
  exact fitting

/-- A chunk that is put into a cache is truthful if it is not valid, or says what is so. -/
theorem truthful_put {before after : Cache τ} {old new : Chunk τ} (put : after = before.put new)
    {index : Int} (found : before.get index = .ok old) (serial : new.serial = old.serial)
    (h : ∀ chunk ∈ before.chunks, chunk.Truthful fits) (hnew : new.Truthful fits) :
    ∀ chunk ∈ after.chunks, chunk.Truthful fits := by
  intro chunk hchunk
  rw [put] at hchunk
  rcases (mem_put (mem_of_get found) serial).mp hchunk with rfl | ⟨hchunk, -⟩
  · exact hnew
  · exact h chunk hchunk

end Cache

namespace CacheCall

variable [Scalar τ]

/-- What is valid after a call was valid before, was opened from a manifest, or was just rendered. -/
theorem Effect.truthful {call : CacheCall τ} {before after : Cache τ} {failure? : Option Failure}
    (effect : call.Effect before after failure?)
    (h : ∀ chunk ∈ before.chunks, chunk.Truthful fits)
    (opened : ∀ path duration time, call = .change (.openProject path duration time) →
      ∀ chunk ∈ after.chunks, chunk.Truthful fits)
    (done : ∀ index path contentHash isComplex, call = .finishRender index path contentHash isComplex →
      TruthfulRender fits contentHash isComplex) :
    ∀ chunk ∈ after.chunks, chunk.Truthful fits := by
  intro chunk hchunk
  cases effect with
  | keeps chunks => exact h chunk (chunks ▸ hchunk)
  | cuts _ chunks =>
    rw [chunks] at hchunk
    rcases Cache.mem_arrange hchunk with kept | ⟨-, missing, -⟩
    · exact h chunk kept
    · exact .of_not_valid (by simp [missing])
  | strips chunks =>
    obtain ⟨old, hold, same⟩ := forall₂_mem chunks hchunk
    exact (h old hold).of_same same
  | opens => exact opened _ _ _ rfl chunk hchunk
  | closes => exact opened _ _ _ rfl chunk hchunk
  | sweeps _ chunks =>
    rw [chunks] at hchunk
    obtain ⟨old, hold, rfl⟩ := List.mem_map.mp hchunk
    exact (h old hold).of_partlyInvalidated (Cache.partlyInvalidated_sweep _ old)
  | breaksOff _ chunks =>
    obtain ⟨old, hold, partly⟩ := forall₂_mem chunks hchunk
    exact (h old hold).of_partlyInvalidated partly
  | resets chunks =>
    rw [chunks] at hchunk
    obtain ⟨old, hold, rfl⟩ := List.mem_map.mp hchunk
    refine .of_not_valid fun valid => ?_
    unfold Cache.reset at valid
    split at valid
    · next busy => exact absurd (busy.symm.trans valid) (by decide)
    · exact absurd valid (by simp)
  | begins found put =>
    exact Cache.truthful_put put found rfl h (.of_not_valid (by simp [Cache.beginRender])) chunk hchunk
  | lands found busy current put =>
    refine Cache.truthful_put put found rfl h (fun _ => ?_) chunk hchunk
    obtain ⟨hash, flag, rfl, rfl, fitting⟩ := done _ _ _ _ rfl
    exact ⟨hash, rfl, fitting⟩
  | drops found busy outdated put =>
    refine Cache.truthful_put put found rfl h (.of_not_valid ?_) chunk hchunk
    simp [Cache.landed, Cache.endRender, outdated]
  | sticks found busy outdated put =>
    refine Cache.truthful_put put found rfl h (.of_not_valid ?_) chunk hchunk
    simp [Cache.endRender, outdated]
  | fails found busy put =>
    exact Cache.truthful_put put found rfl h (.of_not_valid (by simp [Cache.failed])) chunk hchunk

end CacheCall

/-! ### Calls -/

/-- Where files are gone and the manifest may have been saved, it says what is so if the chunks do. -/
theorem CacheState.Trims.truthful {state next : CacheState Double} (trims : state.Trims next)
    (inside : state.cache.folder.Inside) (h : state.Truthful fits)
    (chunks : ∀ chunk ∈ next.cache.chunks, chunk.Truthful fits) : next.Truthful fits where
  chunks := chunks
  manifest manifest there entry hentry := by
    rcases trims.contains inside there with before | listed
    · exact h.manifest manifest before entry hentry
    · rw [listed] at hentry
      obtain ⟨chunk, hchunk, made⟩ := List.mem_filterMap.mp hentry
      exact Cache.fits_of_entry? (chunks chunk hchunk) made

/-- Every call keeps what is said true, if what is reported as done is so. -/
theorem CacheCall.truthful {call : CacheCall Double} {state : CacheState Double}
    (own : ∀ files, call ≠ .change (.setFiles files)) (inside : state.cache.folder.Inside)
    (h : state.Truthful fits)
    (done : ∀ index path contentHash isComplex, call = .finishRender index path contentHash isComplex →
      TruthfulRender fits contentHash isComplex) :
    (leaves call.action state).Truthful fits := by
  refine (call.trims own state).truthful inside h ?_
  have effected : call.Effected state (failure? call.action state) (leaves call.action state) :=
    (call.effected state).leaves
  refine effected.effect.truthful h.chunks (fun path duration time same => ?_) done
  subst same
  -- A chunk that is restored says what the manifest says.
  exact (CacheAction.openProject_forall path duration time state
    (fun chunk missing => .of_not_valid (by simp [missing]))
    fun manifest found _ entry hentry chunk _ _ =>
      ⟨entry.contentHash, rfl,
        h.manifest manifest (CacheAction.contains_of_finds inside found) entry hentry⟩).leaves

end Montage
