import Montage.Chunk.Cache
import Montage.Proofs.Lists

/-!
# What becomes of chunks that are not rendered

Invalidating chunks, removing their files and forgetting what was rendered never make a chunk more
valid than it was: `Demoted` says so of one chunk. A cache that is cut anew consists of chunks that
were demoted at most, each at its own place, and of new ones; `Recut` says so of a cache.
-/

namespace Montage

variable {τ : Type}

namespace Chunk

/-- The same chunk, at its place and with its window, after none or some invalidations. -/
structure Follows (before after : Chunk τ) : Prop where
  serial : after.serial = before.serial
  index : after.index = before.index
  start : after.start = before.start
  stop : after.stop = before.stop
  generation : before.generation ≤ after.generation
  renderGeneration : after.renderGeneration = before.renderGeneration

/-- How a chunk may change without being rendered: what is known of its last render stays, and only
a chunk that does not render may lose its status. -/
structure Demoted (before after : Chunk τ) : Prop extends Follows before after where
  status : after.status = before.status ∨
    before.status ≠ .rendering ∧ after.status.needsRender = true
  contentHash : after.status = .valid → after.contentHash = before.contentHash
  failedHash : after.failedHash = before.failedHash

/-- Nothing that is rendered, or being rendered, for the chunk is valid any more. -/
structure Outdated (before after : Chunk τ) : Prop where
  status : after.status ≠ .valid
  generation : before.status = .rendering → before.generation < after.generation

/-- A chunk that may have been found on disk. -/
structure Restored (before after : Chunk τ) : Prop extends Follows before after where
  status : after.status = before.status ∨ after.status = .valid

/-- The end of a render: the chunk is no longer being rendered, and it is valid only if it was not
invalidated meanwhile. -/
structure Concluded (before after : Chunk τ) : Prop where
  serial : after.serial = before.serial
  index : after.index = before.index
  start : after.start = before.start
  stop : after.stop = before.stop
  generation : after.generation = before.generation
  renderGeneration : after.renderGeneration = none ∨
    after.renderGeneration = before.renderGeneration
  busy : before.status = .rendering
  status : after.status ≠ .rendering
  fresh : after.status = .valid → before.renderGeneration = some before.generation

section

variable {a b c : Chunk τ}

protected theorem Follows.refl (chunk : Chunk τ) : chunk.Follows chunk :=
  ⟨rfl, rfl, rfl, rfl, Nat.le_refl _, rfl⟩

protected theorem Follows.trans (h : a.Follows b) (h' : b.Follows c) : a.Follows c where
  serial := h'.serial.trans h.serial
  index := h'.index.trans h.index
  start := h'.start.trans h.start
  stop := h'.stop.trans h.stop
  generation := Nat.le_trans h.generation h'.generation
  renderGeneration := h'.renderGeneration.trans h.renderGeneration

protected theorem Follows.window (h : a.Follows b) : b.window = a.window := by
  rw [window, window, h.start, h.stop]

end

namespace Demoted

variable {a b c : Chunk τ}

protected theorem refl (chunk : Chunk τ) : chunk.Demoted chunk :=
  ⟨.refl chunk, .inl rfl, fun _ => rfl, rfl⟩

/-- A demotion leads to a status that asks for a render, or nowhere. -/
theorem status_eq (h : a.Demoted b) (hb : b.status.needsRender = false) : b.status = a.status := by
  rcases h.status with same | ⟨-, needs⟩
  · exact same
  · simp [hb] at needs

theorem rendering_iff (h : a.Demoted b) : b.status = .rendering ↔ a.status = .rendering := by
  rcases h.status with same | ⟨busy, needs⟩
  · rw [same]
  · refine iff_of_false (fun hb => ?_) busy
    simp [hb, ChunkState.needsRender] at needs

protected theorem trans (h : a.Demoted b) (h' : b.Demoted c) : a.Demoted c where
  toFollows := h.toFollows.trans h'.toFollows
  status := by
    rcases h'.status with same | ⟨busy, needs⟩
    · rw [same]; exact h.status
    · exact .inr ⟨fun ha => busy (h.rendering_iff.mpr ha), needs⟩
  contentHash hc := by
    have hb : b.status = .valid := by
      rw [← hc]
      exact (h'.status_eq (by rw [hc]; rfl)).symm
    rw [h'.contentHash hc, h.contentHash hb]
  failedHash := h'.failedHash.trans h.failedHash

end Demoted

end Chunk

namespace Cache

open Chunk

variable {meets : Chunk τ → Bool} {files : FileTree}

/-- A chunk loses nothing but its file. -/
theorem dropOutput_eq {chunk dropped : Chunk τ} {files' : FileTree}
    (h : dropOutput chunk files = .ok (dropped, files')) :
    dropped = { chunk with outputPath := dropped.outputPath } := by
  unfold dropOutput at h
  split at h
  · obtain ⟨rfl, -⟩ := Prod.mk.inj (Except.ok.inj h)
    rfl
  · next path _ =>
    cases hremove : files.remove (Path.ofText path).text with
    | error cause => rw [hremove] at h; exact absurd h (by simp [bind, Except.bind])
    | ok rest =>
      rw [hremove] at h
      obtain ⟨rfl, -⟩ := Prod.mk.inj (Except.ok.inj h)
      rfl

theorem dropOutput_demoted {chunk dropped : Chunk τ} {files' : FileTree}
    (h : dropOutput chunk files = .ok (dropped, files')) : chunk.Demoted dropped := by
  rw [dropOutput_eq h]
  exact ⟨⟨rfl, rfl, rfl, rfl, Nat.le_refl _, rfl⟩, .inl rfl, fun _ => rfl, rfl⟩

/-- An invalidation demotes chunks, each at its place. One that reaches its end leaves nothing valid
in the chunks that it is about. -/
theorem invalidateWhere_demoted (meets : Chunk τ → Bool) (chunks : List (Chunk τ)) (files : FileTree) :
    List.Forall₂ (fun before after => before.Demoted after ∧
        ((invalidateWhere meets chunks files).failure = none → meets before = true →
          before.Outdated after))
      chunks (invalidateWhere meets chunks files).chunks := by
  fun_induction invalidateWhere meets chunks files with
  | case1 => exact .nil
  | case2 chunk rest files spared ih =>
    exact .cons ⟨.refl _, fun _ hit => by simp [hit] at spared⟩ ih
  | case3 chunk rest files hit valid stale dropped files' hdrop ih =>
    have toStale : chunk.Demoted stale :=
      ⟨⟨rfl, rfl, rfl, rfl, Nat.le_succ _, rfl⟩, .inr ⟨by simp [valid], rfl⟩, by simp [stale], rfl⟩
    have status : dropped.status = .stale := by rw [dropOutput_eq hdrop]
    exact .cons ⟨toStale.trans (dropOutput_demoted hdrop),
      fun _ _ => ⟨by simp [status], by simp [valid]⟩⟩ ih
  | case4 chunk rest files hit valid stale cause hdrop =>
    -- The chunk is stale from here on, although its file is still there.
    refine .cons ⟨?_, fun ends => absurd ends (by simp)⟩
      (List.forall₂_same.mpr fun chunk _ => ⟨.refl chunk, fun ends => absurd ends (by simp)⟩)
    exact ⟨⟨rfl, rfl, rfl, rfl, Nat.le_succ _, rfl⟩, .inr ⟨by simp [valid], rfl⟩, by simp [stale], rfl⟩
  | case5 chunk rest files hit busy ih =>
    refine .cons ⟨⟨⟨rfl, rfl, rfl, rfl, Nat.le_succ _, rfl⟩, .inl rfl, fun _ => rfl, rfl⟩, ?_⟩ ih
    exact fun _ _ => ⟨by simp [busy], fun _ => Nat.lt_succ_self _⟩
  | case6 chunk rest files hit idle busy ih =>
    exact .cons ⟨.refl _, fun _ _ => ⟨idle, fun h => absurd h busy⟩⟩ ih

/-- Removing files demotes chunks, each at its place. -/
theorem dropWhere_demoted (meets : Chunk τ → Bool) (chunks : List (Chunk τ)) (files : FileTree) :
    List.Forall₂ Demoted chunks (dropWhere meets chunks files).chunks := by
  fun_induction dropWhere meets chunks files with
  | case1 => exact .nil
  | case2 chunk rest files spared ih => exact .cons (.refl _) ih
  | case3 chunk rest files hit dropped files' hdrop ih =>
    exact .cons (dropOutput_demoted hdrop) ih
  | case4 chunk rest files hit cause hdrop =>
    exact .cons (.refl _) (List.forall₂_same.mpr fun chunk _ => .refl chunk)

/-- A render that was not invalidated meanwhile is valid when it is done. -/
theorem endRender_concluded {chunk : Chunk τ} (busy : chunk.status = .rendering)
    (outputPath : String) (contentHash : Option String) (isComplex : Option Bool) :
    chunk.Concluded (endRender chunk outputPath contentHash isComplex) := by
  refine ⟨rfl, rfl, rfl, rfl, rfl, .inr rfl, busy, ?_, fun valid => ?_⟩
  · unfold endRender
    dsimp only
    split <;> simp
  · unfold endRender at valid
    dsimp only at valid
    split at valid
    · assumption
    · simp at valid

theorem reset_demoted (chunk : Chunk τ) : chunk.Demoted (reset chunk) := by
  unfold reset
  split
  · exact ⟨⟨rfl, rfl, rfl, rfl, Nat.le_succ _, rfl⟩, .inl rfl, fun _ => rfl, rfl⟩
  · next idle =>
    exact ⟨⟨rfl, rfl, rfl, rfl, Nat.le_refl _, rfl⟩, .inr ⟨idle, rfl⟩, by simp, rfl⟩

end Cache

/-- A manifest makes chunks valid at most. -/
theorem CacheAction.restore_restored {folder : Path} {files : FileTree}
    {entries : List ManifestEntry} {first chunks restored : List (Chunk τ)}
    (earlier : List.Forall₂ Chunk.Restored first chunks)
    (h : restore folder files chunks entries = .ok restored) :
    List.Forall₂ Chunk.Restored first restored := by
  induction entries generalizing chunks with
  | nil =>
    obtain rfl := Except.ok.inj h
    exact earlier
  | cons entry rest ih =>
    unfold restore at h
    split at h
    · cases hfile : files.checkExists (folder.join entry.fileName).text with
      | error cause => simp [hfile, bind, Except.bind] at h
      | ok there =>
        cases there with
        | false => exact ih earlier (by simpa [hfile, bind, Except.bind] using h)
        | true =>
          refine ih (List.forall₂_map_right_iff.mpr (earlier.imp fun a b earlier => ?_))
            (by simpa [hfile, bind, Except.bind, pure, Except.pure] using h)
          split
          · exact ⟨⟨earlier.serial, earlier.index, earlier.start, earlier.stop,
              earlier.generation, earlier.renderGeneration⟩, .inr rfl⟩
          · exact earlier
    · exact ih earlier h

end Montage
