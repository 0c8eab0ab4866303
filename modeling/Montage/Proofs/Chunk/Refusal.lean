import Montage.Proofs.Chunk.Action

/-!
# When a chunk may not move

A chunk moves from one status to another only where the table of moves allows it, and an action that
would move it elsewhere is refused. A render may begin from every status, so its begin is never
refused; its end is refused only if the chunk is not being rendered. Whatever else goes wrong on the
way concerns files.
-/

namespace Montage

/-- The failure of moving a chunk to a status that it may not have. -/
def Failure.IsRefusal (failure : Failure) : Prop :=
  ∃ index source target, failure = .render (.chunkTransition index source target)

theorem Failure.not_isRefusal_file (cause : FileError) : ¬(Failure.file cause).IsRefusal := by
  rintro ⟨_, _, _, same⟩
  exact absurd same (by simp)

variable {τ : Type}

theorem ChunkState.allows_rendering (status : ChunkState) : status.allows .rendering = true := by
  cases status <;> rfl

/-- All that can be wrong with a place is that no chunk stands there. -/
theorem Cache.get_eq_error {cache : Cache τ} {index : Int} {cause : RenderFailure}
    (h : cache.get index = .error cause) : cause = .chunkNotFound (some index) := by
  unfold get at h
  generalize (if index < 0 then none else cache.chunks[index.toNat]?) = found at h
  cases found with
  | some chunk => exact absurd h (by simp)
  | none => exact (Except.error.inj h).symm

namespace CacheAction

variable {state : CacheState τ} {index : Int}

/-- Where there is a chunk, its render can begin. -/
theorem startRender_returns {chunk : Chunk τ} (found : state.cache.get index = .ok chunk) :
    Ensures (startRender index) state
      (fun begun next => begun = Cache.beginRender chunk ∧
        next = { state with cache := state.cache.put begun })
      (fun _ => False) := by
  unfold startRender
  rw [ensures_bind, ensures_chunkAt, found]
  dsimp only
  rw [if_neg (by simp [ChunkState.allows_rendering])]
  exact ⟨rfl, rfl⟩

theorem dropStale_refuses_nothing (chunk : Chunk τ) (state : CacheState τ) :
    FailsOnly (dropStale chunk) state fun failure => ¬failure.IsRefusal := by
  unfold dropStale
  split
  · trivial
  · refine FailsOnly.bind ?_ fun files middle => ?_
    · trivial
    split
    · trivial
    · exact Failure.not_isRefusal_file _

/-- What is done with the chunk at a place is refused only if it is there. -/
theorem refuses_nothing_of_chunkAt {α : Type} {next : Chunk τ → CacheAction τ α}
    (found : ∀ chunk, state.cache.get index = .ok chunk →
      FailsOnly (next chunk) state fun failure => ¬failure.IsRefusal) :
    FailsOnly (chunkAt index >>= next) state fun failure => ¬failure.IsRefusal := by
  refine failsOnly_bind.mpr ⟨?_, ?_⟩
  · unfold chunkAt
    refine FailsOnly.bind ?_ fun cache _ => ?_
    · trivial
    cases hget : cache.get index with
    | ok chunk => trivial
    | error cause =>
      rintro ⟨_, _, _, same⟩
      rw [Cache.get_eq_error hget] at same
      exact absurd same (by simp)
  · rw [ensures_chunkAt]
    cases hget : state.cache.get index with
    | ok chunk => exact found chunk hget
    | error cause => trivial

/-- A change of the files that cannot be made is told, and is no failure by itself. -/
theorem onFiles_failsOnly (change : FileTree → Except FileError FileTree) (state : CacheState τ)
    {ways : Failure → Prop} : FailsOnly (onFiles change) state ways := by
  unfold onFiles
  refine FailsOnly.bind ?_ fun files _ => ?_
  · trivial
  cases change files <;> trivial

variable [Scalar τ]

/-- What can go wrong with a manifest is that it cannot be written. -/
theorem save_failsOnly (state : CacheState τ) :
    FailsOnly save state fun failure => ∃ told, failure = .render (.manifest told) := by
  unfold save
  refine FailsOnly.bind ?_ fun cache middle => ?_
  · trivial
  refine FailsOnly.bind ?_ fun disk middle => ?_
  · trivial
  refine FailsOnly.bind (FailsOnly.forIn (fun step _ state => ?_) _ _ _) fun _ _ => trivial
  refine (onFiles_failsOnly step state).bind fun result middle => ?_
  cases result with
  | ok _ => trivial
  | error cause =>
    refine FailsOnly.bind ?_ fun _ _ => trivial
    exact ⟨_, rfl⟩

theorem save_refuses_nothing (state : CacheState τ) :
    FailsOnly save state fun failure => ¬failure.IsRefusal := by
  refine (save_failsOnly state).mono ?_
  rintro _ ⟨told, rfl⟩ ⟨_, _, _, same⟩
  exact absurd same (by simp)

section Busy

variable (busy : ∀ chunk, state.cache.get index = .ok chunk → chunk.status = .rendering)

include busy

/-- A chunk that is being rendered takes what was rendered. -/
theorem finishRender_refuses_nothing (path : String) (contentHash : Option String)
    (isComplex : Option Bool) :
    FailsOnly (finishRender index path contentHash isComplex) state
      fun failure => ¬failure.IsRefusal := by
  unfold finishRender
  apply refuses_nothing_of_chunkAt
  intro chunk found
  rw [if_neg (not_not.mpr (busy chunk found))]
  refine FailsOnly.bind ?_ fun _ _ => ?_
  · trivial
  apply (dropStale_refuses_nothing _ _).bind
  intro dropped _
  refine FailsOnly.bind ?_ fun _ _ => ?_
  · trivial
  exact (save_refuses_nothing _).bind fun _ _ => trivial

/-- A chunk that is being rendered takes that its render failed. -/
theorem failRender_refuses_nothing (message : String) (contentHash : Option String) :
    FailsOnly (failRender index message contentHash) state fun failure => ¬failure.IsRefusal := by
  unfold failRender
  apply refuses_nothing_of_chunkAt
  intro chunk found
  rw [if_neg (by simp [busy chunk found, ChunkState.allows])]
  refine FailsOnly.bind ?_ fun _ _ => ?_
  · trivial
  exact (save_refuses_nothing _).bind fun _ _ => trivial

end Busy

end CacheAction

end Montage
