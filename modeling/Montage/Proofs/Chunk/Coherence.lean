import Montage.Proofs.Chunk.Effect
import Montage.Proofs.Chunk.Partition
import Montage.Proofs.Chunk.Restore
import Montage.Proofs.Run.Progress

/-!
# Chunks that agree with themselves

A chunk renders exactly if the generation is known at which its render began, it has a path while it is
valid and none while it is missing or stale, and the windows of the chunks are those of the partition.
Every call keeps it so, unless a file cannot be removed half way through, or a project cannot be opened.
Whatever happens, each chunk stands at its place, moves only as the table of moves allows, and takes
nothing from a call that is refused.

## Main definitions

* `Chunk.Coherent` — what is known of a chunk fits its status
* `Cache.IsCut` — the windows of the chunks are those of the partition
* `Cache.IsFresh` — a cache is new
* `CacheCall.Accounts` — how a chunk may have come to its status in a call
* `CacheState.Throughout` — a condition on calls holds at each of them

## Main results

* `CacheCall.Effect.coherent`, `CacheCall.Effect.isCut`, `CacheCall.Effect.accounts` — what one call keeps
* `CacheState.after_of_throughout` — what each call keeps holds after all of them
* `CacheState.coherent_after` — what holds of the chunks after any calls
-/

namespace Montage

variable {τ : Type}

/-- Whether a failure is that of a file. -/
def Failure.isFile : Failure → Bool
  | .file _ => true
  | _ => false

/-! ### Chunks -/

/-- What is known of a chunk fits its status. -/
structure Chunk.Coherent (chunk : Chunk τ) : Prop where
  rendering : chunk.status = .rendering ↔ chunk.renderGeneration.isSome
  bare : chunk.status = .missing ∨ chunk.status = .stale → chunk.outputPath = none
  shown : chunk.status = .valid → chunk.output?.isSome

namespace Chunk.Coherent

variable {chunk : Chunk τ}

/-- A chunk that does not render, has no path and is not valid. -/
theorem of_idle (idle : chunk.status ≠ .rendering) (begun : chunk.renderGeneration = none)
    (invalid : chunk.status ≠ .valid) (bare : chunk.outputPath = none) : chunk.Coherent :=
  ⟨iff_of_false idle (by simp [begun]), fun _ => bare, fun valid => absurd valid invalid⟩

theorem of_valid (valid : chunk.status = .valid) (begun : chunk.renderGeneration = none)
    (shown : chunk.output?.isSome) : chunk.Coherent :=
  ⟨iff_of_false (by simp [valid]) (by simp [begun]), fun h => by simp [valid] at h, fun _ => shown⟩

theorem of_rendering (busy : chunk.status = .rendering) (begun : chunk.renderGeneration.isSome) :
    chunk.Coherent :=
  ⟨iff_of_true busy begun, fun h => by simp [busy] at h, fun h => by simp [busy] at h⟩

theorem of_error (failed : chunk.status = .error) (begun : chunk.renderGeneration = none) :
    chunk.Coherent :=
  ⟨iff_of_false (by simp [failed]) (by simp [begun]), fun h => by simp [failed] at h,
    fun h => by simp [failed] at h⟩

/-- A chunk that does not render has no generation at which its render began. -/
theorem idle (h : chunk.Coherent) (idle : chunk.status ≠ .rendering) : chunk.renderGeneration = none :=
  Option.not_isSome_iff_eq_none.mp fun begun => idle (h.rendering.mpr begun)

theorem invalidated (h : chunk.Coherent) : chunk.invalidated.Coherent := by
  unfold Chunk.invalidated
  cases status : chunk.status with
  | valid =>
    have some : chunk.output? ≠ none := Option.isSome_iff_ne_none.mp (h.shown status)
    refine of_idle (by simp) (h.idle (by simp [status])) (by simp) ?_
    exact if_neg some
  | rendering => exact of_rendering rfl (h.rendering.mp status)
  | missing | stale | error => exact h

theorem reset (h : chunk.Coherent) : (Cache.reset chunk).Coherent := by
  unfold Cache.reset
  split
  · next busy => exact of_rendering busy (h.rendering.mp busy)
  · next idle => exact of_idle (by simp) (h.idle idle) (by simp) rfl

theorem recovered {fresh : Chunk τ} (h : fresh.Coherent) (missing : fresh.status = .missing)
    (recovered : fresh.Recovered chunk) : chunk.Coherent := by
  rcases recovered.found with rfl | ⟨valid, shown⟩
  · exact h
  · exact of_valid valid (recovered.renderGeneration.trans (h.idle (by simp [missing]))) shown

end Chunk.Coherent

namespace Cache

/-- What holds of a new chunk in the place of an old one, and of the others, holds of all. -/
theorem forall_put {cache : Cache τ} {old new : Chunk τ} {index : Int} {holds : Chunk τ → Prop}
    (found : cache.get index = .ok old) (serial : new.serial = old.serial) (here : holds new)
    (each : ∀ chunk ∈ cache.chunks, holds chunk) : ∀ chunk ∈ (cache.put new).chunks, holds chunk := by
  intro chunk h
  rcases (mem_put (mem_of_get found) serial).mp h with rfl | ⟨before, -⟩
  · exact here
  · exact each chunk before

/-- A new chunk stands in the place of an old one, and the others stand in their own. -/
theorem Orderly.forall₂_put {cache : Cache τ} (orderly : cache.Orderly) {old new : Chunk τ} {index : Int}
    {R : Chunk τ → Chunk τ → Prop} (found : cache.get index = .ok old) (serial : new.serial = old.serial)
    (here : R old new) (same : ∀ chunk, R chunk chunk) :
    List.Forall₂ R cache.chunks (cache.put new).chunks := by
  rw [Cache.put, List.forall₂_map_right_iff, List.forall₂_same]
  intro chunk h
  split
  · next known => rwa [orderly.eq_of_serial h (mem_of_get found) (known.trans serial)]
  · exact same chunk

theorem endRender_status (chunk : Chunk τ) (path : String) (contentHash : Option String)
    (isComplex : Option Bool) : (endRender chunk path contentHash isComplex).status ≠ .missing := by
  unfold endRender
  dsimp only
  split <;> decide

variable [Scalar τ]

/-- The windows of the chunks are those of the partition. -/
def IsCut (cache : Cache τ) : Prop :=
  partition cache.totalDuration cache.chunkDuration = .ok (cache.chunks.map Chunk.window)

/-- What holds of the chunks of a cache and of new ones holds of the chunks of a new cut. -/
theorem arrange_forall {holds : Chunk τ → Prop}
    (fresh : ∀ serial index start stop, holds { serial, index, start, stop }) {serial index : Nat}
    {old : List (Chunk τ)} {windows : List (Window τ)} (each : ∀ chunk ∈ old, holds chunk) :
    ∀ chunk ∈ arrange serial index old windows, holds chunk := by
  fun_induction arrange serial index old windows with
  | case1 => exact fun _ h => absurd h List.not_mem_nil
  | case2 serial index window rest ih => exact List.forall_mem_cons.mpr ⟨fresh .., ih each⟩
  | case3 serial index chunk old window rest same ih =>
    obtain ⟨here, behind⟩ := List.forall_mem_cons.mp each
    exact List.forall_mem_cons.mpr ⟨here, ih behind⟩
  | case4 serial index chunk old window rest differ ih =>
    exact List.forall_mem_cons.mpr ⟨fresh .., ih (List.forall_mem_cons.mp each).2⟩

/-- The chunks of a new cut have its windows, if what has the window at a place has it exactly. -/
theorem map_window_arrange_of_covers {serial index : Nat} {old : List (Chunk τ)} {windows : List (Window τ)}
    (exactly : ∀ (i : Nat) chunk window, old[i]? = some chunk → windows[i]? = some window →
      chunk.covers window = true → chunk.window = window) :
    (arrange serial index old windows).map Chunk.window = windows := by
  fun_induction arrange serial index old windows with
  | case1 => rfl
  | case2 serial index window rest ih =>
    rw [List.map_cons, map_window_arrange]
    rfl
  | case3 serial index chunk old window rest same ih =>
    rw [List.map_cons, exactly 0 chunk window rfl rfl same]
    exact congrArg _ (ih fun i => exactly (i + 1))
  | case4 serial index chunk old window rest differ ih =>
    rw [List.map_cons]
    exact congrArg _ (ih fun i => exactly (i + 1))

/-- The chunks of a cut that is made anew have its windows. -/
theorem map_window_arrange_of_cut {cache : Cache Double} (cut : cache.IsCut ∨ cache.chunks = [])
    {duration : Double} {windows : List (Window Double)} {serial index : Nat}
    (anew : partition duration cache.chunkDuration = .ok windows) :
    (arrange serial index cache.chunks windows).map Chunk.window = windows := by
  refine map_window_arrange_of_covers fun i chunk window there there' covers => ?_
  rcases cut with cut | none
  · have placed : (cache.chunks.map Chunk.window)[i]? = some chunk.window := by
      rw [List.getElem?_map, there]
      rfl
    obtain ⟨above, same⟩ := partition_getElem? cut placed
    obtain ⟨-, same'⟩ := partition_getElem? anew there'
    have stops : (chunk.window.stop == window.stop) = true := (Bool.and_eq_true_iff.mp covers).2
    rw [same, same'] at stops
    rw [same, same', windowAt_eq_of_stop above stops]
  · rw [none] at there
    exact absurd there (by simp)

/-- A new cache has windows of a length above zero, and no chunks. -/
structure IsFresh (cache : Cache τ) : Prop where
  chunks : cache.chunks = []
  total : cache.totalDuration = Scalar.zero
  length : ¬ cache.chunkDuration ≤ Scalar.zero

theorem create_isFresh {config : Config} {now : Timestamp} {folder : Path} {chunkDuration : Option Double}
    {settings : Option (OutputFormat Double)} {cache : Cache Double}
    (created : create config now folder chunkDuration settings = .ok cache) : cache.IsFresh := by
  unfold create at created
  dsimp only at created
  split at created
  · cases created
  · next above =>
    split at created <;> obtain ⟨settings, -, created⟩ := exists_of_bind_eq_ok created
    all_goals obtain rfl := Except.ok.inj created
    all_goals exact ⟨rfl, rfl, above⟩

theorem IsFresh.isCut {cache : Cache Double} (fresh : cache.IsFresh) : cache.IsCut := by
  unfold IsCut partition
  rw [fresh.total, if_pos Double.zero_le_zero, fresh.chunks]
  rfl

theorem IsFresh.orderly {cache : Cache τ} (fresh : cache.IsFresh) : cache.Orderly :=
  ⟨by simp [fresh.chunks], by simp [fresh.chunks], by simp [fresh.chunks], by simp [fresh.chunks]⟩

end Cache

namespace CacheCall

/-! ### How calls end -/

/-- A render that is done names the file of what was rendered. -/
def NamesOutput : CacheCall τ → Prop
  | .finishRender _ path _ _ => path ≠ ""
  | _ => True

/-- Whether a call opens a project. -/
def opensProject : CacheCall τ → Bool
  | .change (.openProject ..) => true
  | _ => false

/-- Whether a call cuts the timeline anew and keeps chunks. -/
def cutsAnew : CacheCall τ → Bool
  | .change (.repartition _) => true
  | _ => false

/-- Whether a call forgets what all chunks were. -/
def forgets : CacheCall τ → Bool
  | .change .wipe => true
  | call => call.opensProject

/-- A call that opens a project returns. -/
def Opens (call : CacheCall τ) (failure? : Option Failure) : Prop :=
  call.opensProject = true → failure?.isNone = true

/-- Unless a call forgets the chunks, it is not stopped by a file that cannot be removed. -/
def RemovesFiles (call : CacheCall τ) (failure? : Option Failure) : Prop :=
  call.forgets = false → failure?.any Failure.isFile = false

/-- A call after which chunks agree with themselves. -/
def IsSafe (call : CacheCall τ) (failure? : Option Failure) : Prop :=
  call.NamesOutput ∧ call.RemovesFiles failure?

instance (call : CacheCall τ) : Decidable call.NamesOutput :=
  match call with
  | .finishRender .. => inferInstanceAs (Decidable (_ ≠ _))
  | .change _ | .startRender _ | .failRender .. => .isTrue trivial

instance (call : CacheCall τ) (failure? : Option Failure) : Decidable (call.Opens failure?) :=
  inferInstanceAs (Decidable (_ → _))

instance (call : CacheCall τ) (failure? : Option Failure) : Decidable (call.IsSafe failure?) :=
  inferInstanceAs (Decidable (_ ∧ (_ → _)))

/-! ### How chunks move -/

/-- What is still the same chunk, at a status to which a call may move it. -/
structure Moves (call : CacheCall τ) (old new : Chunk τ) : Prop where
  serial : new.serial = old.serial
  window : new.window = old.window
  status : new.status = old.status ∨ old.status.allows new.status = true ∨
    call = .change .wipe ∧ new.status = .missing

/-- How a chunk may have come to its status in a call: it was moved there, or it is new, and perhaps
was found when a project was opened. -/
inductive Accounts (call : CacheCall τ) (before : Cache τ) (chunk : Chunk τ) : Prop
  | moved {old : Chunk τ} (known : old ∈ before.chunks) (moves : call.Moves old chunk)
  | new (unknown : ∀ old ∈ before.chunks, old.serial ≠ chunk.serial) (missing : chunk.status = .missing)
  | found (unknown : ∀ old ∈ before.chunks, old.serial ≠ chunk.serial) (opens : call.opensProject = true)
      (valid : chunk.status = .valid)

section Moves

variable {call : CacheCall τ} {old new : Chunk τ}

protected theorem Moves.refl (call : CacheCall τ) (chunk : Chunk τ) : call.Moves chunk chunk :=
  ⟨rfl, rfl, .inl rfl⟩

/-- A chunk that renders may become anything but missing. -/
theorem moves_of_busy (busy : old.status = .rendering) (serial : new.serial = old.serial)
    (window : new.window = old.window) (there : new.status ≠ .missing) : call.Moves old new :=
  ⟨serial, window, .inr (.inl (by simp [busy, ChunkState.allows, there]))⟩

theorem moves_invalidated (call : CacheCall τ) (chunk : Chunk τ) :
    call.Moves chunk chunk.invalidated := by
  unfold Chunk.invalidated
  cases status : chunk.status with
  | valid => exact ⟨rfl, rfl, .inr (.inl (by rw [status]; rfl))⟩
  | rendering => exact ⟨rfl, rfl, .inl status.symm⟩
  | missing | stale | error => exact .refl call chunk

theorem moves_partlyInvalidated {meets : Chunk τ → Bool} (partly : old.PartlyInvalidated meets new) :
    call.Moves old new := by
  rcases partly with rfl | ⟨-, -, same⟩
  · exact .refl call new
  · obtain ⟨serial, window, status⟩ := moves_invalidated call old
    rw [same]
    exact ⟨serial, window, status⟩

theorem moves_reset (chunk : Chunk τ) : Moves (.change .wipe) chunk (Cache.reset chunk) := by
  unfold Cache.reset
  split
  · exact ⟨rfl, rfl, .inl rfl⟩
  · exact ⟨rfl, rfl, .inr (.inr ⟨rfl, rfl⟩)⟩

end Moves

/-- A call had an effect, whether it returned or failed. -/
theorem effected_leaves [Scalar τ] (call : CacheCall τ) (state : CacheState τ) :
    call.Effected state (failure? call.action state) (leaves call.action state) :=
  (call.effected state).leaves

variable [Scalar τ] {call : CacheCall τ} {before after : Cache τ} {failure? : Option Failure}

/-! ### What one call keeps -/

/-- Chunks agree with themselves after a call, unless it was stopped by a file that cannot be
removed. -/
theorem Effect.coherent (effect : call.Effect before after failure?) (safe : call.IsSafe failure?)
    (each : ∀ chunk ∈ before.chunks, chunk.Coherent) :
    ∀ chunk ∈ after.chunks, chunk.Coherent := by
  have new (serial index : Nat) (start stop : τ) :
      Chunk.Coherent { serial, index, start, stop } := .of_idle (by simp) rfl (by simp) rfl
  have stuck {cause : FileError} (remembers : call.forgets = false)
      (stopped : failure? = some (.file cause)) : False := by
    have removed := safe.2 remembers
    rw [stopped] at removed
    exact absurd removed (by simp [Failure.isFile])
  cases effect with
  | keeps chunks _ => exact chunks ▸ each
  | cuts _ chunks _ => exact chunks ▸ Cache.arrange_forall new each
  | strips _ _ => exact (stuck rfl rfl).elim
  | opens _ chunks _ =>
    intro chunk h
    obtain ⟨fresh, hfresh, recovered⟩ := forall₂_mem chunks h
    rcases Cache.mem_arrange hfresh with kept | ⟨-, missing, -⟩
    · exact absurd kept List.not_mem_nil
    · exact (Cache.arrange_forall new (by simp) fresh hfresh).recovered missing recovered
  | closes chunks =>
    rw [chunks]
    exact fun _ h => absurd h List.not_mem_nil
  | sweeps _ chunks _ =>
    rw [chunks]
    intro chunk h
    obtain ⟨old, hold, rfl⟩ := List.mem_map.mp h
    split
    · exact (each old hold).invalidated
    · exact each old hold
  | @breaksOff edit _ _ about _ _ =>
    refine (stuck ?_ rfl).elim
    cases edit <;> first | rfl | cases about
  | resets chunks _ =>
    rw [chunks]
    intro chunk h
    obtain ⟨old, hold, rfl⟩ := List.mem_map.mp h
    exact (each old hold).reset
  | begins found put =>
    rw [put]
    exact Cache.forall_put found rfl (.of_rendering rfl rfl) each
  | lands found busy current put =>
    have named : _ ≠ "" := safe.1
    rw [put]
    refine Cache.forall_put found rfl (.of_valid (if_pos current) rfl ?_) each
    simp [Cache.landed, Cache.endRender, Chunk.output?, Option.filter, named]
  | drops found busy outdated put =>
    rw [put]
    have stale : (if _ then ChunkState.valid else .stale) = .stale := if_neg outdated
    refine Cache.forall_put found rfl (.of_idle ?_ rfl ?_ (if_neg safe.1)) each
    · exact fun busy => absurd (stale.symm.trans busy) (by decide)
    · exact fun valid => absurd (stale.symm.trans valid) (by decide)
  | sticks _ _ _ _ => exact (stuck rfl rfl).elim
  | fails found busy put =>
    rw [put]
    exact Cache.forall_put found rfl (.of_error rfl rfl) each

/-- The chunks stay where they are, or the timeline is cut anew, or a project cannot be opened. -/
theorem Effect.moves_or_cuts (effect : call.Effect before after failure?) (orderly : before.Orderly) :
    after.totalDuration = before.totalDuration ∧ List.Forall₂ call.Moves before.chunks after.chunks ∨
    (∃ duration windows, partition duration before.chunkDuration = .ok windows ∧
      after.totalDuration = Scalar.maxOf Scalar.zero duration ∧
      (call.cutsAnew = true ∧ after.chunks = Cache.arrange before.nextSerial 0 before.chunks windows ∨
        call.opensProject = true ∧
        List.Forall₂ Chunk.Recovered (Cache.arrange before.nextSerial 0 [] windows) after.chunks)) ∨
    after.chunks = [] ∧ ¬ call.Opens failure? := by
  cases effect with
  | keeps chunks total => exact .inl ⟨total, chunks ▸ List.forall₂_same.mpr fun _ _ => .refl ..⟩
  | cuts cut chunks total => exact .inr (.inl ⟨_, _, cut, total, .inl ⟨rfl, chunks⟩⟩)
  | strips chunks total =>
    refine .inl ⟨total, chunks.imp fun old new same => ?_⟩
    rw [same]
    exact ⟨rfl, rfl, .inl rfl⟩
  | opens cut chunks total => exact .inr (.inl ⟨_, _, cut, total, .inr ⟨rfl, chunks⟩⟩)
  | closes chunks => exact .inr (.inr ⟨chunks, fun opens => absurd (opens rfl) (by simp)⟩)
  | sweeps _ chunks total =>
    refine .inl ⟨total, ?_⟩
    rw [chunks, Cache.sweep, List.forall₂_map_right_iff, List.forall₂_same]
    exact fun chunk _ => moves_partlyInvalidated (Cache.partlyInvalidated_sweep _ chunk)
  | breaksOff _ chunks total => exact .inl ⟨total, chunks.imp fun _ _ => moves_partlyInvalidated⟩
  | resets chunks total =>
    refine .inl ⟨total, ?_⟩
    rw [chunks, List.forall₂_map_right_iff, List.forall₂_same]
    exact fun chunk _ => moves_reset chunk
  | begins found put =>
    rw [put]
    refine .inl ⟨rfl, orderly.forall₂_put found rfl ⟨rfl, rfl, .inr (.inl ?_)⟩ (.refl _)⟩
    exact ChunkState.allows_rendering _
  | @lands _ path contentHash isComplex chunk _ found busy current put =>
    rw [put]
    refine .inl ⟨rfl, orderly.forall₂_put found rfl (moves_of_busy busy rfl rfl ?_) (.refl _)⟩
    exact Cache.endRender_status chunk path contentHash isComplex
  | @drops _ path contentHash isComplex chunk _ found busy outdated put =>
    rw [put]
    refine .inl ⟨rfl, orderly.forall₂_put found rfl (moves_of_busy busy rfl rfl ?_) (.refl _)⟩
    exact Cache.endRender_status chunk path contentHash isComplex
  | @sticks _ path contentHash isComplex chunk _ found busy outdated put =>
    rw [put]
    refine .inl ⟨rfl, orderly.forall₂_put found rfl (moves_of_busy busy rfl rfl ?_) (.refl _)⟩
    exact Cache.endRender_status chunk path contentHash isComplex
  | fails found busy put =>
    rw [put]
    refine .inl ⟨rfl, orderly.forall₂_put found rfl (moves_of_busy busy rfl rfl ?_) (.refl _)⟩
    simp [Cache.failed]

/-- A chunk after a call came to its status in one of the ways that there are. -/
theorem Effect.accounts (effect : call.Effect before after failure?) (orderly : before.Orderly) :
    ∀ chunk ∈ after.chunks, call.Accounts before chunk := by
  have unknown {chunk : Chunk τ} (new : Cache.IsNew before.nextSerial chunk) :
      ∀ old ∈ before.chunks, old.serial ≠ chunk.serial := fun old known same =>
    absurd (orderly.numbered old known) (Nat.not_lt.mpr (same ▸ new.serial_le))
  intro chunk h
  rcases effect.moves_or_cuts orderly with
    ⟨-, each⟩ | ⟨duration, windows, -, -, ⟨-, chunks⟩ | ⟨opens, chunks⟩⟩ | ⟨none, -⟩
  · obtain ⟨old, known, moves⟩ := forall₂_mem each h
    exact .moved known moves
  · rw [chunks] at h
    rcases Cache.mem_arrange h with kept | ⟨-, missing, new⟩
    · exact .moved kept (.refl call chunk)
    · exact .new (unknown new) missing
  · obtain ⟨fresh, hfresh, recovered⟩ := forall₂_mem chunks h
    rcases Cache.mem_arrange hfresh with kept | ⟨-, missing, new⟩
    · exact absurd kept List.not_mem_nil
    · rcases recovered.found with rfl | ⟨valid, -⟩
      · exact .new (unknown new) missing
      · exact .found (recovered.serial ▸ unknown new) opens valid
  · rw [none] at h
    exact absurd h List.not_mem_nil

/-- After a call the chunks are cut as before, or anew. Only a project that cannot be opened leaves none
where there should be some. -/
theorem Effect.isCut {before after : Cache Double} {call : CacheCall Double}
    (effect : call.Effect before after failure?) (orderly : before.Orderly)
    (length : after.chunkDuration = before.chunkDuration) (cut : before.IsCut ∨ before.chunks = []) :
    (after.IsCut ∨ after.chunks = []) ∧ (call.Opens failure? → before.IsCut → after.IsCut) := by
  rcases effect.moves_or_cuts orderly with
    ⟨total, each⟩ | ⟨duration, windows, anew, total, chunks⟩ | ⟨none, fails⟩
  · have windows : before.chunks.map Chunk.window = after.chunks.map Chunk.window :=
      map_eq_map_of_forall₂ (each.imp fun _ _ moves => moves.window.symm)
    have isCut (cut : before.IsCut) : after.IsCut := by
      unfold Cache.IsCut
      rw [total, length, ← windows]
      exact cut
    refine ⟨cut.imp isCut fun none => ?_, fun _ => isCut⟩
    rw [none] at each
    exact List.forall₂_nil_left_iff.mp each
  · have whole : after.chunks.map Chunk.window = windows := by
      rcases chunks with ⟨-, chunks⟩ | ⟨-, chunks⟩
      · rw [chunks, Cache.map_window_arrange_of_cut cut anew]
      · rw [← map_eq_map_of_forall₂ (chunks.imp fun _ _ recovered => recovered.window.symm),
          Cache.map_window_arrange]
    have isCut : after.IsCut := by
      unfold Cache.IsCut
      rw [total, length, whole]
      exact partition_maxOf_zero anew
    exact ⟨.inl isCut, fun _ _ => isCut⟩
  · exact ⟨.inr none, fun opens => absurd opens fails⟩

end CacheCall

/-! ### Any calls -/

namespace CacheState

section Throughout

variable [Scalar τ] {holds : CacheCall τ → Option Failure → Prop}

/-- Something holds of each of some calls and of how it ends. -/
def Throughout (holds : CacheCall τ → Option Failure → Prop) : CacheState τ → List (CacheCall τ) → Prop
  | _, [] => True
  | state, call :: rest =>
    holds call (failure? call.action state) ∧ (leaves call.action state).Throughout holds rest

/-- Whether it holds is found by making the calls. -/
def decideThroughout [∀ call failure?, Decidable (holds call failure?)] :
    (state : CacheState τ) → (calls : List (CacheCall τ)) → Decidable (state.Throughout holds calls)
  | _, [] => .isTrue trivial
  | state, call :: rest =>
    have := decideThroughout (leaves call.action state) rest
    inferInstanceAs (Decidable (_ ∧ _))

instance [∀ call failure?, Decidable (holds call failure?)] (state : CacheState τ)
    (calls : List (CacheCall τ)) : Decidable (state.Throughout holds calls) := decideThroughout state calls

theorem throughout_of_forall (each : ∀ call failure?, holds call failure?) (state : CacheState τ)
    (calls : List (CacheCall τ)) : state.Throughout holds calls := by
  induction calls generalizing state with
  | nil => trivial
  | cons call rest ih => exact ⟨each _ _, ih _⟩

/-- What each call keeps holds after all of them. -/
theorem after_of_throughout (holds : CacheCall τ → Option Failure → Prop) (kept : Cache τ → Prop)
    (step : ∀ {call : CacheCall τ} {before after : Cache τ} {failure? : Option Failure},
      call.Effect before after failure? → before.Orderly → after.chunkDuration = before.chunkDuration →
        holds call failure? → kept before → kept after)
    {state : CacheState τ} {calls : List (CacheCall τ)} (orderly : state.cache.Orderly)
    (throughout : state.Throughout holds calls) (first : kept state.cache) :
    kept (state.after calls).cache := by
  induction calls generalizing state with
  | nil => exact first
  | cons call rest ih =>
    obtain ⟨here, later⟩ := throughout
    have effected := call.effected_leaves state
    exact ih (call.keeps_orderly orderly) later
      (step effected.effect orderly effected.chunkDuration here first)

end Throughout

/-- Calls come in any order on a new cache, and each may fail. Each chunk stands at its place; the windows
are those of the partition, unless a project could not be opened and there is no chunk; and the chunks
agree with themselves, unless a call was stopped by a file that cannot be removed. The next call moves
chunks as it may, and if there is no such chunk, or it may not move, nothing changes. -/
theorem coherent_after {config : Config} {now : Timestamp} {folder : Path} {chunkDuration : Option Double}
    {settings : Option (OutputFormat Double)} {cache : Cache Double}
    (created : Cache.create config now folder chunkDuration settings = .ok cache) (disk : Disk)
    (calls : List (CacheCall Double)) :
    let first : CacheState Double := { cache, disk }
    let reached := first.after calls
    (∀ (i : Nat) chunk, reached.cache.chunks[i]? = some chunk → chunk.index = i) ∧
    (reached.cache.IsCut ∨ reached.cache.chunks = []) ∧
    (first.Throughout CacheCall.Opens calls → reached.cache.IsCut) ∧
    (first.Throughout CacheCall.IsSafe calls → ∀ chunk ∈ reached.cache.chunks, chunk.Coherent) ∧
    ∀ call : CacheCall Double,
      let next := leaves call.action reached
      (∀ chunk ∈ next.cache.chunks, call.Accounts reached.cache chunk) ∧
      ∀ failure, failure? call.action reached = some failure → failure.deniesChunk = true → next = reached := by
  intro first reached
  have fresh := Cache.create_isFresh created
  have start := fresh.isCut
  have empty := fresh.orderly
  have orderly : reached.cache.Orderly := orderly_after empty calls
  refine ⟨orderly.placed, ?_, fun opens => ?_, fun safe => ?_, fun call => ⟨?_, ?_⟩⟩
  · refine after_of_throughout (fun _ _ => True) (fun cache => cache.IsCut ∨ cache.chunks = []) ?_ empty
      (throughout_of_forall (fun _ _ => trivial) first calls) (.inl start)
    exact fun effect orderly length _ cut => (effect.isCut orderly length cut).1
  · refine after_of_throughout CacheCall.Opens Cache.IsCut ?_ empty opens start
    exact fun effect orderly length opens cut => (effect.isCut orderly length (.inl cut)).2 opens cut
  · refine after_of_throughout CacheCall.IsSafe (fun cache => ∀ chunk ∈ cache.chunks, chunk.Coherent) ?_
      empty safe ?_
    · exact fun effect _ _ safe each => effect.coherent safe each
    · rw [fresh.chunks]
      exact fun _ h => absurd h List.not_mem_nil
  · exact (call.effected_leaves reached).effect.accounts orderly
  · exact (call.effected_leaves reached).refused

end CacheState

/-! ### Half-second windows beside a file that cannot be removed -/

namespace Beside

open Overtaken

/-- A new cache, in a folder that has a folder of its own. -/
def first : CacheState Double where
  cache := {
    folder := Path.ofText "cache", chunkDuration := half, settings := {}, totalDuration := Scalar.zero
    createdAt := day }
  disk := created.disk

theorem create_first :
    Cache.create {} day (Path.ofText "cache") (some half) (some {}) = .ok first.cache := by
  have nonzero : half.isZero = false := by decide +kernel
  have above : ¬ half ≤ Scalar.zero := by decide +kernel
  have given (default : Double) : ((some half).filter (!·.isZero)).getD default = half := by
    simp [Option.filter, nonzero]
  unfold Cache.create
  dsimp only
  rw [given, if_neg above]
  rfl

/-- One chunk is rendered, everything is invalidated while another one renders, and the timeline gets
longer while a third one does. -/
def edits : List (CacheCall Double) :=
  rendered "cache/chunk-1-aa.mp4" ++ [.startRender 0, .change edit,
    .finishRender 0 "cache/chunk-0-bb.mp4" (some "bb") none, .startRender 2,
    .change (.repartition (Double.ofRatio false 2 1))]

/-- What was rendered cannot be removed when it turns out to be out of date. -/
def jams : List (CacheCall Double) :=
  [.change (.repartition whole), .startRender 0, .change edit, .finishRender 0 "cache/inner" none none]

/-- A project that is too long for its windows to be counted, in a folder from which the manifest is
gone. -/
def overflows : List (CacheCall Double) :=
  [.change (.repartition whole), .change (.setFiles created.disk.files),
    .change (.openProject none (Double.ofRatio false (10 ^ 308) 1) none)]

end Beside

open Overtaken Beside

/-- After some edits the chunks agree with themselves, and a render that has not begun cannot fail. -/
theorem coherent_after_edits :
    let reached := first.after edits
    reached.cache.chunks.map (·.status) = [.stale, .stale, .rendering, .missing] ∧
    reached.cache.IsCut ∧ (∀ chunk ∈ reached.cache.chunks, chunk.Coherent) ∧
    leaves (CacheCall.failRender 0 "no input" none).action reached = reached := by
  have opens : first.Throughout CacheCall.Opens edits := by decide +kernel
  have safe : first.Throughout CacheCall.IsSafe edits := by decide +kernel
  have denied : (failure? (CacheCall.failRender 0 "no input" none).action (first.after edits)).any
      Failure.deniesChunk = true := by decide +kernel
  have statuses : (first.after edits).cache.chunks.map (·.status) =
      [.stale, .stale, .rendering, .missing] := by decide +kernel
  obtain ⟨failure, fails, denies⟩ := (Option.any_eq_true _ _).mp denied
  have whole : CacheState.mk first.cache first.disk = first := rfl
  obtain ⟨-, -, cut, coherent, next⟩ := CacheState.coherent_after create_first first.disk edits
  rw [whole] at cut coherent next
  exact ⟨statuses, cut opens, coherent safe,
    (next (.failRender 0 "no input" none)).2 failure fails denies⟩

/-- If a file cannot be removed, a stale chunk keeps its path and the generation at which its render
began. If a project cannot be opened, there are no chunks where there should be some. -/
theorem exists_incoherent_chunk :
    Cache.create {} day (Path.ofText "cache") (some half) (some {}) = .ok first.cache ∧
    (∃ chunk ∈ (first.after jams).cache.chunks, chunk.status = .stale ∧
      chunk.outputPath = some "cache/inner" ∧ chunk.renderGeneration = some 0) ∧
    ¬ (first.after overflows).cache.IsCut := by
  refine ⟨create_first, ?_, fun cut => ?_⟩
  · have known : (first.after jams).cache.chunks.any (fun chunk => chunk.status = .stale ∧
        chunk.outputPath = some "cache/inner" ∧ chunk.renderGeneration = some 0) = true := by
      decide +kernel
    simpa using known
  · have empty : (first.after overflows).cache.chunks.isEmpty = true := by decide +kernel
    have windows : ((partition (first.after overflows).cache.totalDuration
        (first.after overflows).cache.chunkDuration).toOption.map List.length) = some 3 := by
      decide +kernel
    rw [cut, List.isEmpty_iff.mp empty] at windows
    exact absurd windows (by decide)

end Montage
