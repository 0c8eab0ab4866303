import Montage.Proofs.Chunk.Invalidation
import Montage.Proofs.Chunk.Reuse
import Montage.Proofs.Files.Folder

/-!
# What a call does to a cache

Each call has one effect on a cache when it goes through, and a few others when something on the way
cannot be done: a file that cannot be removed stops an invalidation or a cut in the middle, and leaves
a chunk stale with its file. What is refused changes nothing.

## Main definitions

* `CacheCall.Effect` — the effects of the calls, one constructor for each
* `CacheCall.Effected` — a call had one of its effects, and has changed nothing if it was refused

## Main results

* `CacheCall.effected` — every call has one of its effects, whether it returns or fails
-/

namespace Montage

variable {τ : Type}

/-- Whether a failure says that there is no such chunk, or that the chunk may not move. -/
def Failure.deniesChunk : Failure → Bool
  | .render (.chunkNotFound _) | .render (.chunkTransition ..) => true
  | _ => false

/-- A new chunk that was found on disk, or was not. -/
structure Chunk.Recovered (before after : Chunk τ) : Prop where
  window : after.window = before.window
  serial : after.serial = before.serial
  renderGeneration : after.renderGeneration = before.renderGeneration
  found : after = before ∨ after.status = .valid ∧ after.output?.isSome

/-- A chunk whose render was recorded as done, without the generation at which it began. -/
def Cache.landed (chunk : Chunk τ) (path : String) (contentHash : Option String)
    (isComplex : Option Bool) : Chunk τ :=
  { endRender chunk path contentHash isComplex with renderGeneration := none }

/-- A chunk whose render has failed. -/
def Cache.failed (chunk : Chunk τ) (message : String) (contentHash : Option String) : Chunk τ :=
  { chunk with
    status := .error, error := some message, failedHash := contentHash, renderGeneration := none }

namespace CacheAction

/-! ### Actions that cannot fail by themselves -/

section Steps

variable {α : Type} {state : CacheState τ} {returns : α → CacheState τ → Prop}
  {fails : Failure → CacheState τ → Prop}

theorem resolves_cache {action : Cache τ → CacheAction τ α} :
    Resolves (cache >>= action) state returns fails ↔
      Resolves (action state.cache) state returns fails := Iff.rfl

theorem resolves_files {action : FileTree → CacheAction τ α} :
    Resolves (files >>= action) state returns fails ↔
      Resolves (action state.disk.files) state returns fails := Iff.rfl

theorem resolves_setCache {cache : Cache τ} {action : CacheAction τ α} :
    Resolves (setCache cache >>= fun _ => action) state returns fails ↔
      Resolves action { state with cache } returns fails := Iff.rfl

theorem resolves_putChunk {chunk : Chunk τ} {action : CacheAction τ α} :
    Resolves (putChunk chunk >>= fun _ => action) state returns fails ↔
      Resolves action { state with cache := state.cache.put chunk } returns fails := Iff.rfl

theorem resolves_chunkAt {index : Int} {action : Chunk τ → CacheAction τ α} :
    Resolves (chunkAt index >>= action) state returns fails ↔
      match state.cache.get index with
      | .ok chunk => Resolves (action chunk) state returns fails
      | .error cause => fails (.render cause) state := by
  unfold chunkAt
  rw [resolves_bind, resolves_cache]
  cases state.cache.get index <;> rfl

theorem resolves_finishSweep {sweep : Cache.Sweep τ} {action : CacheAction τ α} :
    Resolves (finishSweep sweep >>= fun _ => action) state returns fails ↔
      let swept : CacheState τ := {
        cache := { state.cache with chunks := sweep.chunks }
        disk := { state.disk with files := sweep.files } }
      match sweep.failure with
      | none => Resolves action swept returns fails
      | some cause => fails (.file cause) swept := by
  obtain ⟨chunks, files, affected, failure⟩ := sweep
  cases failure <;> rfl

end Steps

/-! ### What can go wrong with files -/

/-- Only a file that cannot be removed keeps the files of chunks from being deleted. -/
theorem deleteChunkFiles_failsOnly (state : CacheState τ) :
    FailsOnly deleteChunkFiles state fun failure => ∃ cause, failure = .file cause := by
  unfold deleteChunkFiles
  refine FailsOnly.bind ?_ fun cache _ => ?_
  · trivial
  refine FailsOnly.bind ?_ fun files middle => ?_
  · trivial
  refine FailsOnly.bind (FailsOnly.forIn (fun name _ state => ?_) _ _ _) fun _ _ => trivial
  split
  · refine (onFiles_failsOnly _ state).bind fun result middle => ?_
    cases result with
    | ok _ => trivial
    | error cause => exact ⟨cause, rfl⟩
  · trivial

theorem readManifest_failsOnly [Scalar τ] (state : CacheState τ) :
    FailsOnly readManifest state fun failure => failure = .notText := by
  unfold readManifest
  refine FailsOnly.bind ?_ fun cache _ => ?_
  · trivial
  refine FailsOnly.bind ?_ fun files middle => ?_
  · trivial
  split
  · trivial
  · split
    · rfl
    · trivial

/-- What a manifest records is found on disk. -/
theorem restore_recovered {folder : Path} {files : FileTree} {entries : List ManifestEntry}
    {first chunks restored : List (Chunk τ)} (earlier : List.Forall₂ Chunk.Recovered first chunks)
    (h : restore folder files chunks entries = .ok restored) :
    List.Forall₂ Chunk.Recovered first restored := by
  induction entries generalizing chunks with
  | nil =>
    obtain rfl := Except.ok.inj h
    exact earlier
  | cons entry rest ih =>
    unfold restore at h
    split at h
    · cases hfile : files.checkExists (folder.join entry.fileName).text with
      | error cause => simp [hfile, bind, Except.bind] at h
      | ok there =>
        cases there with
        | false => exact ih earlier (by simpa [hfile, bind, Except.bind] using h)
        | true =>
          refine ih (List.forall₂_map_right_iff.mpr (earlier.imp fun a b earlier => ?_))
            (by simpa [hfile, bind, Except.bind, pure, Except.pure] using h)
          split
          · refine ⟨earlier.window, earlier.serial, earlier.renderGeneration, .inr ⟨rfl, ?_⟩⟩
            simp [Chunk.output?, Option.filter, Path.text_ne_empty]
          · exact earlier
    · exact ih earlier h

/-- A chunk that is not valid loses its file, or the file cannot be removed. -/
theorem dropStale_resolves (chunk : Chunk τ) (state : CacheState τ) :
    Resolves (dropStale chunk) state
      (fun dropped next => next.cache = state.cache ∧ dropped = { chunk with
        outputPath := if chunk.status = .valid ∨ chunk.output? = none then chunk.outputPath else none })
      (fun failure next => (∃ cause, failure = .file cause) ∧ next.cache = state.cache ∧
        chunk.status ≠ .valid) := by
  unfold dropStale
  by_cases valid : chunk.status = .valid
  · rw [if_pos valid, resolves_pure, if_pos (.inl valid)]
    exact ⟨rfl, rfl⟩
  have dropped := Cache.dropOutput_cases chunk state.disk.files
  rw [if_neg valid, resolves_files]
  cases removed : FileTree.removeEach chunk.output?.toList state.disk.files with
  | ok files =>
    rw [removed] at dropped
    rw [dropped]
    exact ⟨rfl, by simp only [valid, false_or]⟩
  | error cause =>
    rw [removed] at dropped
    rw [dropped]
    exact ⟨⟨cause, rfl⟩, rfl, valid⟩

theorem recovered_self (chunks : List (Chunk τ)) : List.Forall₂ Chunk.Recovered chunks chunks :=
  List.forall₂_same.mpr fun _ _ => ⟨rfl, rfl, rfl, .inl rfl⟩

variable [Scalar τ]

theorem findManifest_resolves (state : CacheState τ) :
    Resolves findManifest state
      (fun _ next => ∃ createdAt, next = { state with cache := { state.cache with createdAt } })
      (fun failure next => failure = .notText ∧ next = state) := by
  have read : FailsOnly findManifest state fun failure => failure = .notText := by
    unfold findManifest
    refine (readManifest_failsOnly state).bind fun found middle => ?_
    cases found <;> trivial
  exact read.resolves ((findManifest_finds state).mono (fun _ _ h => h.2) fun _ h => h)

/-- New chunks are recovered, or a file cannot be asked for or deleted. -/
theorem recover_resolves (found : Option (Manifest τ)) (fresh : List (Chunk τ)) (state : CacheState τ) :
    Resolves (recover found fresh) state
      (fun chunks next => List.Forall₂ Chunk.Recovered fresh chunks ∧
        next.cache.chunkDuration = state.cache.chunkDuration ∧ next.cache.chunks = state.cache.chunks)
      (fun failure next => (∃ cause, failure = .file cause) ∧
        next.cache.chunkDuration = state.cache.chunkDuration ∧ next.cache.chunks = state.cache.chunks) := by
  unfold recover
  cases found with
  | none => exact resolves_pure.mpr ⟨recovered_self fresh, rfl, rfl⟩
  | some manifest =>
    dsimp only
    rw [resolves_cache]
    split
    · rw [resolves_files]
      split
      · next restores => exact resolves_pure.mpr ⟨restore_recovered (recovered_self fresh) restores, rfl, rfl⟩
      · next cause _ => exact resolves_throw.mpr ⟨⟨cause, rfl⟩, rfl, rfl⟩
    · rw [resolves_bind]
      have deleted := (deleteChunkFiles_failsOnly state).resolves
        (deleteChunkFiles_keeps state.cache state rfl)
      refine deleted.mono (fun _ middle same => ?_) fun _ _ h => ⟨h.1, by rw [h.2], by rw [h.2]⟩
      rw [resolves_cache]
      exact ⟨recovered_self fresh, congrArg (·.chunkDuration) same, congrArg (·.chunks) same⟩

end CacheAction

/-! ### Effects -/

/-- The chunks that an invalidation is about. -/
def CacheChange.meets? [Scalar τ] : CacheChange τ → Option (Chunk τ → Bool)
  | .invalidate start stop => some (·.window.intersects start stop)
  | .invalidateEvery | .applySettings _ => some fun _ => true
  | .repartition _ | .openProject .. | .wipe | .setFiles _ => none

namespace CacheCall

variable [Scalar τ]

/-- What a call does that returns, or fails for some cause. -/
inductive Effect (before after : Cache τ) : CacheCall τ → Option Failure → Prop
  /-- The chunks stay as they are. -/
  | keeps {call : CacheCall τ} {failure? : Option Failure} (chunks : after.chunks = before.chunks)
    (total : after.totalDuration = before.totalDuration) : Effect before after call failure?
  | cuts {duration : τ} {windows : List (Window τ)} {failure? : Option Failure}
    (cut : partition duration before.chunkDuration = .ok windows)
    (chunks : after.chunks = Cache.arrange before.nextSerial 0 before.chunks windows)
    (total : after.totalDuration = Scalar.maxOf Scalar.zero duration) :
    Effect before after (.change (.repartition duration)) failure?
  /-- Some files are gone, and one cannot be removed. -/
  | strips {duration : τ} {cause : FileError}
    (chunks : List.Forall₂ (fun old new => new = { old with outputPath := new.outputPath })
      before.chunks after.chunks) (total : after.totalDuration = before.totalDuration) :
    Effect before after (.change (.repartition duration)) (some (.file cause))
  | opens {path : Option String} {duration : τ} {time : Option τ} {windows : List (Window τ)}
    {failure? : Option Failure} (cut : partition duration before.chunkDuration = .ok windows)
    (chunks : List.Forall₂ Chunk.Recovered (Cache.arrange before.nextSerial 0 [] windows) after.chunks)
    (total : after.totalDuration = Scalar.maxOf Scalar.zero duration) :
    Effect before after (.change (.openProject path duration time)) failure?
  /-- A project that cannot be opened has no chunks. -/
  | closes {path : Option String} {duration : τ} {time : Option τ} {failure : Failure}
    (chunks : after.chunks = []) :
    Effect before after (.change (.openProject path duration time)) (some failure)
  | sweeps {edit : CacheChange τ} {meets : Chunk τ → Bool} {failure? : Option Failure}
    (about : edit.meets? = some meets) (chunks : after.chunks = Cache.sweep meets before.chunks)
    (total : after.totalDuration = before.totalDuration) : Effect before after (.change edit) failure?
  /-- A file cannot be removed, and the chunks behind it are as they were. -/
  | breaksOff {edit : CacheChange τ} {meets : Chunk τ → Bool} {cause : FileError}
    (about : edit.meets? = some meets)
    (chunks : List.Forall₂ (Chunk.PartlyInvalidated meets) before.chunks after.chunks)
    (total : after.totalDuration = before.totalDuration) :
    Effect before after (.change edit) (some (.file cause))
  | resets {failure? : Option Failure} (chunks : after.chunks = before.chunks.map Cache.reset)
    (total : after.totalDuration = before.totalDuration) : Effect before after (.change .wipe) failure?
  | begins {index : Int} {chunk : Chunk τ} (found : before.get index = .ok chunk)
    (put : after = before.put (Cache.beginRender chunk)) : Effect before after (.startRender index) none
  | lands {index : Int} {path : String} {contentHash : Option String} {isComplex : Option Bool}
    {chunk : Chunk τ} {failure? : Option Failure} (found : before.get index = .ok chunk)
    (busy : chunk.status = .rendering) (current : chunk.renderGeneration = some chunk.generation)
    (put : after = before.put (Cache.landed chunk path contentHash isComplex)) :
    Effect before after (.finishRender index path contentHash isComplex) failure?
  /-- What was rendered is out of date, and its file is removed. -/
  | drops {index : Int} {path : String} {contentHash : Option String} {isComplex : Option Bool}
    {chunk : Chunk τ} {failure? : Option Failure} (found : before.get index = .ok chunk)
    (busy : chunk.status = .rendering) (outdated : chunk.renderGeneration ≠ some chunk.generation)
    (put : after = before.put { Cache.landed chunk path contentHash isComplex with
      outputPath := if path = "" then some path else none }) :
    Effect before after (.finishRender index path contentHash isComplex) failure?
  /-- What was rendered is out of date, and its file cannot be removed. -/
  | sticks {index : Int} {path : String} {contentHash : Option String} {isComplex : Option Bool}
    {chunk : Chunk τ} {cause : FileError} (found : before.get index = .ok chunk)
    (busy : chunk.status = .rendering) (outdated : chunk.renderGeneration ≠ some chunk.generation)
    (put : after = before.put (Cache.endRender chunk path contentHash isComplex)) :
    Effect before after (.finishRender index path contentHash isComplex) (some (.file cause))
  | fails {index : Int} {message : String} {contentHash : Option String} {chunk : Chunk τ}
    {failure? : Option Failure} (found : before.get index = .ok chunk) (busy : chunk.status = .rendering)
    (put : after = before.put (Cache.failed chunk message contentHash)) :
    Effect before after (.failRender index message contentHash) failure?

/-- A call had one of its effects. If it was refused, it had none. -/
structure Effected (call : CacheCall τ) (state : CacheState τ) (failure? : Option Failure)
    (next : CacheState τ) : Prop where
  chunkDuration : next.cache.chunkDuration = state.cache.chunkDuration
  effect : call.Effect state.cache next.cache failure?
  refused : ∀ failure, failure? = some failure → failure.deniesChunk = true → next = state

/-- A call has one of its effects, however it ends. -/
abbrev HasEffect (call : CacheCall τ) (state : CacheState τ) {α : Type} (action : CacheAction τ α)
    (middle : CacheState τ) : Prop :=
  Resolves action middle (fun _ => call.Effected state none) fun failure => call.Effected state (some failure)

variable {call : CacheCall τ} {state middle next : CacheState τ}

/-- What is not refused has an effect. -/
theorem effected_of_effect {failure? : Option Failure}
    (length : next.cache.chunkDuration = state.cache.chunkDuration)
    (effect : call.Effect state.cache next.cache failure?)
    (told : ∀ failure, failure? = some failure → failure.deniesChunk = false) :
    call.Effected state failure? next :=
  ⟨length, effect, fun failure same denies => absurd denies (by rw [told failure same]; decide)⟩

theorem effected_returned (length : next.cache.chunkDuration = state.cache.chunkDuration)
    (effect : call.Effect state.cache next.cache none) : call.Effected state none next :=
  effected_of_effect length effect fun _ same => absurd same (by simp)

theorem effected_failed {failure : Failure} (told : failure.deniesChunk = false)
    (length : next.cache.chunkDuration = state.cache.chunkDuration)
    (effect : call.Effect state.cache next.cache (some failure)) : call.Effected state (some failure) next :=
  effected_of_effect length effect fun _ same => Option.some.inj same ▸ told

/-- What changes nothing has no effect. -/
theorem effected_self (failure? : Option Failure) : call.Effected state failure? state :=
  ⟨rfl, .keeps rfl rfl, fun _ _ _ => rfl⟩

/-- What ends with the manifest has its effect before, and has it even if the manifest cannot be
written. -/
theorem hasEffect_save (length : middle.cache.chunkDuration = state.cache.chunkDuration)
    (effect : ∀ failure?, call.Effect state.cache middle.cache failure?) :
    call.HasEffect state CacheAction.save middle := by
  have saved := (CacheAction.save_failsOnly middle).resolves
    (CacheAction.save_keeps middle.cache middle rfl)
  refine saved.mono ?_ ?_
  · intro _ next same
    rw [← same] at length effect
    exact effected_returned length (effect none)
  · rintro _ next ⟨⟨told, rfl⟩, same⟩
    rw [← same] at length effect
    exact effected_failed rfl length (effect _)

/-! ### Invalidations and cuts -/

section Changes

-- To unfold what an action resolves to is to run the action; here it is known by the lemmas about it.
attribute [local irreducible] Resolves

/-- An invalidation goes through all chunks, or breaks off where a file cannot be removed. -/
theorem hasEffect_invalidateWhere {edit : CacheChange τ} {meets : Chunk τ → Bool}
    (about : edit.meets? = some meets) (chunks : middle.cache.chunks = state.cache.chunks)
    (total : middle.cache.totalDuration = state.cache.totalDuration)
    (length : middle.cache.chunkDuration = state.cache.chunkDuration) :
    (CacheCall.change edit).HasEffect state (CacheAction.invalidateWhere meets) middle := by
  have whole := Cache.invalidateWhere_eq meets middle.cache.chunks middle.disk.files
  unfold HasEffect CacheAction.invalidateWhere
  rw [CacheAction.resolves_cache, CacheAction.resolves_files, CacheAction.resolves_finishSweep]
  cases removed : FileTree.removeEach (Cache.pathsOf meets middle.cache.chunks) middle.disk.files with
  | error cause =>
    rw [removed] at whole
    obtain ⟨partly, failure⟩ := whole
    rw [failure]
    exact effected_failed rfl length (.breaksOff about (chunks ▸ partly) total)
  | ok files =>
    rw [removed] at whole
    dsimp only at whole
    rw [whole]
    dsimp only
    let swept : CacheState τ := {
      cache := { middle.cache with chunks := Cache.sweep meets middle.cache.chunks }
      disk := { middle.disk with files } }
    have effect (failure? : Option Failure) :
        (CacheCall.change edit).Effect state.cache swept.cache failure? :=
      .sweeps about (congrArg (Cache.sweep meets) chunks) total
    change Resolves _ swept _ _
    split
    · rw [resolves_bind]
      have saved : (CacheCall.change edit).HasEffect state CacheAction.save swept :=
        hasEffect_save length effect
      exact saved.mono (fun _ _ h => resolves_pure.mpr h) fun _ _ h => h
    · exact resolves_pure.mpr (effected_returned length (effect none))

/-- A new cut is made, or breaks off where a file cannot be removed. -/
theorem hasEffect_repartition (duration : τ) (state : CacheState τ) :
    (CacheCall.change (.repartition duration)).HasEffect state (CacheAction.repartition duration) state := by
  unfold HasEffect CacheAction.repartition
  rw [CacheAction.resolves_cache]
  refine Resolves.liftM_mapError_bind (fun windows cut => ?_) fun cause _ => effected_self _
  rw [CacheAction.resolves_files, CacheAction.resolves_finishSweep]
  split
  · rw [CacheAction.resolves_cache, CacheAction.resolves_setCache]
    exact hasEffect_save rfl fun _ => .cuts cut rfl rfl
  · refine effected_failed rfl rfl (.strips ?_ rfl)
    exact Cache.dropWhere_only _ _ _

/-- Other settings invalidate everything, unless they make no difference. -/
theorem hasEffect_applySettings (settings : OutputFormat τ) (state : CacheState τ) :
    (CacheCall.change (.applySettings settings)).HasEffect state
      (CacheAction.applySettings settings) state := by
  unfold HasEffect CacheAction.applySettings CacheAction.invalidateEvery
  rw [CacheAction.resolves_cache, CacheAction.resolves_setCache]
  split
  · exact resolves_pure.mpr (effected_returned rfl (.keeps rfl rfl))
  · rw [resolves_bind]
    have effect : (CacheCall.change (.applySettings settings)).HasEffect state
        (CacheAction.invalidateWhere fun _ => true) { state with cache := { state.cache with settings } } :=
      hasEffect_invalidateWhere rfl rfl rfl rfl
    exact effect.mono (fun _ _ h => resolves_pure.mpr h) fun _ _ h => h

/-- All chunks are reset, or some file cannot be deleted. -/
theorem hasEffect_wipe (state : CacheState τ) :
    (CacheCall.change .wipe).HasEffect state CacheAction.wipe state := by
  have deleted := (CacheAction.deleteChunkFiles_failsOnly state).resolves
    (CacheAction.deleteChunkFiles_keeps state.cache state rfl)
  unfold HasEffect CacheAction.wipe
  rw [resolves_bind]
  refine deleted.mono ?_ ?_
  · intro _ next same
    rw [CacheAction.resolves_cache, CacheAction.resolves_setCache, same]
    exact hasEffect_save rfl fun _ => .resets rfl rfl
  · rintro _ next ⟨⟨cause, rfl⟩, same⟩
    exact effected_failed rfl (by rw [same]) (.keeps (by rw [same]) (by rw [same]))

/-- A project is opened, or it has no chunks. -/
theorem hasEffect_openProject (path : Option String) (duration : τ) (time : Option τ)
    (state : CacheState τ) :
    (CacheCall.change (.openProject path duration time)).HasEffect state
      (CacheAction.openProject path duration time) state := by
  unfold HasEffect CacheAction.openProject
  rw [CacheAction.resolves_cache, CacheAction.resolves_setCache, resolves_bind]
  refine (CacheAction.findManifest_resolves _).mono ?_ ?_
  · rintro found _ ⟨createdAt, rfl⟩
    rw [CacheAction.resolves_cache]
    refine Resolves.liftM_mapError_bind (fun windows cut => ?_) fun cause _ => ?_
    · rw [CacheAction.resolves_setCache, resolves_bind]
      refine (CacheAction.recover_resolves _ _ _).mono ?_ ?_
      · rintro chunks next ⟨recovered, length, -⟩
        rw [CacheAction.resolves_cache, CacheAction.resolves_setCache]
        exact hasEffect_save length fun _ => .opens cut recovered rfl
      · rintro _ next ⟨⟨cause, rfl⟩, length, none⟩
        exact effected_failed rfl length (.closes none)
    · exact effected_failed rfl rfl (.closes rfl)
  · rintro _ _ ⟨rfl, rfl⟩
    exact effected_failed rfl rfl (.closes rfl)

/-! ### Renders -/

/-- The render of a chunk begins, if there is one. -/
theorem hasEffect_startRender (index : Int) (state : CacheState τ) :
    (CacheCall.startRender index).HasEffect state (CacheAction.startRender index) state := by
  unfold HasEffect CacheAction.startRender
  rw [CacheAction.resolves_chunkAt]
  split
  · next chunk found =>
    dsimp only
    rw [if_neg (by simp [ChunkState.allows_rendering]), CacheAction.resolves_putChunk]
    exact resolves_pure.mpr (effected_returned rfl (.begins found rfl))
  · exact effected_self _

/-- The render of a chunk has failed, if it was being rendered. -/
theorem hasEffect_failRender (index : Int) (message : String) (contentHash : Option String)
    (state : CacheState τ) :
    (CacheCall.failRender index message contentHash).HasEffect state
      (CacheAction.failRender index message contentHash) state := by
  unfold HasEffect CacheAction.failRender
  rw [CacheAction.resolves_chunkAt]
  split
  · next chunk found =>
    dsimp only
    split
    · exact resolves_bind.mpr (resolves_throw.mpr (effected_self _))
    · next allowed =>
      have busy : chunk.status = .rendering := by
        cases status : chunk.status <;> simp [status, ChunkState.allows] at allowed ⊢
      rw [CacheAction.resolves_putChunk, resolves_bind]
      have saved : (CacheCall.failRender index message contentHash).HasEffect state CacheAction.save
          { state with cache := state.cache.put (Cache.failed chunk message contentHash) } :=
        hasEffect_save rfl fun _ => .fails found busy rfl
      exact saved.mono (fun _ _ h => resolves_pure.mpr h) fun _ _ h => h
  · exact effected_self _

/-- What was rendered for a chunk lands, or its file is removed, or cannot be. -/
theorem hasEffect_finishRender (index : Int) (path : String) (contentHash : Option String)
    (isComplex : Option Bool) (state : CacheState τ) :
    (CacheCall.finishRender index path contentHash isComplex).HasEffect state
      (CacheAction.finishRender index path contentHash isComplex) state := by
  unfold HasEffect CacheAction.finishRender
  rw [CacheAction.resolves_chunkAt]
  split
  · next chunk found =>
    split
    · exact resolves_bind.mpr (resolves_throw.mpr (effected_self _))
    · next busy =>
      have busy : chunk.status = .rendering := not_not.mp busy
      set ended := Cache.endRender chunk path contentHash isComplex with hended
      have output : ended.output? = none ↔ path = "" := by
        simp [ended, Cache.endRender, Chunk.output?, Option.filter]
      dsimp only
      rw [CacheAction.resolves_putChunk, resolves_bind]
      refine (CacheAction.dropStale_resolves _ _).mono ?_ ?_
      · rintro _ next ⟨same, rfl⟩
        rw [CacheAction.resolves_putChunk, resolves_bind, same]
        have saved : (CacheCall.finishRender index path contentHash isComplex).HasEffect state
            CacheAction.save { next with cache := (state.cache.put ended).put { ended with
              renderGeneration := none
              outputPath := if ended.status = .valid ∨ ended.output? = none then ended.outputPath else none } } := by
          refine hasEffect_save rfl fun failure? => ?_
          dsimp only
          rw [Cache.put_put (by dsimp only)]
          by_cases current : chunk.renderGeneration = some chunk.generation
          · refine .lands found busy current ?_
            have valid : ended.status = .valid := if_pos current
            rw [if_pos (.inl valid)]
            rfl
          · refine .drops found busy current ?_
            have stale : ended.status = .stale := if_neg current
            have stays : ended.status = .valid ∨ ended.output? = none ↔ path = "" := by
              rw [stale, output, or_iff_right (by decide)]
            simp only [stays]
            rfl
        exact saved.mono (fun _ _ h => resolves_pure.mpr h) fun _ _ h => h
      · rintro _ next ⟨⟨cause, rfl⟩, same, notValid⟩
        have outdated : chunk.renderGeneration ≠ some chunk.generation := fun current =>
          notValid (if_pos current)
        exact effected_failed rfl (by rw [same]; rfl) (.sticks found busy outdated same)
  · exact effected_self _

end Changes

/-- Every call has one of its effects, whether it returns or fails. -/
theorem effected (call : CacheCall τ) (state : CacheState τ) : call.HasEffect state call.action state := by
  have discard {α : Type} {action : CacheAction τ α} (h : call.HasEffect state action state) :
      call.HasEffect state (do let _ ← action) state :=
    resolves_bind.mpr (Resolves.mono h (fun _ _ h => h) fun _ _ h => h)
  cases call with
  | change edit =>
    cases edit with
    | repartition duration => exact hasEffect_repartition duration state
    | openProject path duration time => exact hasEffect_openProject path duration time state
    | invalidate start stop => exact discard (hasEffect_invalidateWhere rfl rfl rfl rfl)
    | invalidateEvery => exact discard (hasEffect_invalidateWhere rfl rfl rfl rfl)
    | applySettings settings => exact discard (hasEffect_applySettings settings state)
    | wipe => exact hasEffect_wipe state
    | setFiles files => exact effected_returned rfl (.keeps rfl rfl)
  | startRender index => exact discard (hasEffect_startRender index state)
  | finishRender index path contentHash isComplex =>
    exact discard (hasEffect_finishRender index path contentHash isComplex state)
  | failRender index message contentHash => exact discard (hasEffect_failRender index message contentHash state)

end CacheCall

end Montage
