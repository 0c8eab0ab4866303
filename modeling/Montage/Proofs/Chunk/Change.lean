import Montage.Proofs.Chunk.Sweep

/-!
# Changes to a cache from outside

While chunks render, the cache is cut anew and invalidated, its settings change, its files are
deleted. Of this a chunk that renders keeps one trace, the count of its generation. It goes up once
in each invalidation that comes to the chunk and in each deletion of all files, and in nothing else.

## Main definitions

* `CacheChange` — what is done to a cache from outside
* `CacheChange.Outdates` — a change tells a chunk that renders that its render is out of date

## Main results

* `CacheChange.recuts` — every change cuts the cache anew at most
* `CacheChange.countsUp` — a chunk that renders is counted up by what outdates it, and only by that
-/

namespace Montage

variable {τ : Type}

/-- What is done to a cache from outside. -/
inductive CacheChange (τ : Type) where
  | repartition (duration : τ)
  | openProject (path : Option String) (duration : τ) (time : Option τ)
  | invalidate (start stop : τ)
  | invalidateEvery
  | applySettings (settings : OutputFormat τ)
  | wipe
  /-- Others write and remove files. -/
  | setFiles (files : FileTree)

namespace CacheChange

variable [Scalar τ]

def action : CacheChange τ → CacheAction τ Unit
  | .repartition duration => CacheAction.repartition duration
  | .openProject path duration time => CacheAction.openProject path duration time
  | .invalidate start stop => do let _ ← CacheAction.invalidate start stop
  | .invalidateEvery => do let _ ← CacheAction.invalidateEvery
  | .applySettings settings => do let _ ← CacheAction.applySettings settings
  | .wipe => CacheAction.wipe
  | .setFiles files => CacheAction.setFiles files

/-- A change makes what is being rendered for a chunk out of date: it is an invalidation that comes
to the chunk, or deletes the files of all chunks. -/
def Outdates (state : CacheState τ) (chunk : Chunk τ) : CacheChange τ → Prop
  | .invalidate start stop =>
      Cache.ComesTo (·.window.intersects start stop) state.cache.chunks state.disk.files chunk
  | .invalidateEvery => Cache.ComesTo (fun _ => true) state.cache.chunks state.disk.files chunk
  | .applySettings settings => state.cache.settings.sameOutput settings = false ∧
      Cache.ComesTo (fun _ => true) state.cache.chunks state.disk.files chunk
  | .wipe => succeeds (CacheAction.deleteChunkFiles (τ := τ)) state = true
  | .repartition _ | .openProject _ _ _ | .setFiles _ => False

end CacheChange

/-! ### What is kept -/

namespace Cache

/-- Every chunk that is not new was there before, and has lost nothing but perhaps its file. -/
def KeepsOrRenews (before after : Cache τ) : Prop :=
  ∀ chunk ∈ after.chunks,
    (∃ old ∈ before.chunks, chunk = { old with outputPath := chunk.outputPath }) ∨
      IsNew before.nextSerial chunk

/-- Removing files changes nothing else of the chunks. -/
theorem dropWhere_only (meets : Chunk τ → Bool) (chunks : List (Chunk τ)) (files : FileTree) :
    List.Forall₂ (fun before after => after = { before with outputPath := after.outputPath })
      chunks (dropWhere meets chunks files).chunks := by
  fun_induction dropWhere meets chunks files with
  | case1 => exact .nil
  | case2 chunk rest files spared ih => exact .cons rfl ih
  | case3 chunk rest files hit dropped files' hdrop ih => exact .cons (dropOutput_eq hdrop) ih
  | case4 chunk rest files hit cause hdrop =>
    exact .cons rfl (List.forall₂_same.mpr fun _ _ => rfl)

/-- Of a chunk that keeps all but its file, the generation is the same. -/
theorem KeepsOrRenews.countsUp {before after : Cache τ} (keeps : before.KeepsOrRenews after)
    (orderly : before.Orderly) {old new : Chunk τ} (hold : old ∈ before.chunks)
    (hnew : new ∈ after.chunks) (same : new.serial = old.serial) : old.CountsUp False new := by
  refine .inr ⟨id, ?_⟩
  rcases keeps new hnew with ⟨other, hother, kept⟩ | fresh
  · have : other = old := by
      apply orderly.eq_of_serial hother hold
      rw [← same, kept]
    rw [kept, this]
  · have := fresh.serial_le
    have := orderly.numbered old hold
    omega

end Cache

namespace CacheAction

variable [Scalar τ]

/-- A new cut keeps chunks as they are. -/
theorem repartition_keeps (duration : τ) (state : CacheState τ) :
    Ensures (repartition duration) state (fun _ next => state.cache.KeepsOrRenews next.cache)
      (fun next => state.cache.KeepsOrRenews next.cache) := by
  unfold repartition
  rw [ensures_bind, ensures_cache, ensures_bind, ensures_liftM]
  cases (liftM (partition duration state.cache.chunkDuration) :
    Except Failure (List (Window τ))) with
  | error cause => exact fun chunk h => .inl ⟨chunk, h, rfl⟩
  | ok windows =>
    dsimp only
    rw [ensures_bind, ensures_files, ensures_bind]
    refine (finishSweep_spec _ _).mono ?_ fun next same chunk h => ?_
    · rintro - middle ⟨-, hmiddle⟩
      rw [ensures_bind, ensures_cache, ensures_bind, ensures_setCache]
      have cut {next : Cache τ} (same : next = { middle.cache with
          chunks := Cache.arrange middle.cache.nextSerial 0 state.cache.chunks windows
          nextSerial := middle.cache.nextSerial + windows.length
          totalDuration := Scalar.maxOf Scalar.zero duration }) :
          state.cache.KeepsOrRenews next := by
        intro chunk h
        rw [same, hmiddle] at h
        rcases Cache.mem_arrange h with kept | ⟨-, -, new⟩
        · exact .inl ⟨chunk, kept, rfl⟩
        · exact .inr new
      exact (save_keeps _ _ rfl).mono (fun _ next => cut) fun next => cut
    · -- Some files are gone, and the cut was not made.
      rw [same] at h
      exact .inl (forall₂_mem (Cache.dropWhere_only _ _ _) h)

/-- A project is opened with new chunks only. -/
theorem openProject_renews (projectPath : Option String) (duration : τ) (projectTime : Option τ)
    (state : CacheState τ) :
    Ensures (openProject projectPath duration projectTime) state
      (fun _ next => state.cache.KeepsOrRenews next.cache)
      (fun next => state.cache.KeepsOrRenews next.cache) := by
  -- The chunks that are there when the project is opened play no part.
  let empty : CacheState τ := { state with cache := { state.cache with chunks := [] } }
  have renews {next : CacheState τ} (recut : empty.cache.Recut next.cache) :
      state.cache.KeepsOrRenews next.cache := by
    intro chunk h
    rcases recut.chunks chunk h with ⟨old, hold, -⟩ | new
    · exact absurd hold (List.not_mem_nil)
    · exact .inr new
  change Ensures (openProject projectPath duration projectTime) empty _ _
  exact (openProject_spec projectPath duration projectTime empty).mono (fun _ _ => renews)
    fun _ => renews

/-- A chunk that renders is counted up by an invalidation that comes to it, and only by that. -/
theorem invalidateWhere_countsUp (meets : Chunk τ → Bool) (state : CacheState τ)
    (orderly : state.cache.Orderly) {old new : Chunk τ} (hold : old ∈ state.cache.chunks)
    (hnew : new ∈ (leaves (invalidateWhere meets) state).cache.chunks)
    (same : new.serial = old.serial) (busy : old.status = .rendering) :
    old.CountsUp (Cache.ComesTo meets state.cache.chunks state.disk.files old) new := by
  have demoted := Cache.invalidateWhere_demoted meets state.cache.chunks state.disk.files
  rw [invalidateWhere_leaves] at hnew
  have there := orderly.getElem?_of_follows (demoted.imp fun _ _ h => h.1.toFollows) hold hnew same
  exact Cache.invalidateWhere_countsUp (orderly.getElem?_index hold) busy there

/-- Other settings invalidate everything, unless they make no difference. -/
theorem applySettings_leaves (settings : OutputFormat τ) (state : CacheState τ) :
    let changed : CacheState τ := { state with cache := { state.cache with settings } }
    leaves (applySettings settings) state =
      if state.cache.settings.sameOutput settings = true then changed
      else leaves invalidateEvery changed := by
  intro changed
  let as (next : CacheState τ) : Prop := next =
    if state.cache.settings.sameOutput settings = true then changed
    else leaves invalidateEvery changed
  suffices h : Ensures (applySettings settings) state (fun _ => as) as from h.leaves
  unfold applySettings
  rw [ensures_bind, ensures_cache, ensures_bind, ensures_setCache]
  split
  · next same => exact (if_pos same).symm
  · next differ =>
    rw [ensures_bind]
    exact ensures_leaves.mono (fun _ next h => h.trans (if_neg differ).symm)
      fun next h => h.trans (if_neg differ).symm

/-- All chunks are reset if the files of all chunks could be deleted. -/
theorem wipe_resets (state : CacheState τ) :
    let wiped (next : CacheState τ) : Prop :=
      succeeds (deleteChunkFiles (τ := τ)) state = true ∧
          next.cache = { state.cache with chunks := state.cache.chunks.map Cache.reset } ∨
        succeeds (deleteChunkFiles (τ := τ)) state = false ∧ next.cache = state.cache
    Ensures wipe state (fun _ => wiped) wiped := by
  intro wiped
  unfold wipe
  rw [ensures_bind]
  refine (deleteChunkFiles_keeps state.cache state rfl).known.mono ?_ fun next h => .inr h
  rintro - middle ⟨deleted, hmiddle⟩
  rw [ensures_bind, ensures_cache, ensures_bind, ensures_setCache, hmiddle]
  exact (save_keeps _ _ rfl).mono (fun _ _ saved => .inl ⟨deleted, saved⟩)
    fun _ saved => .inl ⟨deleted, saved⟩

/-- A chunk that renders is counted up when the files of all chunks were deleted. -/
theorem wipe_countsUp {state : CacheState τ} (orderly : state.cache.Orderly) {old new : Chunk τ}
    (hold : old ∈ state.cache.chunks) (hnew : new ∈ (leaves wipe state).cache.chunks)
    (same : new.serial = old.serial) (busy : old.status = .rendering) :
    old.CountsUp (succeeds (deleteChunkFiles (τ := τ)) state = true) new := by
  rcases (wipe_resets state).leaves with ⟨deleted, wiped⟩ | ⟨failed, kept⟩
  · rw [wiped] at hnew
    obtain ⟨other, hother, rfl⟩ := List.mem_map.mp hnew
    obtain rfl := orderly.eq_of_serial hother hold ((Cache.reset_demoted other).serial ▸ same)
    exact .inl ⟨deleted, by simp [Cache.reset, busy]⟩
  · rw [kept] at hnew
    obtain rfl := orderly.eq_of_serial hnew hold same
    exact .inr ⟨by simp [failed], rfl⟩

end CacheAction

namespace CacheChange

variable [Scalar τ]

/-- Every change cuts the cache anew at most, perhaps for another output. -/
theorem recuts (change : CacheChange τ) (state : CacheState τ) :
    Ensures change.action state
      (fun _ next => ∃ settings, { state.cache with settings }.Recut next.cache)
      (fun next => ∃ settings, { state.cache with settings }.Recut next.cache) := by
  have demoted {α : Type} {action : CacheAction τ α}
      (spec : Ensures action state (fun _ next => state.cache.Demotes next.cache)
        (fun next => state.cache.Demotes next.cache)) :
      Ensures (do let _ ← action) state
        (fun _ next => ∃ settings, { state.cache with settings }.Recut next.cache)
        (fun next => ∃ settings, { state.cache with settings }.Recut next.cache) := by
    apply ensures_map.mpr
    exact spec.mono (fun _ _ h => ⟨state.cache.settings, h.toRecut⟩)
      fun _ h => ⟨state.cache.settings, h.toRecut⟩
  cases change with
  | repartition duration =>
    exact (CacheAction.repartition_spec duration state).mono
      (fun _ _ h => ⟨state.cache.settings, h⟩) fun _ h => ⟨state.cache.settings, h⟩
  | openProject path duration time =>
    exact (CacheAction.openProject_spec path duration time state).mono
      (fun _ _ h => ⟨state.cache.settings, h⟩) fun _ h => ⟨state.cache.settings, h⟩
  | invalidate start stop =>
    exact demoted ((CacheAction.invalidateWhere_spec _ state).mono (fun _ _ h => h.1) fun _ => id)
  | invalidateEvery =>
    exact demoted ((CacheAction.invalidateWhere_spec _ state).mono (fun _ _ h => h.1) fun _ => id)
  | applySettings settings =>
    apply ensures_map.mpr
    exact (CacheAction.applySettings_spec settings state).mono
      (fun _ _ h => ⟨settings, h.2.1.toRecut⟩) fun _ h => ⟨settings, h.toRecut⟩
  | wipe =>
    exact (CacheAction.wipe_spec state).mono (fun _ _ h => ⟨state.cache.settings, h.toRecut⟩)
      fun _ h => ⟨state.cache.settings, h.toRecut⟩
  | setFiles files => exact ⟨state.cache.settings, .refl _⟩

/-- The generation of a chunk that renders is counted up by what outdates it and by nothing else. -/
theorem countsUp (change : CacheChange τ) {state : CacheState τ} (orderly : state.cache.Orderly)
    {old new : Chunk τ} (hold : old ∈ state.cache.chunks)
    (hnew : new ∈ (leaves change.action state).cache.chunks) (same : new.serial = old.serial)
    (busy : old.status = .rendering) : old.CountsUp (change.Outdates state old) new := by
  cases change with
  | repartition duration =>
    exact (CacheAction.repartition_keeps duration state).leaves.countsUp orderly hold hnew same
  | openProject path duration time =>
    have renews := (CacheAction.openProject_renews path duration time state).leaves
    exact renews.countsUp orderly hold hnew same
  | invalidate start stop =>
    rw [action, leaves_discard] at hnew
    exact CacheAction.invalidateWhere_countsUp _ state orderly hold hnew same busy
  | invalidateEvery =>
    rw [action, leaves_discard] at hnew
    exact CacheAction.invalidateWhere_countsUp _ state orderly hold hnew same busy
  | applySettings settings =>
    rw [action, leaves_discard, CacheAction.applySettings_leaves] at hnew
    dsimp only at hnew
    split at hnew
    · next unchanged =>
      obtain rfl := orderly.eq_of_serial hnew hold same
      exact .inr ⟨fun outdated => absurd (outdated.1.symm.trans unchanged) (by simp), rfl⟩
    · next changed =>
      have counted := CacheAction.invalidateWhere_countsUp (fun _ => true)
        { state with cache := { state.cache with settings } }
        ⟨orderly.placed, orderly.distinct, orderly.numbered, orderly.begun⟩ hold hnew same busy
      rw [Bool.not_eq_true] at changed
      simpa only [Outdates, changed, true_and] using counted
  | wipe => exact CacheAction.wipe_countsUp orderly hold hnew same busy
  | setFiles files =>
    obtain rfl := orderly.eq_of_serial hnew hold same
    exact .inr ⟨id, rfl⟩

end CacheChange

end Montage
