import Montage.Proofs.Chunk.Cache

/-!
# What each action on a cache leaves

One statement for each action: what holds of the cache when the action returns, and what holds when
it fails. An action that renders nothing cuts the cache anew at most, even when it fails half way;
the end of a render changes one chunk, and only if it was rendering.
-/

namespace Montage

variable {τ : Type}

namespace CacheAction

section Steps

variable {state : CacheState τ} {fails : CacheState τ → Prop}

theorem ensures_cache {returns : Cache τ → CacheState τ → Prop} :
    Ensures cache state returns fails ↔ returns state.cache state := Iff.rfl

theorem ensures_files {returns : FileTree → CacheState τ → Prop} :
    Ensures files state returns fails ↔ returns state.disk.files state := Iff.rfl

theorem ensures_setCache {cache : Cache τ} {returns : Unit → CacheState τ → Prop} :
    Ensures (setCache cache) state returns fails ↔ returns () { state with cache } := Iff.rfl

theorem ensures_setFiles {files : FileTree} {returns : Unit → CacheState τ → Prop} :
    Ensures (setFiles files) state returns fails ↔
      returns () { state with disk := { state.disk with files } } := Iff.rfl

theorem ensures_chunkAt {index : Int} {returns : Chunk τ → CacheState τ → Prop} :
    Ensures (chunkAt index) state returns fails ↔
      match state.cache.get index with
      | .ok chunk => returns chunk state
      | .error _ => fails state := by
  unfold chunkAt
  rw [ensures_bind, ensures_cache]
  cases state.cache.get index <;> rfl

theorem ensures_putChunk {chunk : Chunk τ} {returns : Unit → CacheState τ → Prop} :
    Ensures (putChunk chunk) state returns fails ↔
      returns () { state with cache := state.cache.put chunk } := Iff.rfl

end Steps

/-- A change of the files leaves the cache alone. -/
theorem onFiles_keeps (c : Cache τ) (change : FileTree → Except FileError FileTree) :
    Keeps (fun state => state.cache = c) (onFiles change) := by
  intro state h
  unfold onFiles
  rw [ensures_bind, ensures_files]
  cases change state.disk.files with
  | ok files => exact h
  | error cause => exact h

/-- Writing the manifest leaves the cache alone. -/
theorem save_keeps [Scalar τ] (c : Cache τ) : Keeps (fun state => state.cache = c) save := by
  unfold save
  refine Keeps.bind (fun _ h => h) fun cache => Keeps.bind (fun _ h => h) fun state => ?_
  refine Keeps.bind (Keeps.forIn (fun step _ => ?_) _ _) fun _ => Keeps.pure
  refine Keeps.bind (onFiles_keeps c step) fun result => ?_
  cases result with
  | ok _ => exact Keeps.pure
  | error cause => exact Keeps.throw

theorem deleteChunkFiles_keeps (c : Cache τ) :
    Keeps (fun state => state.cache = c) deleteChunkFiles := by
  unfold deleteChunkFiles
  refine Keeps.bind (fun _ h => h) fun cache => Keeps.bind (fun _ h => h) fun files => ?_
  refine Keeps.bind (Keeps.forIn (fun name _ => ?_) _ _) fun _ => Keeps.pure
  split
  · refine Keeps.bind (onFiles_keeps c _) fun result => ?_
    cases result with
    | ok _ => exact Keeps.pure
    | error cause => exact Keeps.throw
  · exact Keeps.pure

theorem finishSweep_spec (sweep : Cache.Sweep τ) (state : CacheState τ) :
    Ensures (finishSweep sweep) state
      (fun _ next => sweep.failure = none ∧ next.cache = { state.cache with chunks := sweep.chunks })
      (fun next => next.cache = { state.cache with chunks := sweep.chunks }) := by
  unfold finishSweep
  rw [ensures_bind, ensures_setFiles, ensures_bind, ensures_modify]
  split
  · exact rfl
  · next none => exact ⟨Option.eq_none_iff_forall_ne_some.mpr none, rfl⟩

section Recut

variable [Scalar τ] {state : CacheState τ}

/-- An invalidation demotes chunks. If it returns, nothing that it is about is valid any more. -/
theorem invalidateWhere_spec (meets : Chunk τ → Bool) (state : CacheState τ) :
    Ensures (invalidateWhere meets) state
      (fun _ next => state.cache.Demotes next.cache ∧
        List.Forall₂ (fun before after => before.Demoted after ∧
          (meets before = true → before.Outdated after)) state.cache.chunks next.cache.chunks)
      (fun next => state.cache.Demotes next.cache) := by
  unfold invalidateWhere
  rw [ensures_bind, ensures_cache, ensures_bind, ensures_files]
  have demoted := Cache.invalidateWhere_demoted meets state.cache.chunks state.disk.files
  have recut : state.cache.Demotes { state.cache with
      chunks := (Cache.invalidateWhere meets state.cache.chunks state.disk.files).chunks } :=
    .of_forall₂ (demoted.imp fun _ _ h => h.1) rfl rfl
  rw [ensures_bind]
  refine (finishSweep_spec _ _).mono ?_ fun next h => h ▸ recut
  rintro - middle ⟨ends, hmiddle⟩
  have outdated := demoted.imp fun _ _ h => And.intro h.1 (h.2 ends)
  have saved : Ensures save middle (fun _ next => next.cache = middle.cache)
      (fun next => next.cache = middle.cache) := save_keeps middle.cache middle rfl
  dsimp only
  split
  · rw [ensures_bind]
    refine saved.mono (fun _ next h => ?_) fun next h => ?_
    · rw [ensures_pure, h, hmiddle]
      exact ⟨recut, outdated⟩
    · rw [h, hmiddle]
      exact recut
  · rw [ensures_pure, hmiddle]
    exact ⟨recut, outdated⟩

/-- Settings that make a difference leave nothing valid. -/
theorem applySettings_spec (settings : OutputFormat τ) (state : CacheState τ) :
    Ensures (applySettings settings) state
      (fun changed next => changed = !state.cache.settings.sameOutput settings ∧
        { state.cache with settings }.Demotes next.cache ∧
        (changed = true → List.Forall₂ (fun before after => before.Demoted after ∧
          before.Outdated after) state.cache.chunks next.cache.chunks))
      (fun next => { state.cache with settings }.Demotes next.cache) := by
  unfold applySettings
  rw [ensures_bind, ensures_cache, ensures_bind, ensures_setCache]
  split
  · next same => exact ⟨by simp [same], .refl _, by simp⟩
  · next differ =>
    unfold invalidateEvery
    rw [ensures_bind]
    refine (invalidateWhere_spec _ _).mono (fun _ next h => ?_) fun next h => h
    exact ⟨by simp [differ], h.1, fun _ => h.2.imp fun _ _ h => ⟨h.1, h.2 rfl⟩⟩

/-- A cut that goes wrong leaves the chunks as they were, without some of their files. -/
theorem repartition_spec (duration : τ) (state : CacheState τ) :
    Ensures (repartition duration) state (fun _ next => state.cache.Recut next.cache)
      (fun next => state.cache.Recut next.cache) := by
  unfold repartition
  rw [ensures_bind, ensures_cache, ensures_bind, ensures_liftM]
  cases (liftM (partition duration state.cache.chunkDuration) :
    Except Failure (List (Window τ))) with
  | error cause => exact .refl _
  | ok windows =>
    dsimp only
    have demoted := Cache.dropWhere_demoted (fun chunk => !Cache.stays windows chunk)
      state.cache.chunks state.disk.files
    rw [ensures_bind, ensures_files, ensures_bind]
    have stripped : state.cache.Demotes { state.cache with
        chunks := (Cache.dropWhere (fun chunk => !Cache.stays windows chunk) state.cache.chunks
          state.disk.files).chunks } := .of_forall₂ demoted rfl rfl
    refine (finishSweep_spec _ _).mono ?_ fun next h => h ▸ stripped.toRecut
    rintro - middle ⟨-, hmiddle⟩
    rw [ensures_bind, ensures_cache, ensures_bind, ensures_setCache]
    have recut : state.cache.Recut { middle.cache with
        chunks := Cache.arrange middle.cache.nextSerial 0 state.cache.chunks windows
        nextSerial := middle.cache.nextSerial + windows.length
        totalDuration := Scalar.maxOf Scalar.zero duration } := by
      rw [hmiddle]
      exact Cache.Recut.arrange rfl rfl rfl
    exact (save_keeps _ _ rfl).mono (fun _ next h => h ▸ recut) fun next h => h ▸ recut

/-- A read of the manifest leaves the state as it is. -/
theorem readManifest_spec (state : CacheState τ) :
    Ensures readManifest state (fun _ next => next = state) (fun next => next = state) := by
  unfold readManifest
  rw [ensures_bind, ensures_cache]
  dsimp only
  rw [ensures_bind, ensures_files]
  split
  · rfl
  · split
    · rfl
    · rfl

theorem findManifest_spec (state : CacheState τ) :
    Ensures findManifest state (fun _ next => state.cache.Resembles next.cache)
      (fun next => state.cache.Resembles next.cache) := by
  unfold findManifest
  rw [ensures_bind]
  refine (readManifest_spec state).mono ?_ fun next h => h ▸ .refl _
  rintro found middle rfl
  cases found with
  | none => exact .refl _
  | some manifest => exact ⟨rfl, rfl, rfl⟩

/-- What a manifest records makes new chunks valid at most. -/
theorem recover_spec (found : Option (Manifest τ)) (fresh : List (Chunk τ))
    (state : CacheState τ) :
    Ensures (recover found fresh) state
      (fun chunks next => List.Forall₂ Chunk.Restored fresh chunks ∧
        state.cache.Resembles next.cache)
      (fun next => state.cache.Resembles next.cache) := by
  have same : List.Forall₂ Chunk.Restored fresh fresh :=
    List.forall₂_same.mpr fun chunk _ => ⟨.refl chunk, .inl rfl⟩
  unfold recover
  cases found with
  | none => exact ⟨same, .refl _⟩
  | some manifest =>
    dsimp only
    rw [ensures_bind, ensures_cache]
    split
    · rw [ensures_bind, ensures_files]
      split
      · next hrestore => exact ⟨restore_restored same hrestore, .refl _⟩
      · exact Cache.Resembles.refl _
    · rw [ensures_bind]
      refine (deleteChunkFiles_keeps state.cache state rfl).mono ?_ fun next h => h ▸ .refl _
      rintro - middle hmiddle
      exact ⟨same, by rw [← hmiddle]; exact ⟨rfl, rfl, rfl⟩⟩

/-- A project is opened with new chunks, some of which were found on disk. -/
theorem openProject_spec (projectPath : Option String) (duration : τ) (projectTime : Option τ)
    (state : CacheState τ) :
    Ensures (openProject projectPath duration projectTime) state
      (fun _ next => state.cache.Recut next.cache)
      (fun next => state.cache.Recut next.cache) := by
  unfold openProject
  rw [ensures_bind, ensures_cache, ensures_bind, ensures_setCache, ensures_bind]
  refine (findManifest_spec _).mono ?_ fun next h => ?_
  · rintro found opened alike
    rw [ensures_bind, ensures_cache, ensures_bind, ensures_liftM]
    cases (liftM (partition duration opened.cache.chunkDuration) :
      Except Failure (List (Window τ))) with
    | error cause => exact .empty alike.chunks (Nat.le_of_eq alike.nextSerial.symm) alike.settings
    | ok windows =>
      dsimp only
      rw [ensures_bind, ensures_setCache, ensures_bind]
      refine (recover_spec _ _ _).mono ?_ fun next h => ?_
      · rintro chunks middle ⟨restored, alike'⟩
        rw [ensures_bind, ensures_cache, ensures_bind, ensures_setCache]
        have recut : state.cache.Recut { middle.cache with
            chunks, totalDuration := Scalar.maxOf Scalar.zero duration } := by
          refine .restored (alike.nextSerial ▸ restored) ?_ (alike'.settings.trans alike.settings)
          exact alike'.nextSerial.trans (congrArg (· + windows.length) alike.nextSerial)
        exact (save_keeps _ _ rfl).mono (fun _ next h => h ▸ recut) fun next h => h ▸ recut
      · refine .empty (h.chunks.trans alike.chunks) ?_ (h.settings.trans alike.settings)
        rw [h.nextSerial, ← alike.nextSerial]
        exact Nat.le_add_right _ _
  · exact .empty h.chunks (Nat.le_of_eq h.nextSerial.symm) h.settings

/-- Forgetting what was rendered demotes every chunk. -/
theorem wipe_spec (state : CacheState τ) :
    Ensures wipe state (fun _ next => state.cache.Demotes next.cache)
      (fun next => state.cache.Demotes next.cache) := by
  unfold wipe
  rw [ensures_bind]
  refine (deleteChunkFiles_keeps state.cache state rfl).mono ?_ fun next h => h ▸ .refl _
  intro _ middle hmiddle
  rw [ensures_bind, ensures_cache, ensures_bind, ensures_setCache]
  have recut : state.cache.Demotes
      { middle.cache with chunks := middle.cache.chunks.map Cache.reset } := by
    rw [hmiddle]
    refine .of_forall₂ ?_ rfl rfl
    exact List.forall₂_map_right_iff.mpr
      (List.forall₂_same.mpr fun chunk _ => Cache.reset_demoted chunk)
  exact (save_keeps _ _ rfl).mono (fun _ next h => h ▸ recut) fun next h => h ▸ recut

end Recut

section Concludes

variable [Scalar τ] (index : Int) (contentHash : Option String)

omit [Scalar τ] in
/-- A chunk that loses its file stays what it is otherwise. -/
theorem dropStale_spec (chunk : Chunk τ) (state : CacheState τ) :
    Ensures (dropStale chunk) state
      (fun dropped next => dropped = { chunk with outputPath := dropped.outputPath } ∧
        next.cache = state.cache)
      (fun next => next.cache = state.cache) := by
  unfold dropStale
  split
  · exact ⟨rfl, rfl⟩
  · rw [ensures_bind, ensures_files]
    split
    · next hdrop => exact ⟨Cache.dropOutput_eq hdrop, rfl⟩
    · rfl

/-- A render that is done makes its chunk valid at most, with the hash of what was rendered. -/
theorem finishRender_spec (outputPath : String) (isComplex : Option Bool) (state : CacheState τ) :
    let leads (old new : Chunk τ) : Prop :=
      new.status ≠ .error ∧ new.contentHash = (contentHash <|> old.contentHash)
    Ensures (finishRender index outputPath contentHash isComplex) state
      (fun _ next => state.cache.Concludes next.cache index leads)
      (fun next => state.cache.Concludes next.cache index leads) := by
  intro leads
  unfold finishRender
  rw [ensures_bind, ensures_chunkAt]
  split
  · next old hold =>
    split
    · exact .inl rfl
    · next busy =>
      have concluded := Cache.endRender_concluded (not_not.mp busy) outputPath contentHash isComplex
      have led : leads old (Cache.endRender old outputPath contentHash isComplex) := by
        refine ⟨?_, rfl⟩
        unfold Cache.endRender
        dsimp only
        split <;> simp
      have put {next : Cache τ}
          (h : next = state.cache.put (Cache.endRender old outputPath contentHash isComplex)) :
          state.cache.Concludes next index leads := .inr ⟨old, _, hold, concluded, led, h⟩
      dsimp only
      rw [ensures_bind, ensures_putChunk, ensures_bind]
      refine (dropStale_spec _ _).mono ?_ fun next h => put h
      rintro dropped middle ⟨hdropped, hmiddle⟩
      rw [ensures_bind, ensures_putChunk, ensures_bind]
      -- The chunk is written twice, and the second time only its stale output is gone.
      have ended : state.cache.Concludes
          (middle.cache.put { dropped with renderGeneration := none }) index leads := by
        rw [hmiddle, Cache.put_put (by rw [hdropped]), hdropped]
        refine .inr ⟨old, _, hold, ?_, ?_, rfl⟩
        · exact ⟨rfl, rfl, rfl, rfl, rfl, .inl rfl, concluded.busy, concluded.status,
            concluded.fresh⟩
        · exact led
      refine (save_keeps _ _ rfl).mono (fun _ next h => ?_) fun next h => h ▸ ended
      rw [ensures_pure, h]
      exact ended
  · exact .inl rfl

/-- A render that is recorded as done leaves its chunk valid, or stale if it was invalidated. -/
theorem finishRender_returns (outputPath : String) (isComplex : Option Bool)
    (state : CacheState τ) :
    Ensures (finishRender index outputPath contentHash isComplex) state
      (fun ended next => (ended.status = .valid ∨ ended.status = .stale) ∧
        ∃ old, state.cache.get index = .ok old ∧ old.status = .rendering ∧
          (ended.status = .stale ↔ old.renderGeneration ≠ some old.generation) ∧
          ended.serial = old.serial ∧ ended.index = old.index ∧
          next.cache = state.cache.put ended)
      (fun _ => True) := by
  unfold finishRender
  rw [ensures_bind, ensures_chunkAt]
  split
  · next old found =>
    split
    · trivial
    · next busy =>
      have status : (Cache.endRender old outputPath contentHash isComplex).status = .valid ∨
          (Cache.endRender old outputPath contentHash isComplex).status = .stale := by
        unfold Cache.endRender
        dsimp only
        split <;> simp
      have stale : (Cache.endRender old outputPath contentHash isComplex).status = .stale ↔
          old.renderGeneration ≠ some old.generation := by
        unfold Cache.endRender
        dsimp only
        split
        · next current => exact iff_of_false (by simp) (not_not.mpr current)
        · next outdated => exact iff_of_true rfl outdated
      dsimp only
      rw [ensures_bind, ensures_putChunk, ensures_bind]
      refine (dropStale_spec _ _).mono ?_ fun _ _ => trivial
      rintro dropped middle ⟨hdropped, hmiddle⟩
      rw [ensures_bind, ensures_putChunk, ensures_bind]
      refine (save_keeps _ _ rfl).mono (fun _ next hnext => ?_) fun _ _ => trivial
      rw [ensures_pure, hnext, hmiddle, Cache.put_put (by rw [hdropped]), hdropped]
      exact ⟨status, old, found, not_not.mp busy, stale, rfl, rfl, rfl⟩
  · trivial

/-- A render that has failed leaves an error, with the hash of what was to be shown. -/
theorem failRender_spec (message : String) (state : CacheState τ) :
    let leads (_ new : Chunk τ) : Prop := new.status = .error ∧ new.failedHash = contentHash
    Ensures (failRender index message contentHash) state
      (fun _ next => state.cache.Concludes next.cache index leads)
      (fun next => state.cache.Concludes next.cache index leads) := by
  intro leads
  unfold failRender
  rw [ensures_bind, ensures_chunkAt]
  split
  · next old hold =>
    split
    · exact .inl rfl
    · next allowed =>
      have busy : old.status = .rendering := by
        cases hstatus : old.status <;> simp [hstatus, ChunkState.allows] at allowed ⊢
      dsimp only
      rw [ensures_bind, ensures_putChunk, ensures_bind]
      have failed {next : Cache τ} (h : next = state.cache.put { old with
          status := .error, error := some message, failedHash := contentHash
          renderGeneration := none }) : state.cache.Concludes next index leads := by
        refine .inr ⟨old, _, hold, ?_, ?_, h⟩
        · exact ⟨rfl, rfl, rfl, rfl, rfl, .inl rfl, busy, by simp, by simp⟩
        · exact ⟨rfl, rfl⟩
      exact (save_keeps _ _ rfl).mono (fun _ next h => failed h) fun next h => failed h
  · exact .inl rfl

/-- A render that is recorded as failed leaves its chunk with an error. -/
theorem failRender_returns (message : String) (state : CacheState τ) :
    Ensures (failRender index message contentHash) state
      (fun ended next => ended.status = .error ∧
        ∃ old, state.cache.get index = .ok old ∧ ended.serial = old.serial ∧
          ended.index = old.index ∧ next.cache = state.cache.put ended)
      (fun _ => True) := by
  unfold failRender
  rw [ensures_bind, ensures_chunkAt]
  split
  · next old found =>
    split
    · trivial
    · dsimp only
      rw [ensures_bind, ensures_putChunk, ensures_bind]
      refine (save_keeps _ _ rfl).mono (fun _ next hnext => ?_) fun _ _ => trivial
      rw [ensures_pure, hnext]
      exact ⟨rfl, old, found, rfl, rfl, rfl⟩
  · trivial

end Concludes

end CacheAction

end Montage
