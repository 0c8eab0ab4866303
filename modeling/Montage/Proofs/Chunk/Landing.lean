import Montage.Proofs.Chunk.Sweep

/-!
# The end of a render

A render that is recorded as done leaves its chunk valid, or stale if the chunk was invalidated since
the render began. A stale chunk loses its file before the manifest is written. Whatever fails on the
way, the chunk does not render any more.

## Main definitions

* `CacheAction.Recorded` — what is recorded of a render that is done
* `CacheAction.Settles` — a chunk that was rendering does not render any more

## Main results

* `CacheAction.finishRender_records` — the end of a render compares two numbers
* `CacheAction.finishRender_settles`, `CacheAction.failRender_settles` — a chunk whose render has ended
  does not render, even if the end fails half way
-/

namespace Montage

variable {τ : Type}

/-- A state with a chunk in its place, and with other files. -/
def CacheState.noted (state : CacheState τ) (chunk : Chunk τ) (files : FileTree) :
    CacheState τ where
  cache := state.cache.put chunk
  disk := { state.disk with files }

theorem CacheState.noted_noted (state : CacheState τ) {chunk other : Chunk τ}
    (serial : chunk.serial = other.serial) (files files' : FileTree) :
    (state.noted other files').noted chunk files = state.noted chunk files :=
  congrArg (CacheState.mk · { state.disk with files }) (Cache.put_put serial)

namespace CacheAction

/-- A stale chunk loses its file, or the file cannot be removed. -/
theorem ensures_dropStale {chunk : Chunk τ} (stale : chunk.status ≠ .valid) {state : CacheState τ}
    {returns : Chunk τ → CacheState τ → Prop} {fails : CacheState τ → Prop} :
    Ensures (dropStale chunk) state returns fails ↔
      match FileTree.removeEach chunk.output?.toList state.disk.files with
      | .ok files => returns
          { chunk with outputPath := if chunk.output? = none then chunk.outputPath else none }
          { state with disk := { state.disk with files } }
      | .error _ => fails state := by
  have dropped := Cache.dropOutput_cases chunk state.disk.files
  unfold dropStale
  rw [if_neg stale, ensures_bind, ensures_files]
  cases removed : FileTree.removeEach chunk.output?.toList state.disk.files with
  | ok files =>
    rw [removed] at dropped
    rw [dropped]
    rfl
  | error cause =>
    rw [removed] at dropped
    rw [dropped]
    rfl

section Finish

variable [Scalar τ] {state : CacheState τ} {index : Int} {chunk : Chunk τ}
  (found : state.cache.get index = .ok chunk) (path : String) (contentHash : Option String)
  (isComplex : Option Bool)

include found

/-- A chunk that is not being rendered takes nothing that was rendered. -/
theorem finishRender_idle (idle : chunk.status ≠ .rendering) :
    finishRender index path contentHash isComplex state =
      .error (.render (Cache.refusal chunk .valid)) state := by
  have read : chunkAt index state = .ok chunk state := by
    unfold chunkAt
    have there : (cache : CacheAction τ (Cache τ)) state = .ok state.cache state := rfl
    change EStateM.bind cache _ state = _
    rw [EStateM.bind, there]
    dsimp only
    rw [found]
    rfl
  unfold finishRender
  change EStateM.bind (chunkAt index) _ state = _
  rw [EStateM.bind, read]
  dsimp only
  rw [if_pos idle]
  rfl

variable (busy : chunk.status = .rendering)

include busy

/-- What is rendered is recorded, a stale chunk loses its file, and the manifest is written. -/
theorem ensures_finishRender {returns fails : CacheState τ → Prop} :
    Ensures (finishRender index path contentHash isComplex) state (fun _ => returns) fails ↔
      Ensures (dropStale (Cache.endRender chunk path contentHash isComplex))
        (state.noted (Cache.endRender chunk path contentHash isComplex) state.disk.files)
        (fun dropped middle =>
          Ensures save (middle.noted { dropped with renderGeneration := none } middle.disk.files)
            (fun _ => returns) fails)
        fails := by
  unfold finishRender
  rw [ensures_bind, ensures_chunkAt, found]
  dsimp only
  rw [if_neg (not_not.mpr busy), ensures_bind, ensures_putChunk, ensures_bind]
  refine iff_of_eq (congrArg (Ensures _ _ · _) ?_)
  funext dropped middle
  rw [ensures_bind, ensures_putChunk, ensures_bind]
  rfl

/-- A render that is not outdated is valid when it is recorded as done. -/
theorem finishRender_current (current : chunk.renderGeneration = some chunk.generation) :
    let ended := Cache.endRender chunk path contentHash isComplex
    leaves (finishRender index path contentHash isComplex) state =
      leaves save (state.noted { ended with renderGeneration := none } state.disk.files) := by
  intro ended
  have valid : ended.status = .valid := if_pos current
  let noted (next : CacheState τ) : Prop :=
    next = leaves save (state.noted { ended with renderGeneration := none } state.disk.files)
  suffices h : Ensures (finishRender index path contentHash isComplex) state (fun _ => noted) noted
    from h.leaves
  apply (ensures_finishRender found path contentHash isComplex busy).mpr
  unfold dropStale
  rw [if_pos valid, ensures_pure]
  change Ensures save ((state.noted ended state.disk.files).noted
    { ended with renderGeneration := none } state.disk.files) _ _
  rw [CacheState.noted_noted]
  · exact ensures_leaves
  · rfl

/-- A render that is outdated leaves its chunk stale and without its file when it is recorded as done.
If the file cannot be removed, the manifest is not written. -/
theorem finishRender_outdated (outdated : chunk.renderGeneration ≠ some chunk.generation) :
    let ended := Cache.endRender chunk path contentHash isComplex
    match FileTree.removeEach ended.output?.toList state.disk.files with
    | .ok files =>
      let outputPath := if ended.output? = none then ended.outputPath else none
      leaves (finishRender index path contentHash isComplex) state =
        leaves save (state.noted { ended with outputPath, renderGeneration := none } files)
    | .error _ => succeeds (finishRender index path contentHash isComplex) state = false ∧
        leaves (finishRender index path contentHash isComplex) state =
          state.noted ended state.disk.files := by
  intro ended
  have stale : ended.status = .stale := if_neg outdated
  have removal (files : FileTree) : (state.noted ended files).disk.files = files := rfl
  cases removed : FileTree.removeEach ended.output?.toList state.disk.files with
  | ok files =>
    let dropped := { ended with outputPath := if ended.output? = none then ended.outputPath else none }
    let noted (next : CacheState τ) : Prop :=
      next = leaves save (state.noted { dropped with renderGeneration := none } files)
    suffices h : Ensures (finishRender index path contentHash isComplex) state (fun _ => noted)
        noted from h.leaves
    rw [ensures_finishRender found path contentHash isComplex busy,
      ensures_dropStale (by rw [stale]; decide), removal, removed]
    change Ensures save ((state.noted ended files).noted
      { dropped with renderGeneration := none } files) _ _
    rw [CacheState.noted_noted]
    · exact ensures_leaves
    · rfl
  | error cause =>
    have fails : Ensures (finishRender index path contentHash isComplex) state
        (fun _ _ => False) (fun next => next = state.noted ended state.disk.files) := by
      rw [ensures_finishRender found path contentHash isComplex busy,
        ensures_dropStale (by rw [stale]; decide), removal, removed]
    rcases fails.ends with ⟨-, never⟩ | failed
    · exact never.elim
    · exact failed

end Finish

/-- What is recorded of a render that is done. A chunk whose render is outdated is stale, and its file
is gone before the manifest is written, unless it cannot be removed. -/
structure Recorded [Scalar τ] (path : String) (outdated : Prop) (state : CacheState τ)
    (ended : Chunk τ) (next : CacheState τ) : Prop where
  cache : next.cache = state.cache.put ended
  valid : ended.status = .valid ↔ ¬outdated
  stale : ended.status = .stale ↔ outdated
  kept : ¬outdated → ended.outputPath = some path ∧
    next = leaves save (state.noted ended state.disk.files)
  gone : outdated → (∃ cause, state.disk.files.remove (Path.ofText path).text = .error cause) ∧
      next = state.noted ended state.disk.files ∨
    ended.output? = none ∧ ∃ files, next = leaves save (state.noted ended files) ∧
      (path ≠ "" → files.pathExists (Path.ofText path).text = false)

/-- A chunk that was rendering does not render any more, and the others are as they were. -/
def Settles (chunk : Chunk τ) (state next : CacheState τ) : Prop :=
  ∃ ended, ended.serial = chunk.serial ∧ ended.index = chunk.index ∧ ended.status ≠ .rendering ∧
    next.cache = state.cache.put ended

section Landing

variable [Scalar τ]

theorem Recorded.of_outdated {path : String} {outdated : Prop} {state next : CacheState τ}
    {ended : Chunk τ} (h : outdated) (stale : ended.status = .stale)
    (cache : next.cache = state.cache.put ended)
    (gone : (∃ cause, state.disk.files.remove (Path.ofText path).text = .error cause) ∧
        next = state.noted ended state.disk.files ∨
      ended.output? = none ∧ ∃ files, next = leaves save (state.noted ended files) ∧
        (path ≠ "" → files.pathExists (Path.ofText path).text = false)) :
    Recorded path outdated state ended next where
  cache := cache
  valid := iff_of_false (by simp [stale]) (not_not.mpr h)
  stale := iff_of_true stale h
  kept current := absurd h current
  gone _ := gone

variable {state : CacheState τ} {index : Int} {chunk : Chunk τ}
  (found : state.cache.get index = .ok chunk) (busy : chunk.status = .rendering) (path : String)
  (contentHash : Option String) (isComplex : Option Bool)

include found busy

/-- The end of a render compares two numbers. -/
theorem finishRender_records :
    ∃ ended, ended.serial = chunk.serial ∧ ended.index = chunk.index ∧
      Recorded path (chunk.renderGeneration ≠ some chunk.generation) state ended
        (leaves (finishRender index path contentHash isComplex) state) := by
  set ended := Cache.endRender chunk path contentHash isComplex with hended
  by_cases current : chunk.renderGeneration = some chunk.generation
  · have next := finishRender_current found path contentHash isComplex busy current
    have valid : ended.status = .valid := if_pos current
    refine ⟨{ ended with renderGeneration := none }, rfl, rfl, ?_, ?_, ?_, ?_, ?_⟩
    · rw [next]
      exact (save_keeps _ _ rfl).leaves
    · exact iff_of_true valid (not_not.mpr current)
    · exact iff_of_false (by simp [valid]) (not_not.mpr current)
    · exact fun _ => ⟨rfl, next⟩
    · exact fun outdated => absurd current outdated
  · have stale : ended.status = .stale := if_neg current
    have next := finishRender_outdated found path contentHash isComplex busy current
    have output : ended.output? = if path = "" then none else some path := by
      simp [ended, Cache.endRender, Chunk.output?, Option.filter]
    dsimp only at next
    rw [← hended, output] at next
    by_cases given : path = ""
    · -- There is no file to be removed.
      rw [if_pos given] at next
      refine ⟨{ ended with renderGeneration := none }, rfl, rfl,
        .of_outdated current stale ?_ (.inr ?_)⟩
      · exact (congrArg CacheState.cache next).trans (save_keeps _ _ rfl).leaves
      · exact ⟨output.trans (if_pos given), state.disk.files, next, fun some => absurd given some⟩
    · have one : FileTree.removeEach (some path).toList state.disk.files =
          state.disk.files.remove (Path.ofText path).text := by
        simp [FileTree.removeEach]
      rw [if_neg given, one] at next
      cases removed : state.disk.files.remove (Path.ofText path).text with
      | ok files =>
        rw [removed] at next
        refine ⟨{ ended with outputPath := none, renderGeneration := none }, rfl, rfl,
          .of_outdated current stale ?_ (.inr ?_)⟩
        · exact (congrArg CacheState.cache next).trans (save_keeps _ _ rfl).leaves
        · exact ⟨rfl, files, next, fun _ => FileTree.pathExists_remove removed⟩
      | error cause =>
        rw [removed] at next
        exact ⟨ended, rfl, rfl, .of_outdated current stale (congrArg CacheState.cache next.2)
          (.inl ⟨⟨cause, removed⟩, next.2⟩)⟩

/-- A chunk does not render when the end of its render is recorded, and neither when that fails. -/
theorem finishRender_settles :
    Ensures (finishRender index path contentHash isComplex) state (fun _ => Settles chunk state)
      (Settles chunk state) := by
  obtain ⟨ended, serial, place, recorded⟩ :=
    finishRender_records found busy path contentHash isComplex
  have idle : ended.status ≠ .rendering := by
    intro busy
    by_cases outdated : chunk.renderGeneration ≠ some chunk.generation
    · exact absurd (busy.symm.trans (recorded.stale.mpr outdated)) (by decide)
    · exact absurd (busy.symm.trans (recorded.valid.mpr outdated)) (by decide)
  have settles {next : CacheState τ}
      (same : next = leaves (finishRender index path contentHash isComplex) state) :
      Settles chunk state next := ⟨ended, serial, place, idle, same ▸ recorded.cache⟩
  exact ensures_leaves.mono (fun _ _ => settles) fun _ => settles

/-- A chunk does not render when its render failed. -/
theorem failRender_settles (message : String) :
    Ensures (failRender index message contentHash) state (fun _ => Settles chunk state)
      (Settles chunk state) := by
  unfold failRender
  rw [ensures_bind, ensures_chunkAt, found]
  dsimp only
  rw [if_neg (by simp [busy, ChunkState.allows]), ensures_bind, ensures_putChunk, ensures_bind]
  let failed : Chunk τ := { chunk with
    status := .error, error := some message, failedHash := contentHash, renderGeneration := none }
  have settles {next : CacheState τ} (same : next.cache = state.cache.put failed) :
      Settles chunk state next :=
    ⟨failed, rfl, rfl, by simp [failed], same⟩
  exact (save_keeps _ _ rfl).mono (fun _ _ => settles) fun _ => settles

end Landing

end CacheAction

end Montage
