import Montage.Proofs.Chunk.Action
import Montage.Proofs.Files.Remove

/-!
# What an invalidation changes

An invalidation makes the valid chunks that it is about stale, removes their files, and counts up
the generation of those that render. It changes nothing else. If a file cannot be removed, it breaks
off there, and the chunks behind stay as they are.

## Main definitions

* `Chunk.invalidated` — a chunk after an invalidation
* `Cache.pathsOf` — the files that an invalidation removes
* `Cache.ComesTo` — an invalidation is about a chunk and does not break off before it

## Main results

* `CacheAction.invalidateWhere_changes` — what an invalidation leaves, whether it returns or fails
* `Cache.invalidateWhere_countsUp` — a chunk that renders is counted up if it is come to
-/

namespace Montage

variable {τ : Type}

namespace Chunk

/-- Whether an invalidation changes a chunk. -/
def exposed (chunk : Chunk τ) : Bool := chunk.status = .valid || chunk.status = .rendering

/-- A chunk after an invalidation that is about it. -/
def invalidated (chunk : Chunk τ) : Chunk τ :=
  match chunk.status with
  | .valid => { chunk with
      status := .stale, generation := chunk.generation + 1
      outputPath := if chunk.output? = none then chunk.outputPath else none }
  | .rendering => { chunk with generation := chunk.generation + 1 }
  | _ => chunk

/-- The generation of a chunk was counted up if something happened, and is the same otherwise. -/
def CountsUp (happened : Prop) (before after : Chunk τ) : Prop :=
  happened ∧ after.generation = before.generation + 1 ∨
    ¬happened ∧ after.generation = before.generation

/-- A chunk as it was, or as an invalidation leaves it, perhaps still with its file. -/
def PartlyInvalidated (meets : Chunk τ → Bool) (before after : Chunk τ) : Prop :=
  after = before ∨ meets before = true ∧ before.exposed = true ∧
    after = { before.invalidated with outputPath := after.outputPath }

end Chunk

namespace Cache

variable {meets : Chunk τ → Bool}

/-- The paths of the valid chunks that an invalidation is about. -/
def pathsOf (meets : Chunk τ → Bool) (chunks : List (Chunk τ)) : List String :=
  chunks.flatMap fun chunk =>
    if meets chunk ∧ chunk.status = .valid then chunk.output?.toList else []

/-- Chunks after an invalidation. -/
def sweep (meets : Chunk τ → Bool) (chunks : List (Chunk τ)) : List (Chunk τ) :=
  chunks.map fun chunk => if meets chunk then chunk.invalidated else chunk

/-- The places of the chunks that an invalidation changes. -/
def hits (meets : Chunk τ → Bool) (chunks : List (Chunk τ)) : List Nat :=
  (chunks.filter fun chunk => meets chunk && chunk.exposed).map (·.index)

/-- An invalidation is about a chunk, and the files of the chunks in front of it can be removed. -/
def ComesTo (meets : Chunk τ → Bool) (chunks : List (Chunk τ)) (files : FileTree)
    (chunk : Chunk τ) : Prop :=
  meets chunk = true ∧
    (FileTree.removeEach (pathsOf meets (chunks.take chunk.index)) files).toBool = true

section Append

variable (meets) (front back : List (Chunk τ))

theorem pathsOf_append : pathsOf meets (front ++ back) = pathsOf meets front ++ pathsOf meets back :=
  List.flatMap_append

theorem sweep_append : sweep meets (front ++ back) = sweep meets front ++ sweep meets back :=
  List.map_append

theorem hits_append : hits meets (front ++ back) = hits meets front ++ hits meets back := by
  rw [hits, List.filter_append, List.map_append]
  rfl

end Append

/-- A chunk that an invalidation is about is partly as it leaves it. -/
theorem partlyInvalidated_sweep (meets : Chunk τ → Bool) (chunk : Chunk τ) :
    chunk.PartlyInvalidated meets (if meets chunk then chunk.invalidated else chunk) := by
  by_cases hit : meets chunk = true
  · rw [if_pos hit]
    cases status : chunk.status with
    | valid | rendering => exact .inr ⟨hit, by simp [Chunk.exposed, status], rfl⟩
    | _ => exact .inl (by simp [Chunk.invalidated, status])
  · rw [if_neg hit]
    exact .inl rfl

/-- A chunk that loses its file, if it has one. -/
theorem dropOutput_cases (chunk : Chunk τ) (files : FileTree) :
    match FileTree.removeEach chunk.output?.toList files with
    | .ok rest => dropOutput chunk files = .ok ({ chunk with
        outputPath := if chunk.output? = none then chunk.outputPath else none }, rest)
    | .error cause => dropOutput chunk files = .error cause := by
  unfold dropOutput
  cases output : chunk.output? with
  | none => rfl
  | some path =>
    have once : FileTree.removeEach (some path).toList files =
        files.remove (Path.ofText path).text := by
      simp [FileTree.removeEach]
    rw [once]
    dsimp only
    cases files.remove (Path.ofText path).text <;> rfl

/-- An invalidation goes through the first chunk, or breaks off there. -/
theorem invalidateWhere_cons (meets : Chunk τ → Bool) (chunk : Chunk τ) (back : List (Chunk τ))
    (files : FileTree) :
    match FileTree.removeEach (pathsOf meets [chunk]) files with
    | .ok rest => invalidateWhere meets (chunk :: back) files =
        { invalidateWhere meets back rest with
          chunks := sweep meets [chunk] ++ (invalidateWhere meets back rest).chunks
          affected := hits meets [chunk] ++ (invalidateWhere meets back rest).affected }
    | .error cause => ∃ stale, chunk.PartlyInvalidated meets stale ∧
        invalidateWhere meets (chunk :: back) files =
          { chunks := stale :: back, files, failure := some cause } := by
  rw [invalidateWhere]
  by_cases hit : meets chunk = true
  · rw [if_neg (by simp [hit])]
    cases status : chunk.status with
    | valid =>
      have paths : pathsOf meets [chunk] = chunk.output?.toList := by
        simp [pathsOf, hit, status]
      have dropped := dropOutput_cases
        { chunk with status := .stale, generation := chunk.generation + 1 } files
      change (match FileTree.removeEach chunk.output?.toList files with | .ok _ => _ | .error _ => _)
        at dropped
      rw [paths]
      cases removed : FileTree.removeEach chunk.output?.toList files with
      | ok rest =>
        rw [removed] at dropped
        dsimp only at dropped ⊢
        rw [dropped]
        simp [Sweep.hit, sweep, hits, hit, Chunk.exposed, Chunk.invalidated, status, Chunk.output?]
      | error cause =>
        rw [removed] at dropped
        dsimp only at dropped ⊢
        rw [dropped]
        refine ⟨_, .inr ⟨hit, by simp [Chunk.exposed, status], ?_⟩, rfl⟩
        simp [Chunk.invalidated, status]
    | rendering =>
      simp [pathsOf, status, FileTree.removeEach, Sweep.hit, sweep, hits, hit, Chunk.exposed,
        Chunk.invalidated, pure, Except.pure]
    | _ =>
      simp [pathsOf, status, FileTree.removeEach, Sweep.skip, sweep, hits, Chunk.exposed,
        Chunk.invalidated, pure, Except.pure]
  · rw [if_pos (by simp [hit])]
    simp [pathsOf, FileTree.removeEach, Sweep.skip, sweep, hits, hit, pure, Except.pure]

/-- An invalidation goes through the chunks in front before it goes through those behind. -/
theorem invalidateWhere_append (meets : Chunk τ → Bool) (front back : List (Chunk τ))
    (files : FileTree) :
    match FileTree.removeEach (pathsOf meets front) files with
    | .ok rest => invalidateWhere meets (front ++ back) files =
        { invalidateWhere meets back rest with
          chunks := sweep meets front ++ (invalidateWhere meets back rest).chunks
          affected := hits meets front ++ (invalidateWhere meets back rest).affected }
    | .error cause => ∃ swept,
        List.Forall₂ (Chunk.PartlyInvalidated meets) front swept ∧
        (invalidateWhere meets (front ++ back) files).chunks = swept ++ back ∧
        (invalidateWhere meets (front ++ back) files).failure = some cause := by
  induction front generalizing files with
  | nil => rfl
  | cons chunk front ih =>
    have first := invalidateWhere_cons meets chunk (front ++ back) files
    rw [← List.singleton_append (l := front), pathsOf_append, FileTree.removeEach_append]
    rw [List.singleton_append, List.cons_append]
    cases removed : FileTree.removeEach (pathsOf meets [chunk]) files with
    | error cause =>
      rw [removed] at first
      obtain ⟨stale, partly, stopped⟩ := first
      rw [stopped]
      exact ⟨stale :: front, .cons partly (List.forall₂_same.mpr fun _ _ => .inl rfl), rfl, rfl⟩
    | ok middle =>
      have ih := ih middle
      rw [removed] at first
      dsimp only [Except.bind] at first ⊢
      rw [first]
      cases removed' : FileTree.removeEach (pathsOf meets front) middle with
      | error cause =>
        rw [removed'] at ih
        obtain ⟨swept, partly, chunks, failure⟩ := ih
        exact ⟨_ :: swept, .cons (partlyInvalidated_sweep meets chunk) partly,
          by rw [chunks]; rfl, failure⟩
      | ok rest =>
        rw [removed'] at ih
        dsimp only at ih ⊢
        rw [ih, ← List.singleton_append (l := front), sweep_append, hits_append]
        simp only [List.append_assoc]

/-- An invalidation changes all that it is about, or breaks off where a file cannot be removed. -/
theorem invalidateWhere_eq (meets : Chunk τ → Bool) (chunks : List (Chunk τ)) (files : FileTree) :
    match FileTree.removeEach (pathsOf meets chunks) files with
    | .ok rest => invalidateWhere meets chunks files =
        { chunks := sweep meets chunks, files := rest, affected := hits meets chunks }
    | .error cause =>
        List.Forall₂ (Chunk.PartlyInvalidated meets) chunks
          (invalidateWhere meets chunks files).chunks ∧
        (invalidateWhere meets chunks files).failure = some cause := by
  have whole := invalidateWhere_append meets chunks [] files
  rw [List.append_nil] at whole
  cases removed : FileTree.removeEach (pathsOf meets chunks) files with
  | ok rest =>
    rw [removed] at whole
    simpa [invalidateWhere] using whole
  | error cause =>
    rw [removed] at whole
    obtain ⟨swept, partly, same, failure⟩ := whole
    rw [List.append_nil] at same
    exact ⟨same ▸ partly, failure⟩

/-- The generation of a chunk that renders is counted up if the invalidation comes to it. -/
theorem invalidateWhere_countsUp {chunks : List (Chunk τ)} {files : FileTree}
    {chunk after : Chunk τ} (place : chunks[chunk.index]? = some chunk)
    (busy : chunk.status = .rendering)
    (there : (invalidateWhere meets chunks files).chunks[chunk.index]? = some after) :
    chunk.CountsUp (ComesTo meets chunks files chunk) after := by
  set front := chunks.take chunk.index with hfront
  set back := chunks.drop (chunk.index + 1)
  obtain ⟨inside, here⟩ := List.getElem?_eq_some_iff.mp place
  have split : chunks = front ++ chunk :: back := by
    conv_lhs => rw [← List.take_append_drop chunk.index chunks]
    rw [List.drop_eq_getElem_cons inside, here]
  have length : front.length = chunk.index := by
    rw [hfront, List.length_take]
    omega
  have passes := invalidateWhere_append meets front (chunk :: back) files
  rw [split] at there
  unfold ComesTo
  cases removed : FileTree.removeEach (pathsOf meets front) files with
  | error cause =>
    -- The invalidation broke off before it came to the chunk.
    rw [removed] at passes
    obtain ⟨swept, partly, same, -⟩ := passes
    have passed : swept.length = chunk.index := partly.length_eq.symm.trans length
    rw [same, List.getElem?_append_right (Nat.le_of_eq passed), passed, Nat.sub_self] at there
    obtain rfl := Option.some.inj there
    exact .inr ⟨by simp [Except.toBool], rfl⟩
  | ok rest =>
    rw [removed] at passes
    dsimp only at passes
    have passed : (sweep meets front).length = chunk.index := by rw [sweep, List.length_map, length]
    rw [passes, List.getElem?_append_right (Nat.le_of_eq passed), passed, Nat.sub_self,
      invalidateWhere] at there
    by_cases hit : meets chunk = true
    · rw [if_neg (by simp [hit]), busy] at there
      obtain rfl := Option.some.inj there
      exact .inl ⟨⟨hit, rfl⟩, rfl⟩
    · rw [if_pos (by simp [hit])] at there
      obtain rfl := Option.some.inj there
      exact .inr ⟨fun comes => hit comes.1, rfl⟩

end Cache

namespace CacheAction

theorem ensures_finishSweep {sweep : Cache.Sweep τ} {state : CacheState τ}
    {returns : Unit → CacheState τ → Prop} {fails : CacheState τ → Prop} :
    Ensures (finishSweep sweep) state returns fails ↔
      let swept : CacheState τ := {
        cache := { state.cache with chunks := sweep.chunks }
        disk := { state.disk with files := sweep.files } }
      match sweep.failure with
      | none => returns () swept
      | some _ => fails swept := by
  unfold finishSweep
  rw [ensures_bind, ensures_setFiles, ensures_bind, ensures_modify]
  cases sweep.failure <;> rfl

variable [Scalar τ]

/-- An invalidation leaves in the cache what its sweep leaves, whether it returns or fails. -/
theorem invalidateWhere_leaves (meets : Chunk τ → Bool) (state : CacheState τ) :
    (leaves (invalidateWhere meets) state).cache = { state.cache with
      chunks := (Cache.invalidateWhere meets state.cache.chunks state.disk.files).chunks } := by
  let swept (next : CacheState τ) : Prop := next.cache = { state.cache with
    chunks := (Cache.invalidateWhere meets state.cache.chunks state.disk.files).chunks }
  suffices h : Ensures (invalidateWhere meets) state (fun _ => swept) swept from h.leaves
  unfold invalidateWhere
  rw [ensures_bind, ensures_cache, ensures_bind, ensures_files, ensures_bind]
  refine (finishSweep_spec _ _).mono ?_ fun next h => h
  rintro - middle ⟨-, hmiddle⟩
  dsimp only
  split
  · rw [ensures_bind]
    exact (save_keeps _ _ rfl).mono (fun _ next h => h.trans hmiddle) fun next h => h.trans hmiddle
  · exact hmiddle

/-- An invalidation gives the places of the chunks that it changed, and changes all that it is about
and their files; the manifest is written anew if there are any. If it fails, each chunk is as it was
or as the invalidation leaves it, perhaps still with its file. -/
theorem invalidateWhere_changes (meets : Chunk τ → Bool) (state : CacheState τ) :
    Ensures (invalidateWhere meets) state
      (fun affected next => affected = Cache.hits meets state.cache.chunks ∧
        ∃ files, FileTree.removeEach (Cache.pathsOf meets state.cache.chunks) state.disk.files =
          .ok files ∧
        let swept : CacheState τ := {
          cache := { state.cache with chunks := Cache.sweep meets state.cache.chunks }
          disk := { state.disk with files } }
        next = if affected = [] then swept else leaves save swept)
      (fun next => ∃ chunks, next.cache = { state.cache with chunks } ∧
        List.Forall₂ (Chunk.PartlyInvalidated meets) state.cache.chunks chunks) := by
  have whole := Cache.invalidateWhere_eq meets state.cache.chunks state.disk.files
  unfold invalidateWhere
  rw [ensures_bind, ensures_cache, ensures_bind, ensures_files, ensures_bind, ensures_finishSweep]
  cases removed : FileTree.removeEach (Cache.pathsOf meets state.cache.chunks) state.disk.files with
  | error cause =>
    rw [removed] at whole
    obtain ⟨partly, failure⟩ := whole
    rw [failure]
    exact ⟨_, rfl, partly⟩
  | ok files =>
    rw [removed] at whole
    dsimp only at whole
    rw [whole]
    dsimp only
    by_cases none : Cache.hits meets state.cache.chunks = []
    · rw [if_neg (by simp [none])]
      exact ⟨rfl, files, rfl, (if_pos none).symm⟩
    · rw [if_pos (by simp [none]), ensures_bind]
      refine (ensures_leaves.and (save_keeps _ _ rfl)).mono ?_ ?_
      · rintro - next ⟨same, -⟩
        exact ⟨rfl, files, rfl, same.trans (if_neg none).symm⟩
      · rintro next ⟨-, same⟩
        refine ⟨_, same, List.forall₂_map_right_iff.mpr (List.forall₂_same.mpr ?_)⟩
        exact fun chunk _ => Cache.partlyInvalidated_sweep meets chunk

end CacheAction

end Montage
