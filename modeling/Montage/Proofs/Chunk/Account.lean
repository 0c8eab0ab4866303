import Montage.Proofs.Chunk.Opening
import Montage.Proofs.Chunk.Record
import Montage.Proofs.Chunk.Stock

/-!
# What calls do to the stock

An invalidation and a new cut remove the files of the chunks that are not valid any more, so that the
strays stay the same. What was rendered is a stray until it is recorded as done: then a valid chunk has
it, or it is removed. What a failed render left stays a stray. A project that is opened forgets its
chunks: what is not restored from the manifest is stray from then on, unless the manifest is not
accepted and all files are deleted.

## Main definitions

* `CacheState.Carries` — the strays are the same after a call, and nothing new is claimed
* `CacheState.discards` — a project is opened whose files are deleted
* `CacheState.stranded` — the strays after a project was opened

## Main results

* `CacheState.Stocked.invalidateWhere`, `CacheState.Stocked.repartition` — files of chunks that are not
  valid any more are removed
* `CacheState.Stocked.finishRender` — what was rendered is no stray when it is recorded
* `CacheState.Stocked.openProject` — which files are stray when a project was opened
* `CacheState.Stocked.wipe` — a wipe leaves no files
-/

namespace Montage

variable {τ : Type}

namespace CacheState

/-- The strays are the same as before, and nothing is claimed that was not. -/
structure Carries (strays : List String) (before next : CacheState Double) : Prop where
  stocked : next.Stocked strays
  folder : next.cache.folder = before.cache.folder
  claims : ∀ index, next.Claims index → before.Claims index

theorem Carries.self {strays : List String} {state : CacheState Double} (h : state.Stocked strays) :
    state.Carries strays state := ⟨h, rfl, fun _ => id⟩

end CacheState

/-! ### Chunks that lose their files -/

/-- A chunk that is invalidated has lost its file. -/
theorem Chunk.Shelved.invalidated {files : FileTree} {folder : Path} {chunk : Chunk τ}
    (h : chunk.Shelved files folder) : chunk.invalidated.Shelved files folder := by
  refine .of_bare (Cache.invalidated_status chunk) ?_
  unfold Chunk.invalidated
  split
  · next valid =>
    obtain ⟨contentHash, -, output, -⟩ := h.valid valid
    change (if chunk.output? = none then chunk.outputPath else none) = none
    rw [Chunk.output?_of_text output, if_neg (Option.some_ne_none _)]
  · next busy => exact h.bare (by simp [busy])
  · next invalid _ => exact h.bare invalid

namespace CacheState.Stock

variable {strays : List String} {state : CacheState Double}

/-- No two valid chunks have one file. -/
theorem eq_of_output (h : state.Stock strays) (orderly : state.cache.Orderly) {chunk other : Chunk Double}
    (hchunk : chunk ∈ state.cache.chunks) (hother : other ∈ state.cache.chunks)
    (valid : chunk.status = .valid) (valid' : other.status = .valid) {path : String}
    (output : chunk.output? = some path) (output' : other.output? = some path) : chunk = other := by
  obtain ⟨contentHash, -, lies, file⟩ := (h.shelved chunk hchunk).valid valid
  obtain ⟨contentHash', -, lies', file'⟩ := (h.shelved other hother).valid valid'
  rw [Chunk.output?_of_text lies] at output
  rw [Chunk.output?_of_text lies', ← output] at output'
  have same := h.inside.eq_of_join file'.plain file.plain (Option.some.inj output')
  exact orderly.eq_of_index hchunk hother (Cache.index_eq_of_chunkName same).symm

/-- The valid chunks that a cache drops lose their files, and the strays stay the same. -/
theorem shed (h : state.Stock strays) (orderly : state.cache.Orderly) (cache : Cache Double)
    (folder : cache.folder = state.cache.folder)
    (shelved : ∀ chunk ∈ cache.chunks, chunk.Shelved state.disk.files state.cache.folder)
    (kept : ∀ chunk ∈ cache.chunks, chunk.status = .valid → chunk ∈ state.cache.chunks)
    {paths : List String} (dropped : ∀ path, path ∈ paths ↔ ∃ chunk ∈ state.cache.chunks,
      chunk.status = .valid ∧ chunk ∉ cache.chunks ∧ chunk.output? = some path) :
    ∃ files, FileTree.removeEach paths state.disk.files = .ok files ∧
      Stock strays { state with cache, disk := { state.disk with files } } := by
  have fewer {path : String} (valid : path ∈ cache.validFiles) : path ∈ state.cache.validFiles := by
    obtain ⟨chunk, hchunk, valid, output⟩ := Cache.mem_validFiles.mp valid
    exact Cache.mem_validFiles.mpr ⟨chunk, kept chunk hchunk valid, valid, output⟩
  have was {path : String} (hpath : path ∈ paths) : path ∈ state.cache.validFiles := by
    obtain ⟨chunk, hchunk, valid, -, output⟩ := (dropped path).mp hpath
    exact Cache.mem_validFiles.mpr ⟨chunk, hchunk, valid, output⟩
  have gone {path : String} (hpath : path ∈ paths) : path ∉ cache.validFiles := by
    intro still
    obtain ⟨chunk, hchunk, valid, out, output⟩ := (dropped path).mp hpath
    obtain ⟨other, hother, valid', output'⟩ := Cache.mem_validFiles.mp still
    have one := h.eq_of_output orderly hchunk (kept other hother valid') valid valid' output output'
    exact out (one ▸ hother)
  -- Without its chunk the file of a valid chunk is a stray, and then it is removed.
  have forgotten : Stock (strays ++ paths) { state with cache } := by
    refine h.rechunk folder shelved fun path => ?_
    rw [List.mem_append]
    constructor
    · rintro (stray | hpath)
      · exact ⟨.inl stray, fun valid => h.not_mem_validFiles stray (fewer valid)⟩
      · exact ⟨.inr (was hpath), gone hpath⟩
    · rintro ⟨stray | valid, out⟩
      · exact .inl stray
      · obtain ⟨chunk, hchunk, valid, output⟩ := Cache.mem_validFiles.mp valid
        refine .inr ((dropped path).mpr ⟨chunk, hchunk, valid, fun stays => out ?_, output⟩)
        exact Cache.mem_validFiles.mpr ⟨chunk, stays, valid, output⟩
  obtain ⟨files, removed, -, stock⟩ := forgotten.removeEach fun path hpath =>
    ⟨forgotten.takesFile (.inr (List.mem_append_right _ hpath)), gone hpath⟩
  refine ⟨files, removed, stock.congr fun path => ?_⟩
  rw [List.mem_filter, List.mem_append, decide_eq_true_iff]
  constructor
  · exact fun stray => ⟨.inl stray, fun hpath => h.not_mem_validFiles stray (was hpath)⟩
  · exact fun left => left.1.resolve_right left.2

/-- The manifest is saved when nothing is valid that was not. -/
theorem saves {before : CacheState Double} (h : state.Stock strays)
    (folder : state.cache.folder = before.cache.folder)
    (fewer : ∀ index, state.cache.HasValid index → before.Claims index) :
    Ensures CacheAction.save state (fun _ => before.Carries strays) (before.Carries strays) := by
  refine h.save.mono ?_ fun _ => False.elim
  rintro - next ⟨stocked, same, claims⟩
  exact ⟨stocked, same ▸ folder, fun index claimed => fewer index (claims index claimed)⟩

end CacheState.Stock

namespace CacheState.Stocked

variable {strays : List String} {state : CacheState Double}

/-- An invalidation removes the files of the chunks that it makes stale. -/
theorem invalidateWhere (h : state.Stocked strays) (orderly : state.cache.Orderly)
    (meets : Chunk Double → Bool) :
    Ensures (CacheAction.invalidateWhere meets) state (fun _ => state.Carries strays)
      (state.Carries strays) := by
  by_cases affects : Cache.Affects meets state.cache.chunks
  case neg =>
    refine (CacheAction.invalidateWhere_idle affects).mono ?_ ?_
    · rintro _ _ rfl
      exact .self h
    · rintro _ rfl
      exact .self h
  let swept : Cache Double := { state.cache with chunks := Cache.sweep meets state.cache.chunks }
  have left {chunk : Chunk Double} (valid : chunk.status = .valid) :
      chunk ∈ swept.chunks ↔ chunk ∈ state.cache.chunks ∧ ¬ meets chunk = true :=
    Cache.mem_sweep_of_valid valid
  have shelved : ∀ chunk ∈ swept.chunks, chunk.Shelved state.disk.files state.cache.folder := by
    intro chunk hchunk
    obtain ⟨old, hold, rfl⟩ := List.mem_map.mp hchunk
    split
    · exact (h.shelved old hold).invalidated
    · exact h.shelved old hold
  have kept : ∀ chunk ∈ swept.chunks, chunk.status = .valid → chunk ∈ state.cache.chunks :=
    fun chunk hchunk valid => ((left valid).mp hchunk).1
  have dropped (path : String) : path ∈ Cache.pathsOf meets state.cache.chunks ↔
      ∃ chunk ∈ state.cache.chunks, chunk.status = .valid ∧ chunk ∉ swept.chunks ∧
        chunk.output? = some path := by
    rw [Cache.mem_pathsOf]
    refine exists_congr fun chunk => and_congr_right fun hchunk => ?_
    constructor
    · rintro ⟨hit, valid, output⟩
      exact ⟨valid, fun stays => ((left valid).mp stays).2 hit, output⟩
    · rintro ⟨valid, out, output⟩
      exact ⟨by_contra fun missed => out ((left valid).mpr ⟨hchunk, missed⟩), valid, output⟩
  obtain ⟨files, removed, stock⟩ := h.toStock.shed orderly swept rfl shelved kept dropped
  have whole := Cache.invalidateWhere_eq meets state.cache.chunks state.disk.files
  rw [removed] at whole
  dsimp only at whole
  have some : (Cache.invalidateWhere meets state.cache.chunks state.disk.files).affected ≠ [] :=
    Cache.affected_ne_nil affects (by rw [whole])
  rw [whole] at some
  unfold CacheAction.invalidateWhere
  rw [ensures_bind, CacheAction.ensures_cache, ensures_bind, CacheAction.ensures_files,
    ensures_bind, CacheAction.ensures_finishSweep]
  dsimp only
  rw [whole]
  dsimp only at some ⊢
  rw [if_pos (by simpa using some), ensures_bind]
  have saved : Ensures CacheAction.save { state with cache := swept, disk := { state.disk with files } }
      (fun _ => state.Carries strays) (state.Carries strays) := by
    refine stock.saves rfl ?_
    rintro index ⟨chunk, hchunk, valid, rfl⟩
    exact .inl ⟨chunk, kept chunk hchunk valid, valid, rfl⟩
  exact saved

/-- Other settings leave the stock as it is. -/
theorem of_settings (h : state.Stocked strays) (settings : OutputFormat Double) :
    Stocked strays { state with cache := { state.cache with settings } } where
  inside := h.inside
  takes := h.takes.of_folder rfl
  tidy := h.tidy
  shelved := h.shelved
  stray := h.stray
  owned := h.owned
  listed := h.listed

/-- New settings make all chunks stale, or leave them as they are. -/
theorem applySettings (h : state.Stocked strays) (orderly : state.cache.Orderly)
    (settings : OutputFormat Double) :
    Ensures (CacheAction.applySettings settings) state (fun _ => state.Carries strays)
      (state.Carries strays) := by
  have same := h.of_settings settings
  have orderly' : Cache.Orderly { state.cache with settings } :=
    ⟨orderly.placed, orderly.distinct, orderly.numbered, orderly.begun⟩
  unfold CacheAction.applySettings
  rw [ensures_bind, CacheAction.ensures_cache, ensures_bind, CacheAction.ensures_setCache]
  split
  · exact ⟨same, rfl, fun _ => id⟩
  · rw [ensures_bind]
    have carried (next : CacheState Double)
        (carries : Carries strays { state with cache := { state.cache with settings } } next) :
        state.Carries strays next := ⟨carries.stocked, carries.folder, carries.claims⟩
    exact (same.invalidateWhere orderly' _).mono (fun _ => carried) carried

/-- A new cut removes the files of the chunks whose windows are gone. -/
theorem repartition (h : state.Stocked strays) (orderly : state.cache.Orderly) (duration : Double) :
    Ensures (CacheAction.repartition duration) state (fun _ => state.Carries strays)
      (state.Carries strays) := by
  cases cuts : partition duration state.cache.chunkDuration with
  | error cause =>
    unfold CacheAction.repartition
    rw [ensures_bind, CacheAction.ensures_cache, ensures_bind, ensures_liftM, cuts]
    exact .self h
  | ok windows =>
    let cut : Cache Double := { state.cache with
      chunks := Cache.arrange state.cache.nextSerial 0 state.cache.chunks windows
      nextSerial := state.cache.nextSerial + windows.length
      totalDuration := Scalar.maxOf Scalar.zero duration }
    have left {chunk : Chunk Double} (valid : chunk.status = .valid) :
        chunk ∈ cut.chunks ↔ chunk ∈ state.cache.chunks ∧ Cache.stays windows chunk = true :=
      orderly.mem_arrange_of_made (by simp [valid])
    have shelved : ∀ chunk ∈ cut.chunks, chunk.Shelved state.disk.files state.cache.folder :=
      Cache.arrange_forall (fun _ _ _ _ => .of_bare (by simp) rfl) h.shelved
    have kept : ∀ chunk ∈ cut.chunks, chunk.status = .valid → chunk ∈ state.cache.chunks :=
      fun chunk hchunk valid => ((left valid).mp hchunk).1
    -- Only valid chunks have files to lose.
    have dropped (path : String) :
        path ∈ Cache.droppedPaths (fun chunk => !Cache.stays windows chunk) state.cache.chunks ↔
          ∃ chunk ∈ state.cache.chunks, chunk.status = .valid ∧ chunk ∉ cut.chunks ∧
            chunk.output? = some path := by
      rw [Cache.mem_droppedPaths]
      refine exists_congr fun chunk => and_congr_right fun hchunk => ?_
      constructor
      · rintro ⟨gone, output⟩
        have valid : chunk.status = .valid := by
          by_contra invalid
          rw [Chunk.output?, (h.shelved chunk hchunk).bare invalid] at output
          cases output
        refine ⟨valid, fun stays => ?_, output⟩
        rw [((left valid).mp stays).2] at gone
        cases gone
      · rintro ⟨valid, out, output⟩
        refine ⟨?_, output⟩
        by_contra stays
        exact out ((left valid).mpr ⟨hchunk, by simpa using stays⟩)
    obtain ⟨files, removed, stock⟩ := h.toStock.shed orderly cut rfl shelved kept dropped
    rw [CacheAction.ensures_repartition cuts removed]
    have saved : Ensures CacheAction.save
        { state with cache := cut, disk := { state.disk with files } }
        (fun _ => state.Carries strays) (state.Carries strays) := by
      refine stock.saves rfl ?_
      rintro index ⟨chunk, hchunk, valid, rfl⟩
      exact .inl ⟨chunk, kept chunk hchunk valid, valid, rfl⟩
    exact saved

end CacheState.Stocked

/-! ### Renders -/

/-- The valid chunks when a chunk changes that was not valid. -/
theorem Cache.exists_valid_put {cache : Cache τ} {old new : Chunk τ} (orderly : cache.Orderly)
    (hold : old ∈ cache.chunks) (serial : new.serial = old.serial) (invalid : old.status ≠ .valid)
    (holds : Chunk τ → Prop) :
    (∃ chunk ∈ (cache.put new).chunks, chunk.status = .valid ∧ holds chunk) ↔
      (∃ chunk ∈ cache.chunks, chunk.status = .valid ∧ holds chunk) ∨ new.status = .valid ∧ holds new := by
  constructor
  · rintro ⟨chunk, hchunk, valid, h⟩
    rcases (mem_put hold serial).mp hchunk with rfl | ⟨hchunk, -⟩
    · exact .inr ⟨valid, h⟩
    · exact .inl ⟨chunk, hchunk, valid, h⟩
  · rintro (⟨chunk, hchunk, valid, h⟩ | new)
    · have other : chunk.serial ≠ new.serial := fun same =>
        invalid (orderly.eq_of_serial hchunk hold (same.trans serial) ▸ valid)
      exact ⟨chunk, (mem_put hold serial).mpr (.inr ⟨hchunk, other⟩), valid, h⟩
    · exact ⟨_, (mem_put hold serial).mpr (.inl rfl), new⟩

/-- Where valid chunks are when a chunk that was not valid changes to another that is not. -/
theorem Cache.hasValid_put {cache : Cache τ} {old : Chunk τ} (orderly : cache.Orderly)
    (hold : old ∈ cache.chunks) (new : Chunk τ) (serial : new.serial = old.serial)
    (invalid : old.status ≠ .valid)
    (invalid' : new.status ≠ .valid) (index : Nat) :
    (cache.put new).HasValid index ↔ cache.HasValid index :=
  (exists_valid_put orderly hold serial invalid _).trans (or_iff_left fun valid => invalid' valid.1)

namespace CacheState

variable {strays : List String} {state : CacheState Double} {old new : Chunk Double}

/-- A chunk that was not valid takes a file off the strays if it is valid now. -/
theorem Stock.put (h : state.Stock strays) (orderly : state.cache.Orderly)
    (hold : old ∈ state.cache.chunks) (new : Chunk Double) (serial : new.serial = old.serial)
    (invalid : old.status ≠ .valid)
    (shelved : new.Shelved state.disk.files state.cache.folder)
    (known : new.status = .valid → ∀ path ∈ new.output?, path ∈ strays)
    {strays' : List String} (stray : ∀ path, path ∈ strays' ↔
      path ∈ strays ∧ ¬ (new.status = .valid ∧ new.output? = some path)) :
    Stock strays' { state with cache := state.cache.put new } := by
  refine h.rechunk rfl (fun chunk hchunk => ?_) fun path => ?_
  · rcases (Cache.mem_put hold serial).mp hchunk with rfl | ⟨hchunk, -⟩
    · exact shelved
    · exact h.shelved chunk hchunk
  · have files := Cache.exists_valid_put orderly hold serial invalid (·.output? = some path)
    rw [← Cache.mem_validFiles, ← Cache.mem_validFiles] at files
    rw [stray, files, not_or]
    constructor
    · rintro ⟨stray, out⟩
      exact ⟨.inl stray, h.not_mem_validFiles stray, out⟩
    · rintro ⟨stray | valid, out, out'⟩
      · exact ⟨stray, out'⟩
      · exact absurd valid out

/-- A chunk that is not valid changes to another that is not. -/
theorem Stock.put_bare (h : state.Stock strays) (orderly : state.cache.Orderly)
    (hold : old ∈ state.cache.chunks) (serial : new.serial = old.serial)
    (invalid : old.status ≠ .valid) (invalid' : new.status ≠ .valid) (bare : new.outputPath = none) :
    Stock strays { state with cache := state.cache.put new } := by
  refine h.put orderly hold new serial invalid (.of_bare invalid' bare) (fun valid => absurd valid invalid')
    fun path => ?_
  rw [and_iff_left fun valid => invalid' valid.1]

/-- The place of a chunk that is not valid is not claimed. -/
theorem Stocked.unclaimed (h : state.Stocked strays) (orderly : state.cache.Orderly)
    (hold : old ∈ state.cache.chunks) (invalid : old.status ≠ .valid) :
    ¬ state.Claims old.index := by
  have without : ¬ state.cache.HasValid old.index := by
    rintro ⟨chunk, hchunk, valid, place⟩
    exact invalid (orderly.eq_of_index hchunk hold place ▸ valid)
  rintro (valid | ⟨manifest, there, entry, hentry, place⟩)
  · exact without valid
  · rcases (h.listed manifest there entry hentry).2 with none | valid
    · rw [none] at hold
      cases hold
    · exact without (place ▸ valid)

/-- A render begins that is not that of a valid chunk. -/
theorem Stocked.begin (h : state.Stocked strays) (orderly : state.cache.Orderly)
    (hold : old ∈ state.cache.chunks) (invalid : old.status ≠ .valid) :
    state.Carries strays { state with cache := state.cache.put (Cache.beginRender old) } := by
  have begun : (Cache.beginRender old).status ≠ .valid := nofun
  have valid := Cache.hasValid_put orderly hold (Cache.beginRender old) rfl invalid begun
  refine ⟨⟨h.toStock.put_bare orderly hold rfl invalid begun ((h.shelved old hold).bare invalid),
    fun manifest there entry hentry => ?_⟩, rfl, fun index claimed => ?_⟩
  · refine (h.listed manifest there entry hentry).imp_right (Or.imp (fun none => ?_) (valid _).mpr)
    rw [none] at hold
    cases hold
  · exact claimed.imp_left (valid index).mp

/-- A render has failed, and the file stays where it is. -/
theorem Stocked.failRender (h : state.Stocked strays) (orderly : state.cache.Orderly) (index : Int)
    (message : String) (contentHash : Option String) :
    Ensures (CacheAction.failRender index message contentHash) state
      (fun _ => state.Carries strays) (state.Carries strays) := by
  unfold CacheAction.failRender
  rw [ensures_bind, CacheAction.ensures_chunkAt]
  split
  · next chunk found =>
    split
    · exact .self h
    · next allowed =>
      have busy : chunk.status = .rendering := by
        cases status : chunk.status <;> simp [status, ChunkState.allows] at allowed ⊢
      have invalid : chunk.status ≠ .valid := by simp [busy]
      have hchunk := Cache.mem_of_get found
      dsimp only
      rw [ensures_bind, CacheAction.ensures_putChunk, ensures_bind]
      let failed : Chunk Double := { chunk with
        status := .error, error := some message, failedHash := contentHash, renderGeneration := none }
      have invalid' : failed.status ≠ .valid := by simp [failed]
      have stock : Stock strays { state with cache := state.cache.put failed } :=
        h.put_bare orderly hchunk rfl invalid invalid' ((h.shelved chunk hchunk).bare invalid)
      have saved : Ensures CacheAction.save { state with cache := state.cache.put failed }
          (fun _ => state.Carries strays) (state.Carries strays) := by
        refine stock.saves rfl fun index valid => .inl ?_
        exact (Cache.hasValid_put orderly hchunk failed rfl invalid invalid' index).mp valid
      exact saved
  · exact .self h

/-- What was rendered at a place is recorded. -/
structure Lands (strays : List String) (index : Nat) (before next : CacheState Double) : Prop where
  stocked : next.Stocked strays
  folder : next.cache.folder = before.cache.folder
  claims : ∀ other, next.Claims other → before.Claims other ∨ other = index

/-- What was rendered is no stray when it is recorded: a valid chunk has it, or it is removed. -/
theorem Stocked.finishRender (h : state.Stocked strays) (orderly : state.cache.Orderly) {index : Int}
    {chunk : Chunk Double} (found : state.cache.get index = .ok chunk)
    (busy : chunk.status = .rendering) {path contentHash : String}
    (plain : ∀ c ∈ contentHash.toList, c ≠ '/')
    (names : path = (state.cache.folder.join (Cache.chunkName chunk.index contentHash)).text)
    (there : path ∈ strays) (isComplex : Option Bool) :
    let lands := state.Lands (strays.filter (· ≠ path)) chunk.index
    Ensures (CacheAction.finishRender index path (some contentHash) isComplex) state (fun _ => lands)
      lands := by
  intro lands
  have hchunk := Cache.mem_of_get found
  have invalid : chunk.status ≠ .valid := by simp [busy]
  have file : state.disk.files.ChunkFile state.cache.folder (Cache.chunkName chunk.index contentHash) := by
    obtain ⟨name, file, path_name⟩ := h.owned path there
    exact h.inside.eq_of_join file.plain (Cache.plain_chunkName plain)
      (path_name.symm.trans names) ▸ file
  let ended := Cache.endRender chunk path (some contentHash) isComplex
  -- Whatever chunk is put there, what is claimed then was claimed before, or is its place.
  have saved {final : Chunk Double} {files : FileTree} (serial : final.serial = chunk.serial)
      (place : final.index = chunk.index)
      (stock : Stock (strays.filter (· ≠ path)) (state.noted final files)) :
      Ensures CacheAction.save (state.noted final files) (fun _ => lands) lands := by
    refine stock.save.mono ?_ fun _ => False.elim
    rintro - next ⟨stocked, same, claims⟩
    have folder : next.cache.folder = state.cache.folder := by rw [same]; rfl
    refine ⟨stocked, folder, fun other claimed => ?_⟩
    have valid : (state.cache.put final).HasValid other := claims other claimed
    rcases (Cache.exists_valid_put orderly hchunk serial invalid _).mp valid with before | ⟨-, new⟩
    · exact .inl (.inl before)
    · exact .inr (new.symm.trans place)
  rw [CacheAction.ensures_finishRender found path (some contentHash) isComplex busy]
  by_cases current : chunk.renderGeneration = some chunk.generation
  · have valid : ended.status = .valid := if_pos current
    unfold CacheAction.dropStale
    rw [if_pos valid, ensures_pure]
    let final : Chunk Double := { ended with renderGeneration := none }
    change Ensures CacheAction.save ((state.noted ended state.disk.files).noted final state.disk.files) _ _
    rw [CacheState.noted_noted state (show final.serial = ended.serial from rfl)]
    have output : final.output? = some path := by
      rw [names]
      exact Chunk.output?_of_text (congrArg some names)
    refine saved rfl rfl (h.put orderly hchunk final rfl invalid ?_ ?_ fun other => ?_)
    · exact ⟨fun _ => ⟨contentHash, rfl, congrArg some names, file⟩, fun stale => absurd valid stale⟩
    · rintro - other hother
      obtain rfl := Option.some.inj (output.symm.trans hother)
      exact there
    · have new : final.status = .valid ∧ final.output? = some other ↔ other = path := by
        rw [output, and_iff_right (show final.status = .valid from valid), Option.some_inj]
        exact eq_comm
      rw [List.mem_filter, decide_eq_true_iff, new]
  · have stale : ended.status = .stale := if_neg current
    let final : Chunk Double := { ended with outputPath := none, renderGeneration := none }
    have stock : Stock strays { state with cache := state.cache.put final } :=
      h.put_bare orderly hchunk rfl invalid (by rw [show final.status = .stale from stale]; decide) rfl
    obtain ⟨files, removed, -, stock⟩ := stock.remove (stock.takesFile (.inr there))
      (stock.not_mem_validFiles there)
    have output : ended.output? = some path := by
      rw [names]
      exact Chunk.output?_of_text (congrArg some names)
    have once : FileTree.removeEach ended.output?.toList (state.noted ended state.disk.files).disk.files =
        .ok files := by
      rw [output]
      simpa [FileTree.removeEach, CacheState.noted] using removed
    rw [CacheAction.ensures_dropStale (by rw [stale]; decide), once]
    dsimp only
    rw [output, if_neg (Option.some_ne_none _)]
    change Ensures CacheAction.save ((state.noted ended files).noted final files) _ _
    rw [CacheState.noted_noted state (show final.serial = ended.serial from rfl)]
    exact saved rfl rfl stock

/-! ### Files -/

/-- Other files leave the stock in order if they have the same manifest. -/
theorem Stocked.refile (h : state.Stocked strays) {files : FileTree} {strays' : List String}
    (stock : Stock strays' { state with disk := { state.disk with files } })
    (manifest : ∀ bytes, state.cache.manifestNode? files = some (.file bytes) →
      state.cache.manifestNode? state.disk.files = some (.file bytes)) :
    state.Carries strays' { state with disk := { state.disk with files } } := by
  have contains {listed : Manifest Double}
      (there : Contains { state with disk := { state.disk with files } } listed) :
      state.Contains listed := there.of_bytes rfl manifest
  refine ⟨⟨stock, fun listed there => h.listed listed (contains there)⟩, rfl, fun index claimed => ?_⟩
  exact claimed.imp_right fun ⟨listed, there, lists⟩ => ⟨listed, contains there, lists⟩

/-- No valid chunk has a file that is named for a place which is not claimed. -/
theorem Stocked.unused (h : state.Stocked strays) {index : Nat} {contentHash name : String}
    (unclaimed : ¬ state.Claims index) (plain : Path.Plain name)
    (named : name = Cache.chunkName index contentHash) :
    (state.cache.folder.join name).text ∉ state.cache.validFiles := by
  intro valid
  obtain ⟨chunk, hchunk, valid, output⟩ := Cache.mem_validFiles.mp valid
  obtain ⟨hash, -, lies, file⟩ := (h.shelved chunk hchunk).valid valid
  rw [Chunk.output?_of_text lies] at output
  have same := h.inside.eq_of_join file.plain plain (Option.some.inj output)
  have place := Cache.index_eq_of_chunkName (same.trans named)
  exact unclaimed (.inl ⟨chunk, hchunk, valid, place⟩)

/-- What is written for a place that is not claimed is stray. -/
theorem Stocked.write (h : state.Stocked strays) {index : Nat} {contentHash name : String}
    (unclaimed : ¬ state.Claims index) (plain : Path.Plain name)
    (named : name = Cache.chunkName index contentHash) {content : List UInt8} {files : FileTree}
    (written : state.disk.files.write (state.cache.folder.join name).text content = .ok files) :
    state.Carries ((state.cache.folder.join name).text :: strays)
      { state with disk := { state.disk with files } } := by
  have known : CacheAction.isChunkFile name = true := named ▸ Cache.isChunkFile_chunkName
  refine h.refile (h.toStock.write plain known (h.unused unclaimed plain named) written) ?_
  have beside := Cache.manifestNode?_of_write h.inside plain
    (CacheAction.ne_of_unlike known CacheAction.unlike_up)
    (CacheAction.ne_of_unlike known CacheAction.unlike_manifest) written
  exact fun bytes there => beside.symm.trans there

/-- A stray is removed. -/
theorem Stocked.remove (h : state.Stocked strays) {path : String} (stray : path ∈ strays) :
    ∃ files, state.disk.files.remove (Path.ofText path).text = .ok files ∧
      state.Carries (strays.filter (· ≠ path)) { state with disk := { state.disk with files } } := by
  obtain ⟨files, removed, -, stock⟩ := h.toStock.remove (h.toStock.takesFile (.inr stray))
    (h.toStock.not_mem_validFiles stray)
  refine ⟨files, removed, h.refile stock fun bytes there => ?_⟩
  rcases FileTree.loses_of_remove removed (state.cache.folder.place ++ ["manifest.json"]) with same | ⟨gone, -⟩
  · exact same.symm.trans there
  · exact absurd (gone.symm.trans there) nofun

/-! ### Opening -/

/-- A project is opened whose manifest is not accepted, so that what lies in the folder is deleted. -/
def discards (state : CacheState Double) (path : Option String) (duration : Double) : Bool :=
  match partition duration state.cache.chunkDuration, CacheAction.manifestRead state with
  | .ok _, .ok (some manifest) =>
    !Cache.accepts { state.cache with projectHash := ContentHash.ofProject path } manifest
  | _, _ => false

/-- The strays when a project was opened. The files of the chunks that are replaced are stray unless
they were restored, or all is deleted. -/
def stranded (strays : List String) (state : CacheState Double) (path : Option String)
    (duration : Double) (time : Option Double) : List String :=
  let opened := leaves (CacheAction.openProject path duration time) state
  if state.discards path duration then []
  else (strays ++ state.cache.validFiles).filter (· ∉ opened.cache.validFiles)

/-- What is restored has its file in the folder. -/
theorem Stock.shelved_asListed (h : state.Stock strays) {entry : ManifestEntry}
    (names : entry.NamesFile)
    (there : state.disk.files.checkExists (state.cache.folder.join entry.fileName).text = .ok true)
    {chunk : Chunk Double} (place : chunk.index = entry.index) :
    (CacheAction.asListed state.cache.folder entry chunk).Shelved state.disk.files
      state.cache.folder := by
  have named : CacheAction.isChunkFile entry.fileName = true := by
    rw [names.named]
    exact Cache.isChunkFile_chunkName
  have up := CacheAction.ne_of_unlike named CacheAction.unlike_up
  obtain ⟨goal, located, stands⟩ := FileTree.pathExists_iff.mp (CacheAction.checkExists_eq_ok there)
  obtain rfl := FileTree.eq_place_of_locate (h.inside.join names.plain) located
  rw [Path.place_join names.plain up] at stands
  have file := h.tidy entry.fileName named stands
  have same : entry.fileName = Cache.chunkName chunk.index entry.contentHash := by
    rw [place]
    exact names.named
  refine ⟨fun _ => ⟨entry.contentHash, rfl, ?_, same ▸ file⟩, fun invalid => absurd rfl invalid⟩
  exact congrArg (fun name => some (state.cache.folder.join name).text) same

/-- A cache that could not open a project has no chunks, and the files of those that it had are stray. -/
theorem Stocked.close (h : state.Stocked strays) {next : CacheState Double}
    (disk : next.disk = state.disk) (folder : next.cache.folder = state.cache.folder)
    (none : next.cache.chunks = []) :
    state.Carries ((strays ++ state.cache.validFiles).filter (· ∉ next.cache.validFiles)) next := by
  obtain ⟨cache, disk'⟩ := next
  obtain rfl : disk' = state.disk := disk
  have contains {manifest : Manifest Double} (there : Contains { state with cache } manifest) :
      state.Contains manifest := there.of_bytes rfl fun bytes there => by
    unfold Cache.manifestNode? at there ⊢
    rw [← folder]
    exact there
  refine ⟨⟨h.toStock.replace folder (fun chunk hchunk => ?_), fun manifest there entry hentry => ?_⟩,
    folder, fun index claimed => ?_⟩
  · rw [show cache.chunks = [] from none] at hchunk
    cases hchunk
  · exact ⟨(h.listed manifest (contains there) entry hentry).1, .inl none⟩
  · rcases claimed with ⟨chunk, hchunk, -⟩ | ⟨manifest, there, listed⟩
    · rw [none] at hchunk
      cases hchunk
    · exact .inr ⟨manifest, contains there, listed⟩

/-- The files of chunks that were replaced are stray, unless they were restored. -/
def Forgets (strays : List String) (state next : CacheState Double) : Prop :=
  state.Carries ((strays ++ state.cache.validFiles).filter (· ∉ next.cache.validFiles)) next

/-- Chunks are replaced, and the manifest is saved. -/
theorem Stocked.replace (h : state.Stocked strays) {cache : Cache Double}
    (folder : cache.folder = state.cache.folder)
    (shelved : ∀ chunk ∈ cache.chunks, chunk.Shelved state.disk.files state.cache.folder)
    (claims : ∀ index, cache.HasValid index → state.Claims index) :
    Ensures CacheAction.save { state with cache } (fun _ => state.Forgets strays)
      (state.Forgets strays) := by
  refine (h.toStock.replace folder shelved).save.mono ?_ fun _ => False.elim
  rintro - next ⟨stocked, same, claimed⟩
  have same : next.cache = cache := same
  unfold Forgets
  rw [same]
  refine ⟨stocked, ?_, fun index now => claims index (claimed index now)⟩
  exact (congrArg Cache.folder same).trans folder

section Opening

open CacheAction

variable {path : Option String} {duration : Double} {time : Option Double}
  {windows : List (Window Double)} {manifest : Manifest Double}

/-- Without a manifest nothing is restored. -/
theorem Stocked.openProject_of_none (h : state.Stocked strays)
    (nothing : manifestRead state = .ok none)
    (cut : partition duration state.cache.chunkDuration = .ok windows) :
    Ensures (openProject path duration time) state (fun _ => state.Forgets strays)
      (state.Forgets strays) := by
  rw [ensures_openProject_of_none nothing cut]
  have missing : ∀ chunk ∈ (opened path duration time windows state).cache.chunks,
      chunk.status ≠ .valid ∧ chunk.Shelved state.disk.files state.cache.folder :=
    Cache.arrange_forall (fun _ _ _ _ => ⟨nofun, .of_bare nofun rfl⟩) (by simp)
  refine h.replace rfl (fun chunk hchunk => (missing chunk hchunk).2) ?_
  rintro index ⟨chunk, hchunk, valid, -⟩
  exact absurd valid (missing chunk hchunk).1

/-- What a manifest lists that is accepted is restored where its files are there. -/
theorem Stocked.openProject_of_accepts (h : state.Stocked strays) (found : Finds state manifest)
    (cut : partition duration state.cache.chunkDuration = .ok windows)
    (accepted : (beginOpen path time state).cache.accepts manifest = true) :
    Ensures (openProject path duration time) state (fun _ => state.Forgets strays)
      (state.Forgets strays) := by
  have found' : Finds (beginOpen path time state) manifest := found.congr rfl rfl
  have there := contains_of_finds h.inside found
  have accepted' : (withFound manifest windows (beginOpen path time state)).cache.accepts manifest =
    true := accepted
  rw [ensures_openProject found' cut, ensures_recover_of_accepts accepted']
  split
  · next chunks restores =>
    -- What is valid is there because the manifest lists it.
    have each : ∀ chunk ∈ chunks, chunk.Shelved state.disk.files state.cache.folder ∧
        (chunk.status = .valid → state.Claims chunk.index) := by
      refine restore_forall (fun entry hentry exist chunk place => ?_)
        (Cache.arrange_forall (fun _ _ _ _ => ⟨.of_bare nofun rfl, nofun⟩) (by simp)) restores
      obtain ⟨names, -⟩ := h.listed manifest there entry hentry
      exact ⟨h.toStock.shelved_asListed names exist place,
        fun _ => .inr ⟨manifest, there, entry, hentry, place.symm⟩⟩
    refine h.replace rfl (fun chunk hchunk => (each chunk hchunk).1) ?_
    rintro index ⟨chunk, hchunk, valid, rfl⟩
    exact (each chunk hchunk).2 valid
  · exact h.close rfl rfl rfl

/-- Where a manifest is not accepted, nothing is left in the folder. -/
theorem Stocked.openProject_of_not_accepts (h : state.Stocked strays) (found : Finds state manifest)
    (cut : partition duration state.cache.chunkDuration = .ok windows)
    (refused : ¬ (beginOpen path time state).cache.accepts manifest = true) :
    Ensures (openProject path duration time) state (fun _ => state.Carries []) (state.Carries []) := by
  have found' : Finds (beginOpen path time state) manifest := found.congr rfl rfl
  have refused' : ¬ (withFound manifest windows (beginOpen path time state)).cache.accepts manifest =
    true := refused
  rw [ensures_openProject found' cut, ensures_recover_of_not_accepts refused']
  let middle := withFound manifest windows (beginOpen path time state)
  have clears : Ensures deleteChunkFiles middle _ _ :=
    deleteChunkFiles_clears h.inside h.takes.folder h.clearable
  refine clears.mono ?_ fun _ => False.elim
  rintro - next ⟨same, loses, cleared⟩
  obtain ⟨files, rfl⟩ : ∃ files, next = { middle with disk := { middle.disk with files } } := ⟨_, same⟩
  let cleared' : Cache Double := { middle.cache with
    chunks := Cache.arrange state.cache.nextSerial 0 [] windows, createdAt := state.disk.now
    totalDuration := Scalar.maxOf Scalar.zero duration }
  have missing : ∀ chunk ∈ cleared'.chunks, chunk.status ≠ .valid ∧ chunk.outputPath = none :=
    Cache.arrange_forall (fun _ _ _ _ => ⟨nofun, rfl⟩) (by simp)
  have saves : Ensures save { state with cache := cleared', disk := { state.disk with files } }
      (fun _ => state.Carries []) (state.Carries []) := by
    refine (h.toStock.clear loses cleared cleared' rfl missing).saves rfl ?_
    rintro index ⟨chunk, hchunk, valid, -⟩
    exact absurd valid (missing chunk hchunk).1
  exact saves

/-- A project is opened: what is restored from the manifest has its files in the folder, and nothing is
claimed that was not. -/
theorem Stocked.openProject (h : state.Stocked strays) (path : Option String) (duration : Double)
    (time : Option Double) :
    state.Carries (state.stranded strays path duration time)
      (leaves (openProject path duration time) state) := by
  unfold stranded
  cases cut : partition duration state.cache.chunkDuration with
  | error cause =>
    rw [if_neg (by rw [discards, cut]; exact Bool.false_ne_true)]
    have closes : Ensures (CacheAction.openProject path duration time) state
        (fun _ => state.Forgets strays) (state.Forgets strays) := by
      refine (openProject_of_uncut cut).mono (fun _ _ => False.elim) ?_
      rintro next ⟨disk, folder, bare⟩
      exact h.close disk folder bare
    exact closes.leaves
  | ok windows =>
    cases read : manifestRead state with
    | error failure =>
      have garbled : manifestRead state = .error .notText := by
        obtain ⟨-, found, readable⟩ | ⟨-, fails⟩ := manifestRead_cases state
        · exact absurd (read.symm.trans readable) nofun
        · exact fails
      rw [if_neg (by rw [discards, cut, read]; exact Bool.false_ne_true)]
      have closes : Ensures (CacheAction.openProject path duration time) state
          (fun _ => state.Forgets strays) (state.Forgets strays) := by
        unfold Ensures
        rw [openProject_of_garbled garbled]
        exact h.close rfl rfl rfl
      exact closes.leaves
    | ok found =>
      cases found with
      | none =>
        rw [if_neg (by rw [discards, cut, read]; exact Bool.false_ne_true)]
        exact (h.openProject_of_none read cut).leaves
      | some manifest =>
        have found : Finds state manifest := readManifest_eq_ok_iff.mpr read
        have known : state.discards path duration =
            !(beginOpen path time state).cache.accepts manifest := by
          rw [discards, cut, read]
          rfl
        rw [known]
        by_cases accepted : (beginOpen path time state).cache.accepts manifest = true
        · rw [if_neg (by simp [accepted])]
          exact (h.openProject_of_accepts found cut accepted).leaves
        · rw [if_pos (by simp [accepted])]
          exact (h.openProject_of_not_accepts found cut accepted).leaves

end Opening

/-- A wipe leaves no files. -/
theorem Stocked.wipe (h : state.Stocked strays) :
    Ensures CacheAction.wipe state (fun _ => state.Carries []) (state.Carries []) := by
  unfold CacheAction.wipe
  rw [ensures_bind]
  refine (CacheAction.deleteChunkFiles_clears h.inside h.takes.folder h.clearable).mono ?_
    fun _ => False.elim
  rintro - next ⟨same, loses, cleared⟩
  rw [ensures_bind, CacheAction.ensures_cache, ensures_bind, CacheAction.ensures_setCache]
  obtain ⟨files, rfl⟩ : ∃ files, next = { state with disk := { state.disk with files } } := ⟨_, same⟩
  have bare : ∀ chunk ∈ state.cache.chunks.map Cache.reset,
      chunk.status ≠ .valid ∧ chunk.outputPath = none := by
    refine List.forall_mem_map.mpr fun chunk hchunk => ?_
    unfold Cache.reset
    split
    · next busy => exact ⟨by simp [busy], rfl⟩
    · exact ⟨nofun, rfl⟩
  let reset : Cache Double := { state.cache with chunks := state.cache.chunks.map Cache.reset }
  have saves : Ensures CacheAction.save { state with cache := reset, disk := { state.disk with files } }
      (fun _ => state.Carries []) (state.Carries []) := by
    refine (h.toStock.clear loses cleared reset rfl bare).saves rfl ?_
    rintro index ⟨chunk, hchunk, valid, -⟩
    exact absurd valid (bare chunk hchunk).1
  exact saves

end CacheState

end Montage
