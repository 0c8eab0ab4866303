import Montage.Proofs.Chunk.Invalidation
import Montage.Proofs.Chunk.Reopen

/-!
# What the manifest on disk lists

Every call on a cache that makes a chunk valid, or takes its validity away, ends with the manifest
written anew; all but one. When a valid chunk begins to render again, nothing is written, and the
manifest on disk goes on listing it until the next call that saves. So the manifest lists exactly what
is valid unless such a render has begun since it was written; in between it can only list too much.

## Main definitions

* `CacheState.Lists` — the manifest on disk has some entries
* `CacheCall.Saves` — a call returns with the manifest written anew
* `CacheCall.Overtakes` — a chunk that is recorded begins to render
* `CacheState.Overtaken` — that has happened since the manifest was written

## Main results

* `CacheState.Records.next` — what one call does to what is listed
* `CacheState.lists_after` — what is listed after any calls
-/

namespace Montage

variable {τ : Type}

/-! ### What is to be listed -/

namespace Cache

/-- A chunk that begins to render is not listed any more. -/
theorem entries_put_beginRender (cache : Cache τ) (chunk : Chunk τ) :
    (cache.put (beginRender chunk)).entries =
      (cache.chunks.filter (·.serial ≠ chunk.serial)).filterMap entry? := by
  unfold entries put
  rw [List.filterMap_map, List.filterMap_filter]
  refine List.filterMap_congr fun other _ => ?_
  have same : (beginRender chunk).serial = chunk.serial := rfl
  rw [Function.comp_apply, same]
  by_cases h : other.serial = chunk.serial
  · have unlisted : entry? (beginRender chunk) = none := rfl
    simp [h, unlisted]
  · simp [h]

/-- Nothing is listed that was not. -/
theorem entries_put_beginRender_sublist (cache : Cache τ) (chunk : Chunk τ) :
    (cache.put (beginRender chunk)).entries.Sublist cache.entries := by
  rw [entries_put_beginRender]
  exact List.filter_sublist.filterMap entry?

/-- The entries change exactly if the chunk was recorded. -/
theorem entries_put_beginRender_eq_iff {cache : Cache τ} (orderly : cache.Orderly) {chunk : Chunk τ}
    (h : chunk ∈ cache.chunks) :
    (cache.put (beginRender chunk)).entries = cache.entries ↔
      ∀ path contentHash, ¬ chunk.Recorded path contentHash := by
  rw [entries_put_beginRender]
  constructor
  · intro same path contentHash recorded
    have made := entry?_eq_some_iff.mpr ⟨path, contentHash, recorded, rfl⟩
    have listed := List.mem_filterMap.mpr ⟨chunk, h, made⟩
    rw [← entries, ← same] at listed
    obtain ⟨other, hother, made'⟩ := List.mem_filterMap.mp listed
    obtain ⟨hother, differ⟩ := List.mem_filter.mp hother
    have place : other.index = chunk.index :=
      (entry?_eq_some made').2.1.trans (entry?_eq_some made).2.1.symm
    exact of_decide_eq_true differ (congrArg _ (orderly.eq_of_index hother h place))
  · intro unrecorded
    unfold entries
    rw [List.filterMap_filter]
    refine List.filterMap_congr fun other hother => ?_
    by_cases same : other.serial = chunk.serial
    · rw [orderly.eq_of_serial hother h same]
      cases made : entry? chunk with
      | none => simp
      | some entry =>
        obtain ⟨path, contentHash, recorded, -⟩ := entry?_eq_some_iff.mp made
        exact absurd recorded (unrecorded path contentHash)
    · simp [same]

end Cache

namespace CacheState

/-- The file of the manifest holds the text of a manifest with some entries. -/
def Lists [Scalar τ] (state : CacheState τ) (entries : List ManifestEntry) : Prop :=
  ∃ manifest : Manifest τ, manifest.entries = entries ∧
    state.disk.files.Holds state.cache manifest.text

/-- Neither the manifest nor what it should list has changed. -/
structure SameRecord (state next : CacheState τ) : Prop where
  entries : next.cache.entries = state.cache.entries
  folder : next.cache.folder = state.cache.folder
  manifest : next.disk.files.read state.cache.manifestFile.text =
    state.disk.files.read state.cache.manifestFile.text

protected theorem SameRecord.refl (state : CacheState τ) : state.SameRecord state := ⟨rfl, rfl, rfl⟩

theorem SameRecord.lists [Scalar τ] {state next : CacheState τ} (h : state.SameRecord next)
    {entries : List ManifestEntry} (listed : state.Lists entries) : next.Lists entries := by
  obtain ⟨manifest, rfl, holds⟩ := listed
  have place : next.cache.manifestFile = state.cache.manifestFile :=
    congrArg (Path.join · _) h.folder
  refine ⟨manifest, rfl, ?_⟩
  unfold FileTree.Holds
  rw [place, h.manifest]
  exact holds

end CacheState

/-! ### Calls that save -/

namespace Cache

/-- An invalidation comes to a chunk that is valid or renders. -/
def Affects (meets : Chunk τ → Bool) (chunks : List (Chunk τ)) : Prop :=
  ∃ chunk ∈ chunks, meets chunk = true ∧ (chunk.status = .valid ∨ chunk.status = .rendering)

/-- An invalidation that comes to no such chunk changes nothing. -/
theorem invalidateWhere_of_not_affects {meets : Chunk τ → Bool} {chunks : List (Chunk τ)}
    {files : FileTree} (none : ¬ Affects meets chunks) :
    invalidateWhere meets chunks files = { chunks, files } := by
  induction chunks with
  | nil => rfl
  | cons chunk rest ih =>
    have spared : ¬ Affects meets rest := fun ⟨other, hother, met⟩ =>
      none ⟨other, List.mem_cons_of_mem _ hother, met⟩
    have idle (met : meets chunk = true) : chunk.status ≠ .valid ∧ chunk.status ≠ .rendering :=
      ⟨fun valid => none ⟨chunk, List.mem_cons_self, met, .inl valid⟩,
        fun busy => none ⟨chunk, List.mem_cons_self, met, .inr busy⟩⟩
    rw [invalidateWhere, ih spared]
    split
    · rfl
    · next met =>
      obtain ⟨invalid, still⟩ := idle (by simpa using met)
      split
      · next valid => exact absurd valid invalid
      · next busy => exact absurd busy still
      · rfl

/-- An invalidation that goes through has affected whatever chunk of that kind it came to. -/
theorem affected_ne_nil {meets : Chunk τ → Bool} {chunks : List (Chunk τ)} {files : FileTree}
    (some : Affects meets chunks) (through : (invalidateWhere meets chunks files).failure = none) :
    (invalidateWhere meets chunks files).affected ≠ [] := by
  obtain ⟨chunk, hchunk, met, status⟩ := some
  fun_induction invalidateWhere meets chunks files with
  | case1 => exact absurd hchunk List.not_mem_nil
  | case2 other rest files spared ih =>
    rcases List.mem_cons.mp hchunk with rfl | hchunk
    · simp [met] at spared
    · exact ih through hchunk
  | case3 => simp [Sweep.hit]
  | case4 => exact absurd through (by simp)
  | case5 => simp [Sweep.hit]
  | case6 other rest files hit invalid still ih =>
    rcases List.mem_cons.mp hchunk with rfl | hchunk
    · exact absurd status (not_or.mpr ⟨invalid, still⟩)
    · exact ih through hchunk

end Cache

namespace CacheAction

variable [Scalar τ]

/-- A save that returns leaves a manifest of what is there. -/
theorem save_lists (state : CacheState τ) :
    Ensures save state (fun _ next => next.Lists next.cache.entries) (fun _ => True) := by
  refine (save_spec state).mono ?_ fun _ _ => trivial
  rintro _ _ ⟨after, saves, rfl⟩
  exact ⟨_, rfl, saves.holds⟩

theorem invalidateWhere_lists {meets : Chunk τ → Bool} {state : CacheState τ}
    (some : Cache.Affects meets state.cache.chunks) :
    Ensures (invalidateWhere meets) state (fun _ next => next.Lists next.cache.entries)
      (fun _ => True) := by
  unfold invalidateWhere
  rw [ensures_bind, ensures_cache, ensures_bind, ensures_files, ensures_bind]
  refine (finishSweep_spec _ _).mono ?_ fun _ _ => trivial
  rintro - middle ⟨through, -⟩
  have affected := Cache.affected_ne_nil some through
  dsimp only
  rw [if_pos (by simpa using affected), ensures_bind]
  exact save_lists middle

theorem invalidateWhere_idle {meets : Chunk τ → Bool} {state : CacheState τ}
    (none : ¬ Cache.Affects meets state.cache.chunks) :
    Ensures (invalidateWhere meets) state (fun _ next => next = state) (fun next => next = state) := by
  unfold invalidateWhere
  rw [ensures_bind, ensures_cache, ensures_bind, ensures_files,
    Cache.invalidateWhere_of_not_affects none]
  rfl

theorem repartition_lists (duration : τ) (state : CacheState τ) :
    Ensures (repartition duration) state (fun _ next => next.Lists next.cache.entries)
      (fun _ => True) := by
  unfold repartition
  refine .bind_of_forall fun _ _ => .bind_of_forall fun _ _ => .bind_of_forall fun _ _ => ?_
  refine .bind_of_forall fun _ _ => .bind_of_forall fun _ _ => .bind_of_forall fun _ _ => ?_
  exact save_lists _

theorem openProject_lists (path : Option String) (duration : τ) (time : Option τ)
    (state : CacheState τ) :
    Ensures (openProject path duration time) state (fun _ next => next.Lists next.cache.entries)
      (fun _ => True) := by
  unfold openProject
  refine .bind_of_forall fun _ _ => .bind_of_forall fun _ _ => .bind_of_forall fun _ _ => ?_
  refine .bind_of_forall fun _ _ => .bind_of_forall fun _ _ => .bind_of_forall fun _ _ => ?_
  refine .bind_of_forall fun _ _ => .bind_of_forall fun _ _ => .bind_of_forall fun _ _ => ?_
  exact save_lists _

theorem wipe_lists (state : CacheState τ) :
    Ensures wipe state (fun _ next => next.Lists next.cache.entries) (fun _ => True) := by
  unfold wipe
  refine .bind_of_forall fun _ _ => .bind_of_forall fun _ _ => .bind_of_forall fun _ _ => ?_
  exact save_lists _

theorem applySettings_lists {settings : OutputFormat τ} {state : CacheState τ}
    (differ : state.cache.settings.sameOutput settings = false)
    (some : Cache.Affects (fun _ => true) state.cache.chunks) :
    Ensures (applySettings settings) state (fun _ next => next.Lists next.cache.entries)
      (fun _ => True) := by
  unfold applySettings
  rw [ensures_bind, ensures_cache, ensures_bind, ensures_setCache, if_neg (by simp [differ]),
    ensures_bind]
  unfold invalidateEvery
  exact invalidateWhere_lists some

theorem finishRender_lists (index : Int) (path : String) (contentHash : Option String)
    (isComplex : Option Bool) (state : CacheState τ) :
    Ensures (finishRender index path contentHash isComplex) state
      (fun _ next => next.Lists next.cache.entries) (fun _ => True) := by
  unfold finishRender
  refine .bind_of_forall fun chunk middle => ?_
  dsimp only
  split
  · trivial
  · refine .bind_of_forall fun _ _ => .bind_of_forall fun _ _ => .bind_of_forall fun _ next => ?_
    rw [ensures_bind]
    exact save_lists next

theorem failRender_lists (index : Int) (message : String) (contentHash : Option String)
    (state : CacheState τ) :
    Ensures (failRender index message contentHash) state
      (fun _ next => next.Lists next.cache.entries) (fun _ => True) := by
  unfold failRender
  refine .bind_of_forall fun chunk middle => ?_
  split
  · trivial
  · refine .bind_of_forall fun _ next => ?_
    rw [ensures_bind]
    exact save_lists next

/-- Settings that change nothing that was rendered leave the files and the chunks as they are. -/
theorem applySettings_idle {settings : OutputFormat τ} {state : CacheState τ}
    (idle : ¬ (state.cache.settings.sameOutput settings = false ∧
      Cache.Affects (fun _ => true) state.cache.chunks)) :
    Ensures (applySettings settings) state
      (fun _ next => next = { state with cache := { state.cache with settings } })
      (fun next => next = { state with cache := { state.cache with settings } }) := by
  unfold applySettings
  rw [ensures_bind, ensures_cache, ensures_bind, ensures_setCache]
  split
  · rfl
  · next differ =>
    rw [ensures_bind]
    exact invalidateWhere_idle fun affects => idle ⟨by simpa using differ, affects⟩

omit [Scalar τ] in
/-- The render of a chunk begins, and the disk stays as it is. -/
theorem startRender_state (index : Int) (state : CacheState τ) :
    Ensures (startRender index) state
      (fun _ next => ∃ chunk, state.cache.get index = .ok chunk ∧
        next = { state with cache := state.cache.put (Cache.beginRender chunk) })
      (fun next => next = state ∧ ∀ chunk, state.cache.get index ≠ .ok chunk) := by
  unfold startRender
  rw [ensures_bind, ensures_chunkAt]
  cases found : state.cache.get index with
  | error cause => exact ⟨rfl, by simp⟩
  | ok chunk =>
    dsimp only
    rw [if_neg (by simp [ChunkState.allows_rendering])]
    exact ⟨chunk, rfl, rfl⟩

end CacheAction

namespace CacheCall

variable [Scalar τ]

/-- A call writes the manifest anew, provided that it returns. -/
def Rewrites (state : CacheState τ) : CacheCall τ → Prop
  | .change (.repartition _) | .change (.openProject _ _ _) | .change .wipe => True
  | .change (.invalidate start stop) =>
      Cache.Affects (·.window.intersects start stop) state.cache.chunks
  | .change .invalidateEvery => Cache.Affects (fun _ => true) state.cache.chunks
  | .change (.applySettings settings) => state.cache.settings.sameOutput settings = false ∧
      Cache.Affects (fun _ => true) state.cache.chunks
  | .change (.setFiles _) | .startRender _ => False
  | .finishRender _ _ _ _ | .failRender _ _ _ => True

/-- A call returns with the manifest written anew. -/
def Saves (state : CacheState τ) (call : CacheCall τ) : Prop :=
  succeeds call.action state = true ∧ call.Rewrites state

omit [Scalar τ] in
/-- The render of a chunk that is recorded begins. -/
def Overtakes (state : CacheState τ) : CacheCall τ → Prop
  | .startRender index => ∃ chunk path contentHash, state.cache.get index = .ok chunk ∧
      chunk.Recorded path contentHash
  | _ => False

/-- A call of the cache returns. If it fails, or if others change the files, neither the manifest
changes nor what it should list. -/
def Undisturbed (state : CacheState τ) (call : CacheCall τ) : Prop :=
  (succeeds call.action state = true ∧ ∀ files, call ≠ .change (.setFiles files)) ∨
    state.SameRecord (leaves call.action state)

variable {state : CacheState τ} {call : CacheCall τ}

/-- What is rewritten lists what is there. -/
theorem Rewrites.lists (h : call.Rewrites state) :
    Ensures call.action state (fun _ next => next.Lists next.cache.entries) (fun _ => True) := by
  cases call with
  | change edit =>
    cases edit with
    | repartition duration => exact CacheAction.repartition_lists duration state
    | openProject path duration time => exact CacheAction.openProject_lists path duration time state
    | invalidate start stop => exact ensures_bind.mpr (CacheAction.invalidateWhere_lists h)
    | invalidateEvery => exact ensures_bind.mpr (CacheAction.invalidateWhere_lists h)
    | applySettings settings => exact ensures_bind.mpr (CacheAction.applySettings_lists h.1 h.2)
    | wipe => exact CacheAction.wipe_lists state
    | setFiles files => exact h.elim
  | startRender index => exact h.elim
  | finishRender index path contentHash isComplex =>
    exact ensures_bind.mpr (CacheAction.finishRender_lists index path contentHash isComplex state)
  | failRender index message contentHash =>
    exact ensures_bind.mpr (CacheAction.failRender_lists index message contentHash state)

/-- After a call that saves, the manifest lists exactly what it should. -/
theorem Saves.lists (h : call.Saves state) :
    (leaves call.action state).Lists (leaves call.action state).cache.entries := by
  rcases (Rewrites.lists h.2).ends with ⟨-, listed⟩ | ⟨failed, -⟩
  · exact listed
  · exact absurd (h.1.symm.trans failed) (by simp)

/-- What neither saves nor begins a render leaves the record as it is. -/
theorem sameRecord_of_not_rewrites (idle : ¬ call.Rewrites state)
    (own : ∀ files, call ≠ .change (.setFiles files)) (still : ∀ index, call ≠ .startRender index) :
    state.SameRecord (leaves call.action state) := by
  have kept {next : CacheState τ} (same : next = state) : state.SameRecord next := same ▸ .refl state
  cases call with
  | change edit =>
    cases edit with
    | repartition duration => exact absurd trivial idle
    | openProject path duration time => exact absurd trivial idle
    | invalidate start stop =>
      rw [action, CacheChange.action, leaves_discard]
      exact kept (CacheAction.invalidateWhere_idle idle).leaves
    | invalidateEvery =>
      rw [action, CacheChange.action, leaves_discard]
      exact kept (CacheAction.invalidateWhere_idle idle).leaves
    | applySettings settings =>
      rw [action, CacheChange.action, leaves_discard, (CacheAction.applySettings_idle idle).leaves]
      exact ⟨rfl, rfl, rfl⟩
    | wipe => exact absurd trivial idle
    | setFiles files => exact absurd rfl (own files)
  | startRender index => exact absurd rfl (still index)
  | finishRender index path contentHash isComplex => exact absurd trivial idle
  | failRender index message contentHash => exact absurd trivial idle

end CacheCall

/-! ### Runs -/

namespace CacheState

variable [Scalar τ] {state : CacheState τ} {calls : List (CacheCall τ)} {call : CacheCall τ}
  {overtaken : Prop} {listed : List ManifestEntry}

/-- The render of a chunk that was recorded has begun, and no call has saved since. -/
def Overtaken (state : CacheState τ) (calls : List (CacheCall τ)) : Prop :=
  ∃ earlier call later, calls = earlier ++ call :: later ∧ call.Overtakes (state.after earlier) ∧
    ∀ between saving rest, later = between ++ saving :: rest →
      ¬ saving.Saves (state.after (earlier ++ call :: between))

/-- All of some calls are undisturbed. -/
def Undisturbed (state : CacheState τ) : List (CacheCall τ) → Prop
  | [] => True
  | call :: rest => call.Undisturbed state ∧ (leaves call.action state).Undisturbed rest

theorem undisturbed_append : state.Undisturbed (calls ++ [call]) ↔
    state.Undisturbed calls ∧ call.Undisturbed (state.after calls) := by
  induction calls generalizing state with
  | nil => exact and_comm
  | cons first rest ih => exact (and_congr_right' ih).trans and_assoc.symm

/-- The last call overtakes the manifest, or one before it did, unless the last one saves. -/
theorem overtaken_append : state.Overtaken (calls ++ [call]) ↔
    ¬ call.Saves (state.after calls) ∧
      (state.Overtaken calls ∨ call.Overtakes (state.after calls)) := by
  constructor
  · rintro ⟨earlier, call', later, split, overtakes, unsaved⟩
    rcases split_of_append_singleton split with ⟨rfl, rfl, rfl⟩ | ⟨rest, rfl, rfl⟩
    · refine ⟨fun saves => ?_, .inr overtakes⟩
      cases call with
      | startRender index => exact saves.2
      | change edit => exact overtakes
      | finishRender index path contentHash isComplex => exact overtakes
      | failRender index message contentHash => exact overtakes
    · refine ⟨unsaved rest call [] rfl, .inl ⟨earlier, call', rest, rfl, overtakes, ?_⟩⟩
      rintro between saving last rfl
      exact unsaved between saving (last ++ [call]) (by simp)
  · rintro ⟨unsaved, ⟨earlier, call', later, rfl, overtakes, before⟩ | overtakes⟩
    · refine ⟨earlier, call', later ++ [call], by simp, overtakes, ?_⟩
      intro between saving rest split
      rcases split_of_append_singleton split with ⟨rfl, rfl, rfl⟩ | ⟨last, rfl, rfl⟩
      · exact unsaved
      · exact before between saving last rfl
    · exact ⟨calls, call, [], rfl, overtakes, by simp⟩

/-- The manifest lists all that it should, and no more unless it was overtaken. -/
structure Records (state : CacheState τ) (overtaken : Prop) (listed : List ManifestEntry) : Prop where
  lists : state.Lists listed
  covers : state.cache.entries.Sublist listed
  agrees : listed = state.cache.entries ↔ ¬ overtaken

namespace Records

theorem of_lists (h : state.Lists state.cache.entries) (fresh : ¬ overtaken) :
    state.Records overtaken state.cache.entries := ⟨h, .refl _, iff_of_true rfl fresh⟩

theorem of_sameRecord (h : state.Records overtaken listed) {next : CacheState τ}
    (same : state.SameRecord next) : next.Records overtaken listed where
  lists := same.lists h.lists
  covers := same.entries ▸ h.covers
  agrees := same.entries ▸ h.agrees

theorem of_iff (h : state.Records overtaken listed) {overtaken' : Prop}
    (same : overtaken' ↔ overtaken) : state.Records overtaken' listed :=
  ⟨h.lists, h.covers, h.agrees.trans (not_congr same.symm)⟩

/-- The render of a chunk begins. -/
theorem begins (h : state.Records overtaken listed) (orderly : state.cache.Orderly) {index : Int}
    {chunk : Chunk τ} (found : state.cache.get index = .ok chunk) :
    Records { state with cache := state.cache.put (Cache.beginRender chunk) }
      (overtaken ∨ ∃ path contentHash, chunk.Recorded path contentHash) listed := by
  have fewer := Cache.entries_put_beginRender_sublist state.cache chunk
  have same_iff := Cache.entries_put_beginRender_eq_iff orderly (Cache.mem_of_get found)
  refine ⟨h.lists, fewer.trans h.covers, ?_⟩
  rw [not_or, ← h.agrees]
  constructor
  · intro same
    have same' : (state.cache.put (Cache.beginRender chunk)).entries = state.cache.entries :=
      fewer.antisymm (same ▸ h.covers)
    exact ⟨same.trans same', fun ⟨path, contentHash, recorded⟩ =>
      same_iff.mp same' path contentHash recorded⟩
  · rintro ⟨same, unrecorded⟩
    refine same.trans (same_iff.mpr fun path contentHash recorded => ?_).symm
    exact unrecorded ⟨path, contentHash, recorded⟩

/-- What one call does to what is listed. -/
theorem next (h : state.Records overtaken listed) (orderly : state.cache.Orderly)
    (undisturbed : call.Undisturbed state) :
    ∃ listed, (leaves call.action state).Records
      (¬ call.Saves state ∧ (overtaken ∨ call.Overtakes state)) listed := by
  by_cases saves : call.Saves state
  · exact ⟨_, .of_lists saves.lists fun unsaved => unsaved.1 saves⟩
  refine ⟨listed, ?_⟩
  rw [iff_of_true saves trivial, true_and]
  by_cases begins : ∃ index, call = .startRender index
  · obtain ⟨index, rfl⟩ := begins
    rw [CacheCall.action, leaves_discard]
    rcases (CacheAction.startRender_state index state).ends with
      ⟨-, chunk, found, same⟩ | ⟨-, same, absent⟩
    · rw [same]
      refine (h.begins orderly found).of_iff (or_congr_right ⟨?_, ?_⟩)
      · rintro ⟨other, path, contentHash, found', recorded⟩
        obtain rfl := Except.ok.inj (found.symm.trans found')
        exact ⟨path, contentHash, recorded⟩
      · rintro ⟨path, contentHash, recorded⟩
        exact ⟨chunk, path, contentHash, found, recorded⟩
    · rw [same]
      refine h.of_iff (or_iff_left ?_)
      rintro ⟨chunk, -, -, found, -⟩
      exact absent chunk found
  · have still : ∀ index, call ≠ .startRender index := fun index same => begins ⟨index, same⟩
    have record : state.SameRecord (leaves call.action state) := by
      rcases undisturbed with ⟨returned, own⟩ | same
      · exact CacheCall.sameRecord_of_not_rewrites (fun rewrites => saves ⟨returned, rewrites⟩) own still
      · exact same
    refine (h.of_sameRecord record).of_iff (or_iff_left ?_)
    cases call with
    | startRender index => exact absurd rfl (still index)
    | change edit => exact id
    | finishRender index path contentHash isComplex => exact id
    | failRender index message contentHash => exact id

end Records

/-- What is listed after some calls of a cache whose manifest was written: all that should be, and
exactly that unless a chunk that was recorded has begun to render since the manifest was last
written. -/
theorem lists_after {start : CacheState τ} (orderly : start.cache.Orderly) {opening : CacheCall τ}
    (opened : opening.Saves start)
    (undisturbed : (leaves opening.action start).Undisturbed calls) :
    let state := (leaves opening.action start).after calls
    ∃ listed, state.Lists listed ∧ state.cache.entries.Sublist listed ∧
      (listed = state.cache.entries ↔ ¬ (leaves opening.action start).Overtaken calls) := by
  intro state
  have orderly' : (leaves opening.action start).cache.Orderly := opening.keeps_orderly orderly
  have records : ∃ listed, state.Records ((leaves opening.action start).Overtaken calls) listed := by
    induction calls using List.reverseRecOn with
    | nil => exact ⟨_, .of_lists opened.lists (by simp [Overtaken])⟩
    | append_singleton calls call ih =>
      obtain ⟨before, last⟩ := undisturbed_append.mp undisturbed
      obtain ⟨listed, records⟩ := ih before
      obtain ⟨listed', records'⟩ := records.next (orderly_after orderly' calls) last
      refine ⟨listed', ?_⟩
      change ((leaves opening.action start).after (calls ++ [call])).Records _ _
      rw [after_append]
      exact records'.of_iff overtaken_append
  obtain ⟨listed, records⟩ := records
  exact ⟨listed, records.lists, records.covers, records.agrees⟩

end CacheState

/-! ### A chunk that is rendered again -/

/-- A sweep that comes to no chunk leaves them all. -/
theorem Cache.dropWhere_of_forall {meets : Chunk τ → Bool} {chunks : List (Chunk τ)}
    (files : FileTree) (none : ∀ chunk ∈ chunks, meets chunk = false) :
    dropWhere meets chunks files = { chunks, files } := by
  induction chunks with
  | nil => rfl
  | cons chunk rest ih =>
    rw [dropWhere, none chunk List.mem_cons_self, ih fun other h => none other (List.mem_cons_of_mem _ h)]
    rfl

namespace CacheAction

variable [Scalar τ]

/-- The begin of a render writes nothing. -/
theorem lists_put_beginRender {state : CacheState τ} {listed : List ManifestEntry}
    (h : state.Lists listed) (chunk : Chunk τ) :
    CacheState.Lists { state with cache := state.cache.put (Cache.beginRender chunk) } listed := h

/-- The number of the next new chunk plays no part in what is saved. -/
theorem save_renumbered {state next : CacheState τ} (ran : save state = .ok () next) (serial : Nat) :
    save { state with cache := { state.cache with nextSerial := serial } } =
      .ok () { next with cache := { next.cache with nextSerial := serial } } := by
  obtain ⟨after, saves, rfl⟩ := save_eq_ok ran
  let renumbered : Cache τ := { state.cache with nextSerial := serial }
  have writes : Ensures save { state with cache := renumbered }
      (fun _ next => next = ⟨renumbered, { state.disk with files := after }⟩) (fun _ => False) := by
    refine (save_spec _).mono ?_ fun _ fails => fails.2 after saves
    rintro _ _ ⟨after', saves', rfl⟩
    have one : after' = after := FileTree.Saves.unique saves' saves
    rw [one]
  obtain ⟨_, _, ran', rfl⟩ := writes.exists_ok
  exact ran'

/-- Where all windows stay, a timeline that is cut anew has its manifest written, and no more. -/
theorem repartition_of_stays {state next : CacheState τ} {duration : τ} {windows : List (Window τ)}
    (cut : partition duration state.cache.chunkDuration = .ok windows)
    (stay : ∀ chunk ∈ state.cache.chunks, Cache.stays windows chunk = true)
    (same : Cache.arrange state.cache.nextSerial 0 state.cache.chunks windows = state.cache.chunks)
    (length : Scalar.maxOf Scalar.zero duration = state.cache.totalDuration)
    (ran : save state = .ok () next) :
    let serial := state.cache.nextSerial + windows.length
    repartition duration state =
      .ok () { next with cache := { next.cache with nextSerial := serial } } := by
  intro serial
  have swept : Cache.dropWhere (fun chunk => !Cache.stays windows chunk) state.cache.chunks
      state.disk.files = { chunks := state.cache.chunks, files := state.disk.files } :=
    Cache.dropWhere_of_forall _ fun chunk h => congrArg not (stay chunk h)
  have lifted : (liftM (partition duration state.cache.chunkDuration) :
      Except Failure (List (Window τ))) = .ok windows := by
    rw [cut]
    rfl
  have writes : Ensures (repartition duration) state
      (fun _ last => last = { next with cache := { next.cache with nextSerial := serial } })
      (fun _ => False) := by
    unfold repartition finishSweep
    rw [ensures_bind, ensures_cache, ensures_bind, ensures_liftM, lifted]
    dsimp only
    rw [ensures_bind, ensures_files, swept]
    simp only [ensures_bind, ensures_cache, ensures_setFiles, ensures_setCache, ensures_modify,
      ensures_pure, same, length]
    exact (ensures_of_ok (save_renumbered ran serial)).mpr rfl
  obtain ⟨_, _, ran', rfl⟩ := writes.exists_ok
  exact ran'

end CacheAction

namespace Kept

open CacheAction Repainted

/-- The one chunk. -/
def whole : Chunk Double := rendered "cache/chunk-0-aa.mp4"

theorem window_known : Cache.stays [⟨Scalar.zero, half⟩] whole = true ∧
    whole.covers ⟨Scalar.zero, half⟩ = true ∧
    Scalar.maxOf Scalar.zero half = half := by decide +kernel

/-- The cache after its timeline was cut again: the next new chunk has another number. -/
def cutAgain : CacheState Double where
  cache := { before.cache with nextSerial := 2 }
  disk := (leaves save before).disk

theorem repartition_before : repartition half before = .ok () cutAgain := by
  obtain ⟨stays, covers, length⟩ := window_known
  have cut : partition half before.cache.chunkDuration = .ok [⟨Scalar.zero, half⟩] := by
    simp only [before, kept, created]
    exact numbers_known.2.2.2.2.2.2.1
  have stay : ∀ chunk ∈ before.cache.chunks, Cache.stays [⟨Scalar.zero, half⟩] chunk = true := by
    intro chunk h
    obtain rfl : chunk = whole := mem_chunks.mp h
    exact stays
  have same : Cache.arrange before.cache.nextSerial 0 before.cache.chunks [⟨Scalar.zero, half⟩] =
      before.cache.chunks := by
    have chunks : before.cache.chunks = [whole] := rfl
    rw [chunks, Cache.arrange, if_pos covers, Cache.arrange]
  have total : Scalar.maxOf Scalar.zero half = before.cache.totalDuration := by
    simp only [before, kept]
    exact length
  obtain ⟨after, -, saved⟩ := save_eq_ok before_saves
  have ran := repartition_of_stays cut stay same total before_saves
  rw [saved] at ran
  rw [ran, cutAgain, saved]
  rfl

/-- The chunk begins to render again. -/
def begunAgain : CacheState Double :=
  { cutAgain with cache := cutAgain.cache.put (Cache.beginRender whole) }

theorem startRender_again :
    startRender 0 cutAgain = .ok (Cache.beginRender whole) begunAgain := rfl

/-- The timeline is cut again. -/
def cutting : CacheCall Double := .change (.repartition half)

theorem leaves_cutting : leaves cutting.action before = cutAgain := by
  rw [leaves, cutting, CacheCall.action, CacheChange.action, repartition_before]

theorem succeeds_cutting : succeeds cutting.action before = true := by
  rw [succeeds, cutting, CacheCall.action, CacheChange.action, repartition_before]

theorem cutting_saves : cutting.Saves before := ⟨succeeds_cutting, trivial⟩

/-- Nothing has been written since. -/
theorem afresh_begunAgain :
    { afresh before half with disk := begunAgain.disk } = afresh before half := by
  simp only [afresh, begunAgain, cutAgain]

theorem after_start : cutAgain.after [.startRender 0] = begunAgain := rfl

end Kept

open Kept CacheAction in
/-- The chunk is listed although it renders. -/
theorem chunk_in_render_stays_listed : ∃ listed, begunAgain.Lists listed ∧
    begunAgain.cache.entries.Sublist listed ∧ listed ≠ begunAgain.cache.entries := by
  have quiet : (leaves cutting.action before).Undisturbed [.startRender 0] := by
    rw [leaves_cutting]
    exact ⟨.inl ⟨rfl, by simp⟩, trivial⟩
  obtain ⟨listed, lists, covers, agrees⟩ := CacheState.lists_after before_orderly cutting_saves quiet
  rw [leaves_cutting] at lists covers agrees
  rw [after_start] at lists covers agrees
  refine ⟨listed, lists, covers, fun same => agrees.mp same ?_⟩
  have recorded : whole.Recorded "cache/chunk-0-aa.mp4" "aa" :=
    ⟨rfl, Option.filter_some_pos (by decide), Option.filter_some_pos (by decide)⟩
  exact ⟨[], .startRender 0, [], rfl, ⟨whole, _, _, rfl, recorded⟩, by simp⟩

open Kept CacheAction Repainted in
/-- A chunk that was valid begins to render again. The manifest goes on listing it, so that another
cache finds it valid when the project is opened again before that render has ended. -/
theorem exists_listed_render :
    repartition half before = .ok () cutAgain ∧
    startRender 0 cutAgain = .ok (Cache.beginRender whole) begunAgain ∧
    begunAgain.cache.chunks = [Cache.beginRender whole] ∧ begunAgain.cache.entries = [] ∧
    begunAgain.Lists [namedEntry "chunk-0-aa.mp4"] ∧
    ∃ next, openProject none half none { afresh before half with disk := begunAgain.disk } =
      .ok () next ∧ ∃ chunk ∈ next.cache.chunks, chunk.status = .valid := by
  have entries : cutAgain.cache.entries = [namedEntry "chunk-0-aa.mp4"] := by decide +kernel
  have listed : cutAgain.Lists cutAgain.cache.entries := by
    rw [← leaves_cutting]
    exact cutting_saves.lists
  rw [entries] at listed
  refine ⟨repartition_before, startRender_again, rfl, rfl, lists_put_beginRender listed whole, ?_⟩
  rw [afresh_begunAgain]
  exact project_finds_chunk rfl

end Montage
