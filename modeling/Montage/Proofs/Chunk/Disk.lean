import Montage.Proofs.Chunk.Clear
import Montage.Proofs.Chunk.Record

/-!
# What a cache does to the disk

A call on a cache does two things to the disk: it removes files, and it may save the manifest after
that. So the manifest that lies in its folder afterwards lay there before or lists what is valid now.

## Main definitions

* `CacheState.Strips` — files are gone
* `CacheState.Trims` — files are gone, and the manifest may have been saved
* `CacheState.Contains` — the manifest that lies in the folder

## Main results

* `CacheCall.trims` — every call of the cache does no more than that
* `CacheState.Trims.contains` — which manifest lies in the folder afterwards
-/

namespace Montage

variable {τ : Type}

/-! ### Files that are gone -/

namespace FileTree

variable {tree after : FileTree} {path : String} {content : List UInt8}

theorem loses_of_remove (h : tree.remove path = .ok after) : tree.Loses after := by
  unfold remove at h
  split at h
  · obtain rfl := Except.ok.inj h
    exact .refl _
  · exact absurd h (by simp)
  · next place located =>
    split at h
    · obtain rfl := Except.ok.inj h
      exact .refl _
    · next there =>
      obtain rfl := Except.ok.inj h
      have below : place ≠ [] := by
        rintro rfl
        exact absurd (node?_root.symm.trans there) (by simp)
      intro other
      by_cases here : other = place
      · subst here
        exact .inr ⟨node?_erase_self below, by simp [there]⟩
      · exact .inl (node?_erase_of_ne here)
    · exact absurd h (by simp)

/-- What can still be read could be read before. -/
theorem Loses.read (h : tree.Loses after) (read : after.read path = .ok content) :
    tree.read path = .ok content := by
  obtain ⟨place, located, there⟩ := read_eq_ok.mp read
  refine read_eq_ok.mpr ⟨place, h.sameFolders.symm.keeps.locate located, ?_⟩
  rcases h place with same | ⟨gone, -⟩
  · exact same.symm.trans there
  · exact absurd (gone.symm.trans there) (by simp)

end FileTree

namespace Cache

variable {files : FileTree}

theorem loses_dropOutput {chunk dropped : Chunk τ} {after : FileTree}
    (h : dropOutput chunk files = .ok (dropped, after)) : files.Loses after := by
  unfold dropOutput at h
  split at h
  · obtain ⟨-, rfl⟩ := Prod.mk.inj (Except.ok.inj h)
    exact .refl _
  · next path _ =>
    cases removed : files.remove (Path.ofText path).text with
    | error cause => simp [removed, bind, Except.bind] at h
    | ok after' =>
      simp only [removed, bind, Except.bind, pure, Except.pure, Except.ok.injEq, Prod.mk.injEq] at h
      obtain rfl := h.2
      exact FileTree.loses_of_remove removed

theorem loses_invalidateWhere (meets : Chunk τ → Bool) (chunks : List (Chunk τ)) (files : FileTree) :
    files.Loses (invalidateWhere meets chunks files).files := by
  fun_induction invalidateWhere meets chunks files with
  | case1 files => exact .refl files
  | case2 _ _ _ _ ih => exact ih
  | case3 _ _ _ _ _ _ _ _ dropped ih => exact (loses_dropOutput dropped).trans ih
  | case4 => exact .refl _
  | case5 _ _ _ _ _ ih => exact ih
  | case6 _ _ _ _ _ _ ih => exact ih

theorem loses_dropWhere (meets : Chunk τ → Bool) (chunks : List (Chunk τ)) (files : FileTree) :
    files.Loses (dropWhere meets chunks files).files := by
  fun_induction dropWhere meets chunks files with
  | case1 files => exact .refl files
  | case2 _ _ _ _ ih => exact ih
  | case3 _ _ _ _ _ _ dropped ih => exact (loses_dropOutput dropped).trans ih
  | case4 => exact .refl _

end Cache

/-! ### Calls -/

namespace CacheState

/-- Files are gone. -/
structure Strips (state next : CacheState τ) : Prop where
  folder : next.cache.folder = state.cache.folder
  now : next.disk.now = state.disk.now
  loses : state.disk.files.Loses next.disk.files

protected theorem Strips.refl (state : CacheState τ) : state.Strips state := ⟨rfl, rfl, .refl _⟩

/-- Files are gone, and after that the manifest may have been saved, as far as that went. -/
def Trims [Scalar τ] (state next : CacheState τ) : Prop :=
  state.Strips next ∨ ∃ middle, state.Strips middle ∧ next = leaves CacheAction.save middle

end CacheState

namespace CacheAction

open CacheState

section Strips

variable {state : CacheState τ}

/-- Files that are gone are gone from where nothing but files was gone before. -/
theorem keeps_strips_setFiles {files : FileTree} {middle : CacheState τ}
    (h : state.Strips middle) (loses : middle.disk.files.Loses files) :
    state.Strips { middle with disk := { middle.disk with files } } :=
  ⟨h.folder, h.now, h.loses.trans loses⟩

theorem keeps_strips_deleteChunkFiles (state : CacheState τ) : Keeps state.Strips deleteChunkFiles := by
  unfold deleteChunkFiles
  refine Keeps.bind (fun _ h => h) fun cache => Keeps.bind (fun _ h => h) fun files => ?_
  refine Keeps.bind (Keeps.forIn (fun name _ => ?_) _ _) fun _ => Keeps.pure
  split
  · refine Keeps.bind (fun middle h => ?_) fun result => ?_
    · rw [ensures_onFiles]
      split
      · next removed => exact keeps_strips_setFiles h (FileTree.loses_of_remove removed)
      · exact h
    · cases result with
      | ok _ => exact Keeps.pure
      | error cause => exact Keeps.throw
  · exact Keeps.pure

theorem keeps_strips_dropStale (state : CacheState τ) (chunk : Chunk τ) :
    Keeps state.Strips (dropStale chunk) := by
  intro middle h
  unfold dropStale
  split
  · exact h
  · rw [ensures_bind, ensures_files]
    split
    · next dropped =>
      rw [ensures_bind, ensures_setFiles]
      exact keeps_strips_setFiles h (Cache.loses_dropOutput dropped)
    · exact h

/-- A sweep that has removed files leaves its chunks, and what was removed is gone. -/
theorem strips_finishSweep {sweep : Cache.Sweep τ} (loses : state.disk.files.Loses sweep.files) :
    Ensures (finishSweep sweep) state (fun _ => state.Strips) state.Strips := by
  unfold finishSweep
  rw [ensures_bind, ensures_setFiles, ensures_bind, ensures_modify]
  split
  · exact ⟨rfl, rfl, loses⟩
  · exact ⟨rfl, rfl, loses⟩

end Strips

variable [Scalar τ] {state : CacheState τ}

theorem keeps_strips_findManifest (state : CacheState τ) : Keeps state.Strips findManifest := by
  intro middle h
  refine (findManifest_finds middle).mono ?_ ?_
  · rintro _ _ ⟨-, createdAt, rfl⟩
    exact ⟨h.folder, h.now, h.loses⟩
  · rintro _ rfl
    exact h

theorem keeps_strips_recover (state : CacheState τ) (found : Option (Manifest τ))
    (fresh : List (Chunk τ)) : Keeps state.Strips (recover found fresh) := by
  unfold recover
  cases found with
  | none => exact Keeps.pure
  | some manifest =>
    refine Keeps.bind (fun _ h => h) fun opened => ?_
    split
    · refine Keeps.bind (fun _ h => h) fun files => ?_
      split
      · exact Keeps.pure
      · exact Keeps.throw
    · intro middle h
      rw [ensures_bind]
      -- The cache in which the new age is put is the one from before.
      refine ((keeps_strips_deleteChunkFiles state middle h).and
        (deleteChunkFiles_keeps middle.cache middle rfl)).mono ?_ fun _ h => h.1
      rintro _ next ⟨stripped, same⟩
      rw [ensures_bind, ensures_cache, ensures_bind, ensures_get, ensures_bind, ensures_setCache]
      exact ⟨stripped.folder, stripped.now, stripped.loses⟩

/-- Where files are gone, the manifest is saved as far as that goes. -/
theorem trims_save {middle : CacheState τ} (h : state.Strips middle) :
    Ensures save middle (fun _ => state.Trims) state.Trims := by
  refine ensures_leaves.mono ?_ ?_
  · rintro _ _ rfl
    exact .inr ⟨middle, h, rfl⟩
  · rintro _ rfl
    exact .inr ⟨middle, h, rfl⟩

theorem trims_invalidateWhere (meets : Chunk τ → Bool) {middle : CacheState τ}
    (same : state.Strips middle) :
    Ensures (invalidateWhere meets) middle (fun _ => state.Trims) state.Trims := by
  unfold invalidateWhere
  rw [ensures_bind, ensures_cache, ensures_bind, ensures_files, ensures_bind]
  have strips (next : CacheState τ) (h : middle.Strips next) : state.Strips next :=
    ⟨h.folder.trans same.folder, h.now.trans same.now, same.loses.trans h.loses⟩
  refine (strips_finishSweep (Cache.loses_invalidateWhere meets _ _)).mono ?_
    fun next h => .inl (strips next h)
  intro _ next h
  dsimp only
  split
  · rw [ensures_bind]
    exact trims_save (strips next h)
  · exact .inl (strips next h)

theorem trims_repartition (duration : τ) :
    Ensures (repartition duration) state (fun _ => state.Trims) state.Trims := by
  unfold repartition
  rw [ensures_bind, ensures_cache]
  refine Ensures.liftM_bind (fun windows cut => ?_) (.inl (.refl state))
  rw [ensures_bind, ensures_files, ensures_bind]
  refine (strips_finishSweep (Cache.loses_dropWhere _ _ _)).mono ?_ fun _ h => .inl h
  intro _ next h
  rw [ensures_bind, ensures_cache, ensures_bind, ensures_setCache]
  exact trims_save ⟨h.folder, h.now, h.loses⟩

theorem trims_applySettings (settings : OutputFormat τ) :
    Ensures (applySettings settings) state (fun _ => state.Trims) state.Trims := by
  unfold applySettings invalidateEvery
  rw [ensures_bind, ensures_cache, ensures_bind, ensures_setCache]
  have same : state.Strips { state with cache := { state.cache with settings } } :=
    ⟨rfl, rfl, .refl _⟩
  split
  · exact .inl same
  · rw [ensures_bind]
    exact trims_invalidateWhere _ same

theorem trims_wipe : Ensures wipe state (fun _ => state.Trims) state.Trims := by
  unfold wipe
  rw [ensures_bind]
  refine (keeps_strips_deleteChunkFiles state state (.refl state)).mono ?_ fun _ h => .inl h
  intro _ next h
  rw [ensures_bind, ensures_cache, ensures_bind, ensures_setCache]
  exact trims_save ⟨h.folder, h.now, h.loses⟩

theorem trims_openProject (path : Option String) (duration : τ) (time : Option τ) :
    Ensures (openProject path duration time) state (fun _ => state.Trims) state.Trims := by
  unfold openProject
  rw [ensures_bind, ensures_cache, ensures_bind, ensures_setCache, ensures_bind]
  have begun : state.Strips (beginOpen path time state) := ⟨rfl, rfl, .refl _⟩
  refine (keeps_strips_findManifest state _ begun).mono ?_ fun _ h => .inl h
  intro found opened h
  rw [ensures_bind, ensures_cache]
  refine Ensures.liftM_bind (fun windows cut => ?_) (.inl h)
  rw [ensures_bind, ensures_setCache, ensures_bind]
  have counted (serial : Nat) : state.Strips
      { opened with cache := { opened.cache with nextSerial := serial } } :=
    ⟨h.folder, h.now, h.loses⟩
  refine (keeps_strips_recover state found _ _ (counted _)).mono ?_ fun _ h => .inl h
  intro chunks next h
  rw [ensures_bind, ensures_cache, ensures_bind, ensures_setCache]
  exact trims_save ⟨h.folder, h.now, h.loses⟩

theorem trims_finishRender (index : Int) (path : String) (contentHash : Option String)
    (isComplex : Option Bool) :
    Ensures (finishRender index path contentHash isComplex) state (fun _ => state.Trims)
      state.Trims := by
  unfold finishRender
  rw [ensures_bind, ensures_chunkAt]
  split
  · next chunk _ =>
    dsimp only
    split
    · exact .inl (.refl state)
    · rw [ensures_bind, ensures_putChunk, ensures_bind]
      have put : state.Strips { state with
          cache := state.cache.put (Cache.endRender chunk path contentHash isComplex) } :=
        ⟨rfl, rfl, .refl _⟩
      refine (keeps_strips_dropStale state _ _ put).mono ?_ fun _ h => .inl h
      intro ended next h
      rw [ensures_bind, ensures_putChunk, ensures_bind]
      exact trims_save ⟨h.folder, h.now, h.loses⟩
  · exact .inl (.refl state)

theorem trims_failRender (index : Int) (message : String) (contentHash : Option String) :
    Ensures (failRender index message contentHash) state (fun _ => state.Trims) state.Trims := by
  unfold failRender
  rw [ensures_bind, ensures_chunkAt]
  split
  · split
    · exact .inl (.refl state)
    · dsimp only
      rw [ensures_bind, ensures_putChunk, ensures_bind]
      exact trims_save ⟨rfl, rfl, .refl _⟩
  · exact .inl (.refl state)

end CacheAction

/-- A call of the cache removes files and may save the manifest, and nothing else changes on disk. -/
theorem CacheCall.trims [Scalar τ] (call : CacheCall τ)
    (own : ∀ files, call ≠ .change (.setFiles files)) (state : CacheState τ) :
    state.Trims (leaves call.action state) := by
  have whole {α : Type} {action : CacheAction τ α}
      (h : Ensures action state (fun _ => state.Trims) state.Trims) :
      state.Trims (leaves (do let _ ← action) state) := by
    rw [leaves_discard]
    exact h.leaves
  cases call with
  | change edit =>
    cases edit with
    | repartition duration => exact (CacheAction.trims_repartition duration).leaves
    | openProject path duration time => exact (CacheAction.trims_openProject path duration time).leaves
    | invalidate start stop => exact whole (CacheAction.trims_invalidateWhere _ (.refl _))
    | invalidateEvery => exact whole (CacheAction.trims_invalidateWhere _ (.refl _))
    | applySettings settings => exact whole (CacheAction.trims_applySettings settings)
    | wipe => exact CacheAction.trims_wipe.leaves
    | setFiles files => exact absurd rfl (own files)
  | startRender index =>
    refine whole ((CacheAction.startRender_state index state).mono ?_ ?_)
    · rintro _ _ ⟨chunk, -, rfl⟩
      have put : state.Strips { state with cache := state.cache.put (Cache.beginRender chunk) } :=
        ⟨rfl, rfl, .refl _⟩
      exact .inl put
    · rintro _ ⟨rfl, -⟩
      exact .inl (.refl _)
  | finishRender index path contentHash isComplex =>
    exact whole (CacheAction.trims_finishRender index path contentHash isComplex)
  | failRender index message contentHash =>
    exact whole (CacheAction.trims_failRender index message contentHash)

/-! ### The manifest -/

namespace Cache

variable {cache : Cache τ} {files after : FileTree}

/-- What lies where the manifest of a cache belongs. -/
def manifestNode? (cache : Cache τ) (files : FileTree) : Option FileNode :=
  files.node? (cache.folder.place ++ ["manifest.json"])

/-- A file that is written elsewhere in the folder is not the manifest. -/
theorem manifestNode?_of_write (inside : cache.folder.Inside) {name : String} (plain : Path.Plain name)
    (up : name ≠ "..") (differ : name ≠ "manifest.json") {content : List UInt8}
    (written : files.write (cache.folder.join name).text content = .ok after) :
    cache.manifestNode? after = cache.manifestNode? files := by
  obtain ⟨place, located, -, rfl⟩ := FileTree.write_eq_ok.mp written
  obtain rfl := FileTree.eq_place_of_locate (inside.join plain) located
  rw [Path.place_join plain up]
  refine FileTree.node?_put_of_ne fun same => differ ?_
  exact (List.singleton_inj.mp (List.append_inj' same rfl).2).symm

end Cache

section Manifest

variable [Scalar τ] {state next : CacheState τ} {manifest : Manifest τ}

/-- The manifest that lies in the folder of a cache, whether the folder can be entered or not. -/
def CacheState.Contains (state : CacheState τ) (manifest : Manifest τ) : Prop :=
  ∃ bytes text, state.cache.manifestNode? state.disk.files = some (.file bytes) ∧
    Text.Utf8.decode? bytes = some text ∧ Manifest.read? state.disk.now text = some manifest

namespace CacheState.Contains

/-- The manifest lay there before, if its file did. -/
theorem of_bytes (contains : next.Contains manifest) (now : next.disk.now = state.disk.now)
    (bytes : ∀ bytes, next.cache.manifestNode? next.disk.files = some (.file bytes) →
      state.cache.manifestNode? state.disk.files = some (.file bytes)) :
    state.Contains manifest := by
  obtain ⟨content, text, there, decoded, known⟩ := contains
  exact ⟨content, text, bytes content there, decoded, now ▸ known⟩

end CacheState.Contains

omit [Scalar τ] in
/-- A manifest that is saved lies in the folder afterwards. -/
theorem FileTree.Saves.manifestNode? {cache : Cache τ} {text : String} {tree after : FileTree}
    (saves : tree.Saves cache text after) (inside : cache.folder.Inside) :
    cache.manifestNode? after = some (.file (Text.Utf8.encode text)) := by
  obtain ⟨place, located, there⟩ := read_eq_ok.mp saves.holds
  obtain rfl := eq_place_of_locate (inside.join plain_manifest) located
  rw [Path.place_join plain_manifest (by decide)] at there
  exact there

omit [Scalar τ] in
/-- A manifest that is not written to its end leaves the one that lay there before. -/
theorem FileTree.StopsShort.manifestNode? {cache : Cache τ} {text : String} {tree after : FileTree}
    (stops : tree.StopsShort cache text after) (inside : cache.folder.Inside) {bytes : List UInt8}
    (there : cache.manifestNode? after = some (.file bytes)) :
    cache.manifestNode? tree = some (.file bytes) := by
  obtain rfl | ⟨made, folders, rfl | drafted⟩ := stops
  · exact there
  · exact (sameFiles_of_makeFolders folders _ _).mp there
  · have beside : cache.manifestNode? after = cache.manifestNode? made :=
      Cache.manifestNode?_of_write inside plain_draft (by decide) (by decide) drafted
    exact (sameFiles_of_makeFolders folders _ _).mp (beside.symm.trans there)

/-- What is found is what can be read from the text of the file. -/
theorem CacheAction.finds_iff_read :
    Finds state manifest ↔ ∃ bytes text,
      state.disk.files.read state.cache.manifestFile.text = .ok bytes ∧
        Text.Utf8.decode? bytes = some text ∧
        Manifest.read? state.disk.now text = some manifest := by
  rw [finds_iff]
  unfold readManifest
  rw [ensures_bind, ensures_cache]
  dsimp only
  rw [ensures_bind, ensures_files]
  cases state.disk.files.read state.cache.manifestFile.text with
  | error cause => simp [ensures_pure]
  | ok bytes =>
    dsimp only
    cases decoded : Text.Utf8.decode? bytes with
    | none => simp [ensures_throw, decoded]
    | some text =>
      dsimp only
      rw [ensures_bind, ensures_get, ensures_pure]
      simp [decoded]

/-- What is found in a folder lies there. -/
theorem CacheAction.contains_of_finds (inside : state.cache.folder.Inside)
    (found : Finds state manifest) : state.Contains manifest := by
  obtain ⟨bytes, text, read, decoded, known⟩ := finds_iff_read.mp found
  obtain ⟨place, located, there⟩ := FileTree.read_eq_ok.mp read
  obtain rfl := FileTree.eq_place_of_locate (inside.join FileTree.plain_manifest) located
  rw [Path.place_join FileTree.plain_manifest (by decide)] at there
  exact ⟨bytes, text, there, decoded, known⟩

/-- The manifest that lies in the folder after files are gone lay there before. -/
theorem CacheState.Strips.contains (strips : state.Strips next) (there : next.Contains manifest) :
    state.Contains manifest := by
  refine there.of_bytes strips.now fun bytes lies => ?_
  unfold Cache.manifestNode? at lies ⊢
  rw [strips.folder] at lies
  rcases strips.loses (state.cache.folder.place ++ ["manifest.json"]) with same | ⟨gone, -⟩
  · exact same.symm.trans lies
  · exact absurd (gone.symm.trans lies) (by simp)

theorem CacheState.Trims.folder (h : state.Trims next) : next.cache.folder = state.cache.folder := by
  rcases h with strips | ⟨middle, strips, rfl⟩
  · exact strips.folder
  · have same : (leaves CacheAction.save middle).cache = middle.cache :=
      (CacheAction.save_keeps middle.cache).leaves rfl
    rw [same]
    exact strips.folder

end Manifest

/-- The manifest that lies in the folder when it was saved lists what is valid. -/
theorem CacheState.Contains.entries_of_saves {state : CacheState Double}
    (inside : state.cache.folder.Inside) {after : FileTree}
    (saves : state.disk.files.Saves state.cache (state.cache.manifest state.disk.now).text after)
    {manifest : Manifest Double}
    (there : Contains { state with disk := { state.disk with files := after } } manifest) :
    manifest.entries = state.cache.entries := by
  obtain ⟨bytes, text, lies, decoded, known⟩ := there
  obtain rfl := FileNode.file.inj (Option.some.inj ((saves.manifestNode? inside).symm.trans lies))
  rw [Text.Utf8.decode?_encode] at decoded
  obtain rfl := Option.some.inj decoded
  exact Manifest.entries_of_read? known

/-- The manifest that lies in the folder after a call lay there before, or lists what is valid now. -/
theorem CacheState.Trims.contains {state next : CacheState Double} (h : state.Trims next)
    (inside : state.cache.folder.Inside) {manifest : Manifest Double} (there : next.Contains manifest) :
    state.Contains manifest ∨ manifest.entries = next.cache.entries := by
  rcases h with strips | ⟨middle, strips, rfl⟩
  · exact .inl (strips.contains there)
  · have inside' : middle.cache.folder.Inside := strips.folder ▸ inside
    rcases (CacheAction.save_spec middle).ends with ⟨-, files, saves, same⟩ | ⟨-, ⟨files, stops, same⟩, -⟩
    · rw [same] at there ⊢
      exact .inr (there.entries_of_saves inside' saves)
    · rw [same] at there
      exact .inl (strips.contains (there.of_bytes rfl fun _ => stops.manifestNode? inside'))

end Montage
