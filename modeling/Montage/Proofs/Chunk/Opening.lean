import Montage.Proofs.Chunk.Disk
import Montage.Proofs.Chunk.Reopen

/-!
# Opening a project whatever its manifest holds

The file of the manifest may hold any bytes. Text that is no manifest counts as none, and the project
is opened without chunks. But bytes that are no text stop it, and so do windows that cannot be counted,
a listed file that cannot be asked for, and a file of an old project that cannot be deleted.

## Main definitions

* `CacheState.Garbled` — the file of the manifest holds bytes that are no text
* `CacheState.OpeningFault` — what stops a project from being opened

## Main results

* `CacheAction.openProject_succeeds_iff` — nothing else stops a project whose manifest can be written,
  and without a manifest it is opened as with an empty folder
-/

namespace Montage

/-- A duration is above zero and has more windows than doubles count, or it has windows. -/
def CanBeCut (duration chunkDuration : Double) : Prop :=
  duration ≤ Scalar.zero ∨ (duration / chunkDuration).isFinite = true

/-- A timeline is cut if and only if the number of its windows can be counted. -/
theorem partition_isOk_iff {duration chunkDuration : Double} (length : Scalar.zero < chunkDuration) :
    (∃ windows, partition duration chunkDuration = .ok windows) ↔ CanBeCut duration chunkDuration := by
  refine ⟨?_, exists_partition length⟩
  rintro ⟨windows, cut⟩
  by_contra uncountable
  obtain ⟨above, endless⟩ := not_or.mp uncountable
  rw [partition, if_neg above, windowCount, if_neg (Double.not_beq_of_lt length)] at cut
  obtain ⟨units, fits, little⟩ := exists_eq_leftover
  rw [little] at cut
  generalize duration / chunkDuration = quotient at endless cut
  cases quotient with
  | nan => cases cut
  | infinite negative => cases cut
  | finite negative units fits => exact endless rfl

namespace FileTree

variable {tree now : FileTree} {folder : Path} {place : Place} {name : String}

/-- Below a folder a name that a path can have leads somewhere, unless something is too long. -/
theorem locate_join_cases (inside : folder.Inside) (plain : Path.Plain name) (up : name ≠ "..")
    (located : tree.locate folder.text = .ok place) (there : tree.node? place = some .folder) :
    (∃ goal, tree.locate (folder.join name).text = .ok goal) ∨
      tree.locate (folder.join name).text = .error (.nameTooLong (folder.join name).text) := by
  have reaches := walk_path (folder.join name).text ((locate_text_eq_ok inside).mp located).2
  rw [locate_text (inside.join plain), Path.names_join plain, walk_append, reaches]
  split
  · exact .inr rfl
  · change (∃ goal, tree.walk _ place [name] = .ok goal) ∨ tree.walk _ place [name] = _
    have counts : ¬ (name = "" || name = ".") = true := by
      simp [plain.nonempty, plain.not_here]
    rw [walk, there]
    dsimp only
    rw [if_neg counts, if_neg up]
    split
    · exact .inr rfl
    · exact .inl ⟨_, rfl⟩

/-- What cannot be written cannot be removed from a folder that is there. -/
theorem remove_of_not_canWrite (inside : folder.Inside) (plain : Path.Plain name) (up : name ≠ "..")
    (there : tree.isFolder folder.text = true) (stuck : ¬ tree.CanWrite (folder.join name).text) :
    ∃ cause, tree.remove (folder.join name).text = .error cause := by
  obtain ⟨place, located, there⟩ := isFolder_iff.mp there
  unfold remove
  obtain ⟨goal, leads⟩ | long := locate_join_cases inside plain up located there
  · have node : tree.node? goal = some .folder := by
      by_contra other
      exact stuck ⟨goal, leads, other⟩
    rw [leads]
    dsimp only
    rw [node]
    exact ⟨_, rfl⟩
  · rw [long]
    exact ⟨_, rfl⟩

/-- The names of rendered chunks in a folder are such as paths can have. -/
def NamesPlain (tree : FileTree) (folder : Path) : Prop :=
  ∀ name ∈ tree.namesIn folder.text, CacheAction.isChunkFile name = true → Path.Plain name

end FileTree

namespace CacheState

/-- The file of the manifest holds bytes that are no text. -/
def Garbled (state : CacheState Double) : Prop :=
  ∃ bytes, state.disk.files.read state.cache.manifestFile.text = .ok bytes ∧
    Text.Utf8.decode? bytes = none

/-- What stops a project from being opened. -/
inductive OpeningFault (state : CacheState Double) (path : Option String) (duration : Double) : Prop where
  | garbled (bytes : state.Garbled)
  /-- There are too many windows. -/
  | endless (uncut : ¬ CanBeCut duration state.cache.chunkDuration)
  /-- A file that an accepted manifest lists for a window cannot be asked for. -/
  | listed {manifest : Manifest Double} {windows : List (Window Double)} {entry : ManifestEntry}
      {cause : FileError} (found : CacheAction.Finds state manifest)
      (accepted : Cache.accepts { state.cache with projectHash := ContentHash.ofProject path }
        manifest = true)
      (cut : partition duration state.cache.chunkDuration = .ok windows)
      (inside : entry ∈ manifest.entries) (here : entry.index < windows.length)
      (unasked : state.disk.files.checkExists (state.cache.folder.join entry.fileName).text =
        .error cause)
  /-- What another project or output left behind cannot be deleted. -/
  | held {manifest : Manifest Double} (found : CacheAction.Finds state manifest)
      (refused : ¬ Cache.accepts { state.cache with projectHash := ContentHash.ofProject path }
        manifest = true)
      (stuck : ¬ state.disk.files.Clearable state.cache.folder)

end CacheState

namespace CacheAction

open FileTree

variable {state : CacheState Double} {path : Option String} {duration : Double} {time : Option Double}
  {windows : List (Window Double)} {manifest : Manifest Double} {found found? : Option (Manifest Double)}

/-! ### Reading the manifest -/

/-- What the file of the manifest holds: a manifest, none, or bytes that are no text. -/
def manifestRead (state : CacheState Double) : Except Failure (Option (Manifest Double)) :=
  match state.disk.files.read state.cache.manifestFile.text with
  | .error _ => .ok none
  | .ok bytes =>
    match Text.Utf8.decode? bytes with
    | none => .error .notText
    | some text => .ok (Manifest.read? state.disk.now text)

theorem readManifest_eq (state : CacheState Double) : readManifest state =
    match manifestRead state with
    | .ok found => .ok found state
    | .error failure => .error failure state := by
  have begun : cache state = .ok state.cache state := rfl
  have there : files state = .ok state.disk.files state := rfl
  unfold readManifest manifestRead
  refine (bind_of_ok begun).trans ((bind_of_ok there).trans ?_)
  cases state.disk.files.read state.cache.manifestFile.text with
  | error cause => rfl
  | ok bytes =>
    dsimp only
    cases Text.Utf8.decode? bytes with
    | none => rfl
    | some text => rfl

theorem readManifest_eq_ok_iff : readManifest state = .ok found state ↔ manifestRead state = .ok found := by
  rw [readManifest_eq]
  cases manifestRead state with
  | ok other =>
    constructor
    · rintro ⟨⟩
      rfl
    · rintro ⟨⟩
      rfl
  | error failure => exact iff_of_false nofun nofun

/-- Bytes that are no text are the only failure. -/
theorem manifestRead_cases (state : CacheState Double) :
    (¬ state.Garbled ∧ ∃ found, manifestRead state = .ok found) ∨
      state.Garbled ∧ manifestRead state = .error .notText := by
  unfold manifestRead CacheState.Garbled
  cases state.disk.files.read state.cache.manifestFile.text with
  | error cause => exact .inl ⟨nofun, none, rfl⟩
  | ok bytes =>
    dsimp only
    cases decoded : Text.Utf8.decode? bytes with
    | none => exact .inr ⟨⟨bytes, rfl, decoded⟩, rfl⟩
    | some text =>
      refine .inl ⟨?_, _, rfl⟩
      rintro ⟨_, ⟨⟩, noText⟩
      rw [decoded] at noText
      cases noText

/-! ### Deleting and restoring -/

/-- A loop in which one of the turns fails does not return. -/
theorem fails_forIn {α : Type} {visit : α → PUnit → CacheAction Double (ForInStep PUnit)}
    (holds : CacheState Double → Prop) (stuck : α → Prop)
    (turn : ∀ item state, holds state → Ensures (visit item ⟨⟩) state
      (fun step next => step = .yield ⟨⟩ ∧ holds next ∧ ¬ stuck item) fun _ => True)
    {items : List α} (some : ∃ item ∈ items, stuck item) (h : holds state) :
    Ensures (forIn items ⟨⟩ visit) state (fun _ _ => False) fun _ => True := by
  induction items generalizing state with
  | nil =>
    obtain ⟨item, inside, -⟩ := some
    cases inside
  | cons item rest ih =>
    rw [List.forIn_cons, ensures_bind]
    refine (turn item state h).mono ?_ fun _ fails => fails
    rintro _ next ⟨rfl, hnext, free⟩
    refine ih ?_ hnext
    obtain ⟨other, inside, stuck⟩ := some
    obtain rfl | inside := List.mem_cons.mp inside
    · exact absurd stuck free
    · exact ⟨other, inside, stuck⟩

/-- The files of chunks are deleted if and only if each can be. -/
theorem deleteChunkFiles_succeeds_iff (inside : state.cache.folder.Inside)
    (folder : state.disk.files.isFolder state.cache.folder.text = true)
    (plain : state.disk.files.NamesPlain state.cache.folder) :
    succeeds deleteChunkFiles state = true ↔ state.disk.files.Clearable state.cache.folder := by
  constructor
  · intro returns
    by_contra unclearable
    have fails : Ensures deleteChunkFiles state (fun _ _ => False) fun _ => True := by
      unfold deleteChunkFiles
      rw [ensures_bind, ensures_cache, ensures_bind, ensures_files, ensures_bind]
      -- Folders stay where they are, whatever files are gone.
      let stuck (name : String) : Prop := isChunkFile name = true ∧
        name ∈ state.disk.files.namesIn state.cache.folder.text ∧
          ¬ state.disk.files.CanWrite (state.cache.folder.join name).text
      refine (fails_forIn (fun next => state.disk.files.SameFolders next.disk.files) stuck
        (fun name next same => ?_) ?_ (.refl _)).mono (fun _ _ never => never.elim) fun _ h => h
      · split
        · next chunk =>
          rw [ensures_bind, ensures_onFiles]
          cases removed : next.disk.files.remove (state.cache.folder.join name).text with
          | error cause => trivial
          | ok after =>
            refine ⟨rfl, same.trans (loses_of_remove removed).sameFolders, ?_⟩
            rintro ⟨-, held, blocked⟩
            have blocked' : ¬ next.disk.files.CanWrite (state.cache.folder.join name).text :=
              fun free => blocked (same.symm.canWrite free)
            have up := ne_of_unlike chunk unlike_up
            obtain ⟨cause, fails⟩ := remove_of_not_canWrite inside (plain name held chunk) up
              (same.keeps.isFolder folder) blocked'
            rw [removed] at fails
            cases fails
        · next other =>
          exact ⟨rfl, same, fun blocked => other blocked.1⟩
      · obtain ⟨name, unclearable⟩ := not_forall.mp unclearable
        obtain ⟨held, unclearable⟩ := Classical.not_imp.mp unclearable
        obtain ⟨chunk, unclearable⟩ := Classical.not_imp.mp unclearable
        exact ⟨name, held, chunk, held, fun free => unclearable ⟨plain name held chunk, free⟩⟩
    rw [fails.not_succeeds] at returns
    cases returns
  · intro clearable
    obtain ⟨_, next, ran, -⟩ := (deleteChunkFiles_clears inside folder clearable).exists_ok
    rw [succeeds, ran]

/-- Chunks are restored if and only if each file that is listed for one can be asked for. -/
theorem restore_succeeds_iff (folder : Path) (files : FileTree) (chunks : List (Chunk Double))
    (entries : List ManifestEntry) :
    (∃ restored, restore folder files chunks entries = .ok restored) ↔
      ∀ entry ∈ entries, entry.index < chunks.length →
        ∃ there, files.checkExists (folder.join entry.fileName).text = .ok there := by
  induction entries generalizing chunks with
  | nil => exact iff_of_true ⟨chunks, rfl⟩ (List.forall_mem_nil _)
  | cons entry rest ih =>
    rw [List.forall_mem_cons, restore]
    by_cases here : entry.index < chunks.length
    · rw [if_pos here]
      cases asked : files.checkExists (folder.join entry.fileName).text with
      | error cause =>
        refine iff_of_false (by simp [bind, Except.bind]) fun h => ?_
        obtain ⟨_, told⟩ := h.1 here
        cases told
      | ok there =>
        rw [and_iff_right fun _ => ⟨there, rfl⟩]
        cases there with
        | false => exact ih chunks
        | true =>
          refine (ih _).trans ?_
          rw [List.length_map]
    · rw [if_neg here, and_iff_right fun below => absurd below here]
      exact ih chunks

/-! ### Opening -/

/-- A cache that has opened a project without a manifest. -/
def opened (path : Option String) (duration : Double) (time : Option Double)
    (windows : List (Window Double)) (state : CacheState Double) : CacheState Double :=
  { state with cache := { state.cache with
      projectHash := ContentHash.ofProject path, projectTime := time
      nextSerial := state.cache.nextSerial + windows.length
      chunks := Cache.arrange state.cache.nextSerial 0 [] windows
      totalDuration := Scalar.maxOf Scalar.zero duration } }

/-- Bytes that are no text stop a project from being opened at once. -/
theorem openProject_of_garbled (garbled : manifestRead state = .error .notText) :
    openProject path duration time state = .error .notText (beginOpen path time state) := by
  have stops : findManifest (beginOpen path time state) = .error .notText (beginOpen path time state) := by
    have read : readManifest (beginOpen path time state) =
        .error .notText (beginOpen path time state) := by
      have same : manifestRead (beginOpen path time state) = .error .notText := garbled
      rw [readManifest_eq, same]
    change EStateM.bind readManifest _ (beginOpen path time state) = _
    unfold EStateM.bind
    rw [read]
  change EStateM.bind findManifest _ (beginOpen path time state) = _
  unfold EStateM.bind
  rw [stops]

/-- Without a manifest all that is left to do is to save one. -/
theorem ensures_openProject_of_none (nothing : manifestRead state = .ok none)
    (cut : partition duration state.cache.chunkDuration = .ok windows)
    {returns : Unit → CacheState Double → Prop} {fails : CacheState Double → Prop} :
    Ensures (openProject path duration time) state returns fails ↔
      Ensures save (opened path duration time windows state) returns fails := by
  have read : readManifest (beginOpen path time state) = .ok none (beginOpen path time state) :=
    readManifest_eq_ok_iff.mpr nothing
  have lifted : (liftM (partition duration (beginOpen path time state).cache.chunkDuration) :
      Except Failure (List (Window Double))) = .ok windows := by
    have cut' : partition duration (beginOpen path time state).cache.chunkDuration = .ok windows := cut
    rw [cut']
    rfl
  unfold openProject findManifest
  rw [ensures_bind, ensures_cache, ensures_bind, ensures_setCache, ensures_bind, ensures_bind]
  change Ensures readManifest (beginOpen path time state) _ _ ↔ _
  rw [ensures_of_ok read, ensures_pure, ensures_bind, ensures_cache, ensures_bind, ensures_liftM]
  dsimp only
  rw [lifted]
  dsimp only
  rw [ensures_bind, ensures_setCache, ensures_bind, recover, ensures_pure, ensures_bind, ensures_cache,
    ensures_bind, ensures_setCache]
  rfl

/-- With a manifest that is accepted, the files that it lists must be such as can be asked for. -/
theorem openProject_succeeds_of_accepts (writable : state.disk.files.TakesManifest state.cache)
    (found : Finds state manifest)
    (cut : partition duration state.cache.chunkDuration = .ok windows)
    (accepted : (beginOpen path time state).cache.accepts manifest = true) :
    succeeds (openProject path duration time) state = true ↔
      ∀ entry ∈ manifest.entries, entry.index < windows.length → ∃ there,
        state.disk.files.checkExists (state.cache.folder.join entry.fileName).text = .ok there := by
  have found' : Finds (beginOpen path time state) manifest := found.congr rfl rfl
  have length := Cache.length_arrange state.cache.nextSerial 0 [] windows
  have askable := restore_succeeds_iff state.cache.folder state.disk.files
    (Cache.arrange state.cache.nextSerial 0 [] windows) manifest.entries
  rw [length] at askable
  rw [← askable]
  constructor
  · intro returns
    by_contra stuck
    have failed : (restore state.cache.folder state.disk.files
        (Cache.arrange state.cache.nextSerial 0 [] windows) manifest.entries).toBool = false := by
      cases restores : restore state.cache.folder state.disk.files
        (Cache.arrange state.cache.nextSerial 0 [] windows) manifest.entries with
      | ok chunks => exact absurd ⟨chunks, restores⟩ stuck
      | error cause => rfl
    rw [openProject_fails_of_restore found' cut accepted failed] at returns
    cases returns
  · rintro ⟨chunks, restores⟩
    have opens : Ensures (openProject path duration time) state (fun _ _ => True) fun _ => False := by
      have accepted' : (withFound manifest windows (beginOpen path time state)).cache.accepts manifest =
        true := accepted
      have restores' : restore (withFound manifest windows (beginOpen path time state)).cache.folder
        (withFound manifest windows (beginOpen path time state)).disk.files
        (Cache.arrange state.cache.nextSerial 0 [] windows) manifest.entries = .ok chunks := restores
      rw [ensures_openProject found' cut, ensures_recover_of_accepts accepted', restores']
      refine Ensures.mono (save_of_takesManifest ?_) (fun _ _ _ => trivial) fun _ h => h
      exact writable.of_folder rfl
    obtain ⟨_, next, ran, -⟩ := opens.exists_ok
    rw [succeeds, ran]

/-- With a manifest that is not accepted, what it left behind must be such as can be deleted. -/
theorem openProject_succeeds_of_not_accepts (inside : state.cache.folder.Inside)
    (writable : state.disk.files.TakesManifest state.cache)
    (plain : state.disk.files.NamesPlain state.cache.folder) (found : Finds state manifest)
    (cut : partition duration state.cache.chunkDuration = .ok windows)
    (refused : ¬ (beginOpen path time state).cache.accepts manifest = true) :
    succeeds (openProject path duration time) state = true ↔
      state.disk.files.Clearable state.cache.folder := by
  have found' : Finds (beginOpen path time state) manifest := found.congr rfl rfl
  let middle := withFound manifest windows (beginOpen path time state)
  have deletes : succeeds deleteChunkFiles middle = true ↔ state.disk.files.Clearable state.cache.folder :=
    deleteChunkFiles_succeeds_iff inside writable.folder plain
  constructor
  · intro returns
    by_contra stuck
    have failed : succeeds deleteChunkFiles middle = false :=
      Bool.eq_false_iff.mpr fun h => stuck (deletes.mp h)
    rw [openProject_fails_of_delete found' cut refused failed] at returns
    cases returns
  · intro clearable
    have opens : Ensures (openProject path duration time) state (fun _ _ => True) fun _ => False := by
      have refused' : ¬ middle.cache.accepts manifest = true := refused
      rw [ensures_openProject found' cut, ensures_recover_of_not_accepts refused']
      have clears : Ensures deleteChunkFiles middle _ _ :=
        deleteChunkFiles_clears inside writable.folder clearable
      refine clears.mono (fun _ next cleared => ?_) fun _ h => h
      have folder : next.cache.folder = state.cache.folder := congrArg (·.cache.folder) cleared.1
      have writable' := (writable.of_sameFolders cleared.2.1.sameFolders).of_folder folder
      refine Ensures.mono (save_of_takesManifest ?_) (fun _ _ _ => trivial) fun _ h => h
      exact writable'.of_folder rfl
    obtain ⟨_, next, ran, -⟩ := opens.exists_ok
    rw [succeeds, ran]

/-- Text that is no manifest is as good as no file. -/
theorem openProject_of_none (path : Option String) (time : Option Double)
    (writable : state.disk.files.TakesManifest state.cache) (nothing : manifestRead state = .ok none)
    (cut : partition duration state.cache.chunkDuration = .ok windows) :
    ∃ next, openProject path duration time state = .ok () next ∧
      next.cache = (opened path duration time windows state).cache ∧
      next.disk.files.Holds next.cache (next.cache.manifest state.disk.now).text ∧
      next.disk.now = state.disk.now := by
  have opens : Ensures (openProject path duration time) state
      (fun _ next => next.cache = (opened path duration time windows state).cache ∧
        next.disk.files.Holds next.cache (next.cache.manifest state.disk.now).text ∧
        next.disk.now = state.disk.now) fun _ => False := by
    rw [ensures_openProject_of_none nothing cut]
    refine Ensures.mono (save_of_takesManifest ?_) (fun _ next saved => ?_) fun _ h => h
    · exact writable.of_folder rfl
    · obtain ⟨after, saves, rfl⟩ := saved
      exact ⟨rfl, saves.holds, rfl⟩
  obtain ⟨_, next, ran, h⟩ := opens.exists_ok
  exact ⟨next, ran, h⟩

theorem missing_of_mem_opened {chunk : Chunk Double}
    (h : chunk ∈ (opened path duration time windows state).cache.chunks) : chunk.status = .missing := by
  obtain ⟨i, hi⟩ := List.mem_iff_getElem?.mp h
  exact (Cache.arrange_fresh hi).2

theorem eq_of_finds_of_read (found : Finds state manifest) (read : manifestRead state = .ok found?) :
    found? = some manifest :=
  (Except.ok.inj ((readManifest_eq_ok_iff.mp found).symm.trans read)).symm

/-- Where the bytes are text and the windows can be counted, only a manifest can be in the way. -/
theorem openingFault_iff (read : manifestRead state = .ok found?)
    (cut : partition duration state.cache.chunkDuration = .ok windows)
    (length : Scalar.zero < state.cache.chunkDuration) :
    state.OpeningFault path duration ↔ ∃ manifest, found? = some manifest ∧
      (Cache.accepts { state.cache with projectHash := ContentHash.ofProject path } manifest = true ∧
          ¬ (∀ entry ∈ manifest.entries, entry.index < windows.length → ∃ there,
            state.disk.files.checkExists (state.cache.folder.join entry.fileName).text = .ok there) ∨
        ¬ Cache.accepts { state.cache with projectHash := ContentHash.ofProject path } manifest = true ∧
          ¬ state.disk.files.Clearable state.cache.folder) := by
  constructor
  · intro fault
    cases fault with
    | garbled bytes =>
      obtain ⟨text, -⟩ | ⟨-, fails⟩ := manifestRead_cases state
      · exact absurd bytes text
      · rw [read] at fails
        cases fails
    | endless uncut => exact absurd ((partition_isOk_iff length).mp ⟨windows, cut⟩) uncut
    | listed found accepted cut' inside here unasked =>
      obtain rfl := Except.ok.inj (cut.symm.trans cut')
      refine ⟨_, eq_of_finds_of_read found read, .inl ⟨accepted, fun askable => ?_⟩⟩
      obtain ⟨there, asked⟩ := askable _ inside here
      rw [unasked] at asked
      cases asked
    | held found refused stuck =>
      exact ⟨_, eq_of_finds_of_read found read, .inr ⟨refused, stuck⟩⟩
  · rintro ⟨manifest, rfl, ⟨accepted, unaskable⟩ | ⟨refused, stuck⟩⟩
    · obtain ⟨entry, unaskable⟩ := not_forall.mp unaskable
      obtain ⟨inside, unaskable⟩ := Classical.not_imp.mp unaskable
      obtain ⟨here, unaskable⟩ := Classical.not_imp.mp unaskable
      cases asked : state.disk.files.checkExists (state.cache.folder.join entry.fileName).text with
      | ok there => exact absurd ⟨there, asked⟩ unaskable
      | error cause => exact .listed (readManifest_eq_ok_iff.mpr read) accepted cut inside here asked
    · exact .held (readManifest_eq_ok_iff.mpr read) refused stuck

theorem succeeds_iff_of_read (inside : state.cache.folder.Inside)
    (writable : state.disk.files.TakesManifest state.cache)
    (plain : state.disk.files.NamesPlain state.cache.folder)
    (length : Scalar.zero < state.cache.chunkDuration) (read : manifestRead state = .ok found?)
    (cut : partition duration state.cache.chunkDuration = .ok windows) :
    succeeds (openProject path duration time) state = true ↔ ¬ state.OpeningFault path duration := by
  rw [openingFault_iff read cut length]
  cases found? with
  | none =>
    obtain ⟨next, ran, -⟩ := openProject_of_none path time writable read cut
    rw [succeeds, ran]
    refine iff_of_true rfl ?_
    rintro ⟨manifest, impossible, -⟩
    cases impossible
  | some manifest =>
    have found : Finds state manifest := readManifest_eq_ok_iff.mpr read
    simp only [Option.some.injEq, exists_eq_left']
    by_cases accepted : (beginOpen path time state).cache.accepts manifest = true
    · have accepted' : Cache.accepts { state.cache with projectHash := ContentHash.ofProject path }
        manifest = true := accepted
      rw [openProject_succeeds_of_accepts writable found cut accepted]
      rw [or_iff_left fun h => h.1 accepted', and_iff_right accepted', not_not]
    · have refused : ¬ Cache.accepts { state.cache with projectHash := ContentHash.ofProject path }
        manifest = true := accepted
      rw [openProject_succeeds_of_not_accepts inside writable plain found cut accepted]
      rw [or_iff_right fun h => refused h.1, and_iff_right refused, not_not]

end CacheAction

/-! ### A manifest of one byte -/

namespace OneByte

open CacheAction Repainted

/-- A cache in whose folder nothing lies, or the file of a manifest. -/
def filled (manifest : List (Place × FileNode)) : CacheState Double where
  cache := created.cache
  disk := { files := ⟨(["cache"], .folder) :: manifest⟩, now := day }

/-- The file of the manifest holds one byte. -/
def byte (b : UInt8) : CacheState Double := filled [(["cache", "manifest.json"], .file [b])]

-- What is evaluated stands together, since each evaluation takes its time.
theorem bytes_known : (∀ b ∈ [(0x78 : UInt8), 0xFF],
      (byte b).disk.files.namesIn (byte b).cache.folder.text = ["manifest.json"] ∧
      (byte b).disk.files.read (byte b).cache.manifestFile.text = .ok [b] ∧
      (byte b).disk.files.TakesManifest (byte b).cache) ∧
    (filled []).disk.files.TakesManifest (filled []).cache ∧
    (filled []).disk.files.pathExists (filled []).cache.manifestFile.text = false ∧
    Text.Utf8.decode? [0x78] = some "x" ∧ Text.Utf8.decode? [0xFF] = none ∧
    isChunkFile "manifest.json" = false := by decide +kernel

theorem letter_known : (Manifest.read? day "x" : Option (Manifest Double)) = none := by decide +kernel

theorem byte_length (b : UInt8) : (byte b).cache.chunkDuration = half := by
  simp only [byte, filled, created]

theorem byte_plain {b : UInt8}
    (names : (byte b).disk.files.namesIn (byte b).cache.folder.text = ["manifest.json"]) :
    (byte b).disk.files.NamesPlain (byte b).cache.folder := by
  intro name held chunk
  rw [names, List.mem_singleton] at held
  subst held
  rw [bytes_known.2.2.2.2.2] at chunk
  cases chunk

end OneByte

end Montage
