import Montage.Proofs.Chunk.Action

/-!
# What is reused when a project is opened again

What was rendered may be kept in two ways: in a session whose settings change, and in one that opens
the project again and finds the manifest of the last. A change of settings looks at all that shapes
the output. A manifest says how large the frames are and at which rate they come, and nothing of the
background and of the sampling of sound; so what was rendered for another background is found again
and taken as valid, where a change of settings would have had it rendered anew.
-/

namespace Montage

variable {τ : Type}

namespace OutputFormat

/-- The frames have the same size and come at the same rate. -/
def SameFrames [Scalar τ] (a b : OutputFormat τ) : Prop :=
  a.width = b.width ∧ a.height = b.height ∧ (a.frameRate.value == b.frameRate.value) = true

instance [Scalar τ] (a b : OutputFormat τ) : Decidable (a.SameFrames b) :=
  inferInstanceAs (Decidable (_ ∧ _))

/-- What lies behind the frames and how the sound is sampled are the same. -/
def SameBacking (a b : OutputFormat τ) : Prop :=
  a.background = b.background ∧ a.sampleRate = b.sampleRate

theorem sameOutput_iff_frames_backing [Scalar τ] {a b : OutputFormat τ} :
    a.sameOutput b = true ↔ a.SameFrames b ∧ a.SameBacking b := by
  rw [sameOutput_iff, SameFrames, SameBacking]
  tauto

end OutputFormat

/-- A chunk that is as an entry of a manifest says. -/
def Chunk.IsIn (chunk : Chunk τ) (manifest : Manifest τ) : Prop :=
  ∃ entry ∈ manifest.entries, chunk.index = entry.index ∧
    chunk.contentHash = some entry.contentHash

namespace Cache

/-- An entry of a manifest stands for a valid chunk. -/
theorem entry?_eq_some {chunk : Chunk τ} {entry : ManifestEntry} (h : entry? chunk = some entry) :
    chunk.status = .valid ∧ chunk.index = entry.index ∧
      chunk.contentHash = some entry.contentHash := by
  unfold entry? at h
  split at h
  · next contentHash valid _ hash =>
    obtain rfl := Option.some.inj h
    exact ⟨valid, rfl, (Option.filter_eq_some_iff.mp hash).1⟩
  · exact absurd h (by simp)

variable [Scalar τ]

/-- What stands in the manifest of a cache is valid there. -/
theorem exists_valid_of_isIn {cache : Cache τ} {now : Timestamp} {chunk : Chunk τ}
    (h : chunk.IsIn (cache.manifest now)) :
    ∃ old ∈ cache.chunks, old.status = .valid ∧ old.index = chunk.index ∧
      old.contentHash = chunk.contentHash := by
  obtain ⟨entry, hentry, index, contentHash⟩ := h
  obtain ⟨old, hold, made⟩ := List.mem_filterMap.mp hentry
  obtain ⟨valid, index', contentHash'⟩ := entry?_eq_some made
  exact ⟨old, hold, valid, index'.trans index.symm, contentHash'.trans contentHash.symm⟩

/-- A cache takes the manifest of another one with the same project, windows of the same length and
frames of the same kind. -/
theorem accepts_manifest_iff {cache other : Cache τ} {now : Timestamp} :
    cache.accepts (other.manifest now) = true ↔ other.projectHash = cache.projectHash ∧
      (other.chunkDuration == cache.chunkDuration) = true ∧
      other.settings.SameFrames cache.settings := by
  simp only [accepts, Bool.and_eq_true, decide_eq_true_eq]
  simp only [manifest, OutputFormat.SameFrames, Prod.mk.injEq]
  tauto

end Cache

namespace CacheAction

/-- A chunk as an entry of a manifest says. -/
def asListed (folder : Path) (entry : ManifestEntry) (chunk : Chunk τ) : Chunk τ :=
  { chunk with
    status := .valid, contentHash := some entry.contentHash
    outputPath := some (folder.join entry.fileName).text, isComplex := entry.isComplex }

/-- What holds of some chunks, and of a chunk as an entry for its place says whose file is there, holds
of all chunks when the entries were restored. -/
theorem restore_forall {holds : Chunk τ → Prop} {folder : Path} {files : FileTree}
    {entries : List ManifestEntry}
    (listed : ∀ entry ∈ entries, files.checkExists (folder.join entry.fileName).text = .ok true →
      ∀ chunk : Chunk τ, chunk.index = entry.index → holds (asListed folder entry chunk))
    {chunks restored : List (Chunk τ)} (earlier : ∀ chunk ∈ chunks, holds chunk)
    (h : restore folder files chunks entries = .ok restored) : ∀ chunk ∈ restored, holds chunk := by
  induction entries generalizing chunks with
  | nil =>
    obtain rfl := Except.ok.inj h
    exact earlier
  | cons entry rest ih =>
    obtain ⟨hentry, listed⟩ := List.forall_mem_cons.mp listed
    unfold restore at h
    split at h
    · cases hfile : files.checkExists (folder.join entry.fileName).text with
      | error cause => simp [hfile, bind, Except.bind] at h
      | ok there =>
        cases there with
        | false => exact ih listed earlier (by simpa [hfile, bind, Except.bind] using h)
        | true =>
          -- The chunk that is restored is as the entry says, and the others are as they were.
          refine ih listed (fun chunk hchunk => ?_)
            (by simpa [hfile, bind, Except.bind, pure, Except.pure] using h)
          obtain ⟨old, hold, rfl⟩ := List.mem_map.mp hchunk
          split
          · next here => exact hentry hfile old here
          · exact earlier old hold
    · exact ih listed earlier h

variable [Scalar τ]

/-- There is a manifest on disk that can be read. -/
def Finds (state : CacheState τ) (manifest : Manifest τ) : Prop :=
  readManifest state = .ok (some manifest) state

theorem finds_iff {state : CacheState τ} {manifest : Manifest τ} :
    Finds state manifest ↔
      Ensures readManifest state (fun found _ => found = some manifest) (fun _ => False) := by
  have same := readManifest_spec state
  unfold Finds
  unfold Ensures at same ⊢
  cases hread : readManifest state with
  | ok found next =>
    rw [hread] at same
    simp only [same, EStateM.Result.ok.injEq, and_true]
  | error failure next => simp

/-- The manifest that is found depends on the folder and the disk. -/
theorem Finds.congr {a b : CacheState τ} {manifest : Manifest τ} (h : Finds b manifest)
    (folder : b.cache.folder = a.cache.folder) (disk : b.disk = a.disk) : Finds a manifest := by
  rw [finds_iff] at h ⊢
  unfold readManifest at h ⊢
  rw [ensures_bind, ensures_cache] at h ⊢
  dsimp only [Cache.manifestFile] at h ⊢
  rw [ensures_bind, ensures_files] at h ⊢
  rw [← folder, ← disk]
  split
  · next hread =>
    rw [hread] at h
    exact h
  · next hread =>
    rw [hread] at h
    dsimp only at h
    split
    · next hdecode =>
      rw [hdecode] at h
      exact h
    · next hdecode =>
      rw [hdecode] at h
      rw [ensures_bind, ensures_get] at h ⊢
      rw [← disk]
      exact h

/-- What is found is on disk, and the cache is as it was but for its age. -/
theorem findManifest_finds (state : CacheState τ) :
    Ensures findManifest state
      (fun found next => (∀ manifest, found = some manifest → Finds state manifest) ∧
        ∃ createdAt, next = { state with cache := { state.cache with createdAt } })
      (fun next => next = state) := by
  have same := readManifest_spec state
  unfold findManifest
  rw [ensures_bind]
  unfold Ensures at same ⊢
  cases hread : readManifest state with
  | error failure next => exact by rwa [hread] at same
  | ok found next =>
    rw [hread] at same
    obtain rfl : next = state := same
    cases found with
    | none => exact ⟨fun _ none => absurd none (by simp), next.cache.createdAt, rfl⟩
    | some manifest =>
      refine ⟨?_, manifest.createdAt, rfl⟩
      rintro _ ⟨⟩
      exact hread

/-- A change of settings reports no change where the output stays the same, and only there. -/
theorem applySettings_unchanged_iff {state : CacheState τ} {settings : OutputFormat τ} :
    (∃ next, applySettings settings state = .ok false next) ↔
      state.cache.settings.sameOutput settings = true := by
  constructor
  · rintro ⟨next, ran⟩
    have reported := (ensures_of_ok ran).mp (applySettings_spec settings state)
    simpa using reported.1
  · intro same
    have unchanged : Ensures (applySettings settings) state (fun changed _ => changed = false)
        (fun _ => False) := by
      unfold applySettings
      rw [ensures_bind, ensures_cache, ensures_bind, ensures_setCache, if_pos same]
      exact rfl
    obtain ⟨changed, next, ran, rfl⟩ := unchanged.exists_ok
    exact ⟨next, ran⟩

/-- What holds of new chunks, and of chunks as a manifest says that is accepted, holds of what is
recovered. -/
theorem recover_forall {holds : Chunk τ → Prop} {found : Option (Manifest τ)} {fresh : List (Chunk τ)}
    (state : CacheState τ) (first : ∀ chunk ∈ fresh, holds chunk)
    (listed : ∀ manifest, found = some manifest → state.cache.accepts manifest = true →
      ∀ entry ∈ manifest.entries, ∀ chunk : Chunk τ, chunk.index = entry.index →
        holds (asListed state.cache.folder entry chunk)) :
    Ensures (recover found fresh) state (fun chunks _ => ∀ chunk ∈ chunks, holds chunk)
      (fun _ => True) := by
  unfold recover
  cases found with
  | none => exact first
  | some manifest =>
    dsimp only
    rw [ensures_bind, ensures_cache]
    split
    · next accepted =>
      rw [ensures_bind, ensures_files]
      split
      · next hrestore =>
        exact restore_forall (fun entry h _ => listed manifest rfl accepted entry h) first hrestore
      · trivial
    · rw [ensures_bind]
      exact (deleteChunkFiles_keeps state.cache state rfl).mono (fun _ _ _ => first)
        fun _ _ => trivial

/-- What holds of missing chunks, and of chunks as the manifest on disk says if that is to be accepted,
holds of all chunks of a project that was just opened. -/
theorem openProject_forall {holds : Chunk τ → Prop} (projectPath : Option String) (duration : τ)
    (projectTime : Option τ) (state : CacheState τ)
    (missing : ∀ chunk : Chunk τ, chunk.status = .missing → holds chunk)
    (listed : ∀ manifest, Finds state manifest →
      { state.cache with projectHash := ContentHash.ofProject projectPath }.accepts manifest = true →
      ∀ entry ∈ manifest.entries, ∀ chunk : Chunk τ, chunk.index = entry.index →
        holds (asListed state.cache.folder entry chunk)) :
    let all (next : CacheState τ) : Prop := ∀ chunk ∈ next.cache.chunks, holds chunk
    Ensures (openProject projectPath duration projectTime) state (fun _ => all) all := by
  intro all
  have empty {next : CacheState τ} (h : next.cache.chunks = []) : all next := by
    intro chunk hchunk
    rw [h] at hchunk
    exact absurd hchunk (by simp)
  unfold openProject
  rw [ensures_bind, ensures_cache, ensures_bind, ensures_setCache, ensures_bind]
  refine (findManifest_finds _).mono ?_ fun next h => h ▸ empty rfl
  rintro found opened ⟨hfound, createdAt, rfl⟩
  rw [ensures_bind, ensures_cache, ensures_bind, ensures_liftM]
  dsimp only
  cases (liftM (partition duration state.cache.chunkDuration) :
    Except Failure (List (Window τ))) with
  | error cause => exact empty rfl
  | ok windows =>
    dsimp only
    rw [ensures_bind, ensures_setCache, ensures_bind]
    -- Before the manifest is read, every chunk is missing.
    have first : ∀ chunk ∈ Cache.arrange state.cache.nextSerial 0 [] windows, holds chunk := by
      intro chunk hchunk
      rcases Cache.mem_arrange hchunk with kept | ⟨-, isMissing, -⟩
      · exact absurd kept (by simp)
      · exact missing chunk isMissing
    refine ((recover_forall _ first ?_).and (recover_spec _ _ _)).mono ?_
      fun next h => empty h.2.chunks
    · exact fun manifest known accepted =>
        listed manifest ((hfound manifest known).congr rfl rfl) accepted
    rintro chunks middle ⟨held, -⟩
    rw [ensures_bind, ensures_cache, ensures_bind, ensures_setCache]
    have done {next : CacheState τ} (h : next.cache = { middle.cache with
        chunks, totalDuration := Scalar.maxOf Scalar.zero duration }) : all next := by
      intro chunk hchunk
      rw [h] at hchunk
      exact held chunk hchunk
    -- Writing the manifest anew leaves the chunks as they are, even if it fails.
    exact (save_keeps _ _ rfl).mono (fun _ next h => done h) fun next h => done h

/-- What is valid in a project that was just opened is in the manifest on disk, and that is one to be
accepted. -/
theorem openProject_restores (projectPath : Option String) (duration : τ) (projectTime : Option τ)
    (state : CacheState τ) :
    let restored (next : CacheState τ) : Prop := ∀ chunk ∈ next.cache.chunks, chunk.status = .valid →
      ∃ manifest, Finds state manifest ∧ chunk.IsIn manifest ∧
        { state.cache with projectHash := ContentHash.ofProject projectPath }.accepts manifest = true
    Ensures (openProject projectPath duration projectTime) state (fun _ => restored) restored := by
  refine openProject_forall projectPath duration projectTime state ?_ ?_
  · intro chunk missing valid
    exact absurd (missing.symm.trans valid) (by decide)
  · intro manifest found accepted entry hentry chunk place _
    exact ⟨manifest, found, ⟨entry, hentry, place, rfl⟩, accepted⟩

/-- A cache takes the manifest of another one if the frames are of the same kind, and a change to its
settings reports no change if, beyond that, the backing is the same. What is valid when the project
is opened again was valid before, and is what such a change would keep just if the backing is the
same. -/
theorem reuse_agrees_iff {before after : CacheState τ} {now : Timestamp}
    (project : before.cache.projectHash = after.cache.projectHash)
    (length : (before.cache.chunkDuration == after.cache.chunkDuration) = true)
    (written : ∀ manifest, Finds after manifest → manifest = before.cache.manifest now) :
    let unchanged : Prop := ∃ next, applySettings after.cache.settings before = .ok false next
    (after.cache.accepts (before.cache.manifest now) = true ↔
      before.cache.settings.SameFrames after.cache.settings) ∧
    (unchanged ↔ after.cache.accepts (before.cache.manifest now) = true ∧
      before.cache.settings.SameBacking after.cache.settings) ∧
    ∀ projectPath duration projectTime,
      ∀ chunk ∈ (leaves (openProject projectPath duration projectTime) after).cache.chunks,
        chunk.status = .valid →
          (∃ old ∈ before.cache.chunks, old.status = .valid ∧ old.index = chunk.index ∧
            old.contentHash = chunk.contentHash) ∧
          (unchanged ↔ before.cache.settings.SameBacking after.cache.settings) := by
  intro unchanged
  have accepted : after.cache.accepts (before.cache.manifest now) = true ↔
      before.cache.settings.SameFrames after.cache.settings := by
    rw [Cache.accepts_manifest_iff]
    exact ⟨fun h => h.2.2, fun h => ⟨project, length, h⟩⟩
  have kept : unchanged ↔ before.cache.settings.SameFrames after.cache.settings ∧
      before.cache.settings.SameBacking after.cache.settings :=
    applySettings_unchanged_iff.trans OutputFormat.sameOutput_iff_frames_backing
  refine ⟨accepted, kept.trans (and_congr_left fun _ => accepted.symm), ?_⟩
  intro projectPath duration projectTime chunk hchunk valid
  have restored := (openProject_restores projectPath duration projectTime after).leaves
  obtain ⟨manifest, found, isIn, acceptable⟩ := restored chunk hchunk valid
  -- What is found is what the first cache wrote, so its frames are the wanted ones.
  obtain rfl := written manifest found
  obtain ⟨-, -, frames⟩ := Cache.accepts_manifest_iff.mp acceptable
  exact ⟨Cache.exists_valid_of_isIn isIn, kept.trans (and_iff_right frames)⟩

end CacheAction

/-! ### Rendered on black, opened on white -/

namespace Repainted

open CacheAction

def day : Timestamp := { year := 2024, month := 1, day := 1 }

/-- Half a second, in one window. -/
def half : Double := Double.ofRatio false 1 2

/-- A cache for windows of half a second, on black. -/
def created : CacheState Double where
  cache := {
    folder := Path.ofText "cache", chunkDuration := half, settings := {}, totalDuration := 0
    createdAt := day }
  disk := { now := day }

/-- The one chunk is rendered. -/
def rendering : CacheAction Double Unit := do
  openProject none half none
  let _ ← startRender 0
  let _ ← finishRender 0 "cache/chunk-0-aa.mp4" (some "aa") none

def black : CacheState Double := leaves rendering created

/-- The manifest of the cache on black, without what is left to defaults. -/
def manifestText : String :=
  "\x7b\"project_hash\":\"unsaved-project\",\"chunk_duration\":0.5,\"total_duration\":0.5," ++
  "\"resolution\":[1920,1080],\"frame_rate\":30.0,\"chunks\":[\x7b\"index\":0," ++
  "\"content_hash\":\"aa\",\"file_name\":\"chunk-0-aa.mp4\"\x7d]\x7d"

/-- Another cache in the same folder, on white. -/
def white : CacheState Double where
  cache := { created.cache with settings := { background := "white" } }
  disk := {
    files := ⟨[(["cache"], .folder), (["cache", "chunk-0-aa.mp4"], .file [1]),
      (["cache", "manifest.json"], .file (Text.Utf8.encode manifestText))]⟩
    now := day }

/-- A certain manifest is found. -/
def finds (state : CacheState Double) (manifest : Manifest Double) : Bool :=
  match readManifest state with
  | .ok (some found) _ => found = manifest
  | _ => false

theorem eq_of_finds {state : CacheState Double} {manifest found : Manifest Double}
    (h : finds state manifest = true) (there : Finds state found) : found = manifest := by
  unfold Finds at there
  simpa only [finds, there, decide_eq_true_eq] using h

/-- The project is opened, and a chunk is valid there with what was rendered on black. -/
def reuses (state : CacheState Double) : Bool :=
  succeeds (openProject none half none) state &&
    (leaves (openProject none half none) state).cache.chunks.any fun chunk =>
      chunk.status = .valid && chunk.contentHash = some "aa"

theorem reuses_iff {state : CacheState Double} :
    reuses state = true ↔ succeeds (openProject none half none) state = true ∧
      ∃ chunk ∈ (leaves (openProject none half none) state).cache.chunks,
        chunk.status = .valid ∧ chunk.contentHash = some "aa" := by
  simp only [reuses, List.any_eq_true, Bool.and_eq_true, decide_eq_true_eq]

theorem repainted_known : black.cache.projectHash = white.cache.projectHash ∧
    (black.cache.chunkDuration == white.cache.chunkDuration) = true ∧
    white.cache.accepts (black.cache.manifest day) = true ∧
    ¬ black.cache.settings.sameOutput white.cache.settings = true := by decide +kernel

-- One evaluation for both, since reading the manifest is most of each.
theorem white_finds_reuses : (finds white (black.cache.manifest day) && reuses white) = true := by
  decide +kernel

end Repainted

open CacheAction Repainted

/-- The chunk that is found on white was valid on black; and of the change to white it is true that it
keeps what is rendered just if the manifest is accepted and the backing is the same. -/
theorem white_opening_finds_black_render :
    ((∃ next, applySettings white.cache.settings black = .ok false next) ↔
      white.cache.accepts (black.cache.manifest day) = true ∧
        black.cache.settings.SameBacking white.cache.settings) ∧
    ∃ chunk ∈ (leaves (openProject none half none) white).cache.chunks, chunk.status = .valid ∧
      ∃ old ∈ black.cache.chunks, old.status = .valid ∧ old.index = chunk.index ∧
        old.contentHash = chunk.contentHash := by
  obtain ⟨found, reused⟩ := Bool.and_eq_true_iff.mp white_finds_reuses
  obtain ⟨project, length, -, -⟩ := repainted_known
  obtain ⟨-, kept, restored⟩ := reuse_agrees_iff project length fun _ there => eq_of_finds found there
  obtain ⟨-, chunk, hchunk, valid, -⟩ := reuses_iff.mp reused
  exact ⟨kept, chunk, hchunk, valid, (restored none half none chunk hchunk valid).1⟩

/-- A chunk that was rendered on black is valid in a project that is opened on white, although a change
to white within the session reports a change. -/
theorem exists_reused_repainted :
    white.cache.accepts (black.cache.manifest day) = true ∧
      (¬ ∃ next, applySettings white.cache.settings black = .ok false next) ∧
      succeeds (openProject none half none) white = true ∧
      ∃ chunk ∈ (leaves (openProject none half none) white).cache.chunks,
        chunk.status = .valid ∧ chunk.contentHash = some "aa" := by
  obtain ⟨-, -, accepted, differ⟩ := repainted_known
  obtain ⟨-, reused⟩ := Bool.and_eq_true_iff.mp white_finds_reuses
  exact ⟨accepted, fun kept => differ (applySettings_unchanged_iff.mp kept), reuses_iff.mp reused⟩

end Montage
