import Montage.Proofs.Chunk.Disk
import Montage.Proofs.Chunk.Naming
import Montage.Proofs.Preview.Durable

/-!
# The folder of a session

A session keeps its files in one folder: the renders of chunks under names of their own, and the
manifest. What jobs write goes to names in this folder that are not that of the manifest.

## Main definitions

* `Studio.Rooted` — jobs write to the files of their chunks

## Main results

* `ChunkRender.begin_disk`, `ChunkRender.resume_disk` — what the worker of a job does to the disk
-/

namespace Montage

/-! ### Names -/

namespace Text.Md5

/-- A digest is made of hexadecimal digits, and has no slash. -/
theorem no_slash_hex (text : String) : ∀ c ∈ (hex text).toList, c ≠ '/' := by
  have digit : ∀ n < 16, Nat.digitChar n ≠ '/' := by decide
  intro c hc
  rw [hex, String.toList_ofList, List.mem_flatMap] at hc
  obtain ⟨word, -, hc⟩ := hc
  obtain ⟨byte, -, hc⟩ := List.mem_flatMap.mp hc
  rw [hexByte, List.mem_cons, List.mem_singleton] at hc
  have small : byte.toNat < 256 := byte.toNat_lt
  rcases hc with rfl | rfl
  · exact digit _ (by omega)
  · exact digit _ (by omega)

end Text.Md5

/-- A path of a name in a folder leads on from the folder. -/
theorem Path.parent_join {folder : Path} {name : String} (plain : Path.Plain name) :
    (folder.join name).parent = folder := by
  rw [Path.join_of_plain folder plain, Path.parent, List.dropLast_concat]

/-! ### Workers -/

namespace ChunkRender

variable {store : CacheState Double} {session : Session Double} {chunk : Chunk Double}

/-- The hash of what is to be shown is one that a name can have. -/
theorem plain_hashOf (session : Session Double) (files : FileTree) (chunk : Chunk Double) :
    ∀ c ∈ (session.hashOf files chunk).toList, c ≠ '/' := Text.Md5.no_slash_hex _

/-- What a worker keeps that begins to render a chunk in a session. -/
def ofChunk (session : Session Double) (store : CacheState Double) (chunk : Chunk Double) :
    ChunkRender where
  contentHash := session.hashOf store.disk.files chunk
  isComplex := (session.timeline.segment chunk.start chunk.stop).isComplex
  outputPath := (store.cache.outputPath chunk.index (session.hashOf store.disk.files chunk)).text

theorem outputPath_ofChunk : (ofChunk session store chunk).outputPath =
    (store.cache.outputPath chunk.index (ofChunk session store chunk).contentHash).text := by
  simp only [ofChunk]

theorem plain_ofChunk : ∀ c ∈ (ofChunk session store chunk).contentHash.toList, c ≠ '/' :=
  plain_hashOf session store.disk.files chunk

/-- The folder of a cache was made, unless it could not be or there was nothing to render. -/
def Prepares (store next : CacheState Double) : Prop :=
  ∃ files, (files = store.disk.files ∨ store.disk.files.makeFolders store.cache.folder = .ok files) ∧
    next = { store with disk := { store.disk with files } }

/-- A worker that begins makes the folder, and that is all it does to the disk. If it ends at once, it has
not made a file. -/
theorem begin_disk (chunk : Chunk Double) (store : CacheState Double) (session : Session Double) :
    Ensures (begin chunk) (store, session)
      (fun step next => Prepares store next.1 ∧
        match step with
        | .waits kept => kept = ofChunk session store chunk
        | .ends outcome => outcome.outputPath = none)
      (fun next => Prepares store next.1) := by
  let contentHash := session.hashOf store.disk.files chunk
  let started := session.start chunk.index contentHash
  have folder : (store.cache.outputPath chunk.index contentHash).parent = store.cache.folder := by
    rw [Cache.outputPath_eq, Path.parent_join (Cache.plain_chunkName (plain_hashOf _ _ _))]
  have nothing : Prepares store store := ⟨_, .inl rfl, rfl⟩
  have prepared : Ensures (prepare chunk contentHash) (store, started)
      (fun step next => Prepares store next.1 ∧
        match step with
        | .waits kept => kept = ofChunk session store chunk
        | .ends outcome => outcome.outputPath = none)
      (fun next => Prepares store next.1) := by
    unfold prepare
    rw [ensures_bind, ensures_get]
    dsimp only
    split
    · exact ⟨nothing, rfl⟩
    · exact nothing
    · rw [folder]
      split
      · exact nothing
      · next files made =>
        have ready : Prepares store { store with disk := { store.disk with files } } :=
          ⟨files, .inr made, rfl⟩
        rw [ensures_bind, ensures_set, ensures_bind, ensures_liftM]
        split
        · exact ⟨ready, rfl⟩
        · exact ready
  unfold begin
  rw [ensures_bind, ensures_get]
  dsimp only
  rw [ensures_bind, ensures_set, ensures_bind]
  refine Ensures.tryCatch ?_
  rw [ensures_map]
  refine prepared.mono ?_ ?_
  · rintro (kept | outcome) next ⟨ready, known⟩
    · exact ⟨ready, known⟩
    · exact ⟨ready, known⟩
  · exact fun next ready cause => ready

namespace Prepares

variable {next : CacheState Double}

/-- Where the folder is there, nothing changes. -/
theorem eq_of_isFolder (h : Prepares store next)
    (folder : store.disk.files.isFolder store.cache.folder.text = true) : next = store := by
  obtain ⟨files, rfl | made, rfl⟩ := h
  · rfl
  · obtain rfl := Except.ok.inj ((FileTree.makeFolders_of_isFolder folder).symm.trans made)
    rfl

theorem cache (h : Prepares store next) : next.cache = store.cache := by
  obtain ⟨files, -, rfl⟩ := h
  rfl

theorem sameFiles (h : Prepares store next) : store.disk.files.SameFiles next.disk.files := by
  obtain ⟨files, rfl | made, rfl⟩ := h
  · exact .refl _
  · exact FileTree.sameFiles_of_makeFolders made

end Prepares

/-- What the encoder has written can be kept, if it has written anything. -/
def keepsAll (kept : ChunkRender) (content : Option (List UInt8)) (files : FileTree) : Bool :=
  content.all fun content => (files.write kept.outputPath content).toBool

/-- A cache after the encoder has written, if it could. -/
def written (kept : ChunkRender) (content : Option (List UInt8)) (store : CacheState Double) :
    CacheState Double :=
  match content.map (store.disk.files.write kept.outputPath) with
  | some (.ok files) => { store with disk := { store.disk with files } }
  | _ => store

theorem written_cache (kept : ChunkRender) (content : Option (List UInt8)) (store : CacheState Double) :
    (written kept content store).cache = store.cache := by
  unfold written
  split <;> rfl

/-- A worker that goes on writes what the encoder has written, and that is all it does to the disk. It
reports what the encoder said, unless the encoder broke down or not all was written. -/
theorem resume_writes (kept : ChunkRender) (reply : EncoderReply) :
    Ensures (resume chunk kept reply) (store, session)
      (fun outcome next => next.1 = written kept reply.content store ∧
        keepsAll kept reply.content store.disk.files = true ∧
        ∃ ran, reply.result = .ok ran ∧ outcome = kept.outcome ran)
      (fun next => next.1 = written kept reply.content store ∧
        (keepsAll kept reply.content store.disk.files = true → ∀ ran, reply.result ≠ .ok ran)) := by
  unfold resume written keepsAll
  rw [ensures_bind, ensures_modify]
  cases reply.content with
  | none =>
    cases result : reply.result with
    | ok ran => exact ⟨rfl, rfl, ran, rfl, rfl⟩
    | error message => exact ⟨rfl, fun _ => nofun⟩
  | some content =>
    simp only [Option.map_some, Option.all_some]
    rw [ensures_bind, ensures_get]
    dsimp only
    cases wrote : store.disk.files.write kept.outputPath content with
    | error cause => exact ⟨rfl, nofun⟩
    | ok files =>
      dsimp only
      rw [ensures_bind, ensures_set]
      cases result : reply.result with
      | ok ran => exact ⟨rfl, rfl, ran, rfl, rfl⟩
      | error message => exact ⟨rfl, fun _ => nofun⟩

/-- A worker that goes on writes what the encoder has written, and that is all it does to the disk. If it
reports anything, all of that was written. -/
theorem resume_disk (kept : ChunkRender) (reply : EncoderReply) :
    let wrote (next : CacheState Double) : Prop := ∀ content, reply.content = some content →
      ∃ files, store.disk.files.write kept.outputPath content = .ok files ∧
        next = { store with disk := { store.disk with files } }
    let same (next : CacheState Double) : Prop := reply.content = none → next = store
    Ensures (resume chunk kept reply) (store, session)
      (fun outcome next => wrote next.1 ∧ same next.1 ∧
        ∃ ran, reply.result = .ok ran ∧ outcome = kept.outcome ran)
      (fun next => next.1 = store ∨ wrote next.1 ∧ same next.1) := by
  intro wrote same
  -- Where nothing is kept back, what is written is all that the encoder has written.
  have known (all : keepsAll kept reply.content store.disk.files = true) :
      wrote (written kept reply.content store) ∧ same (written kept reply.content store) := by
    unfold keepsAll at all
    unfold written
    cases content : reply.content with
    | none => exact ⟨fun _ there => absurd (content.symm.trans there) (by simp), fun _ => rfl⟩
    | some content' =>
      rw [content] at all
      cases wrote : store.disk.files.write kept.outputPath content' with
      | error cause => simp [wrote, Except.toBool] at all
      | ok files =>
        refine ⟨fun other there => ?_, fun none => absurd (content.symm.trans none) (by simp)⟩
        obtain rfl := Option.some.inj (content.symm.trans there)
        exact ⟨files, wrote, by simp [wrote]⟩
  refine (resume_writes kept reply).mono ?_ ?_
  · rintro outcome next ⟨now, all, told⟩
    rw [now]
    exact ⟨(known all).1, (known all).2, told⟩
  · rintro next ⟨now, -⟩
    rw [now]
    by_cases all : keepsAll kept reply.content store.disk.files = true
    · exact .inr (known all)
    · refine .inl ?_
      unfold keepsAll at all
      unfold written
      cases content : reply.content with
      | none => rfl
      | some content' =>
        rw [content] at all
        cases wrote : store.disk.files.write kept.outputPath content' with
        | error cause => simp [wrote]
        | ok files => simp [wrote, Except.toBool] at all

end ChunkRender

/-! ### Sessions -/

namespace Studio

/-- What jobs write goes to the files of their chunks, in the folder of the session. -/
structure Rooted (studio : Studio) : Prop where
  inside : studio.store.cache.folder.Inside
  paths : ∀ job ∈ studio.scheduler.active, ∀ kept, job.kept? = some kept →
    (∀ c ∈ kept.contentHash.toList, c ≠ '/') ∧
      kept.outputPath = (studio.store.cache.outputPath job.index kept.contentHash).text

namespace Rooted

variable {studio : Studio}

/-- While the folder is the same, jobs that stay write where they wrote. -/
theorem of_folder (h : studio.Rooted) {store : CacheState Double} {session : Session Double}
    {scheduler : Scheduler Double ChunkRender EncoderReply}
    (folder : store.cache.folder = studio.store.cache.folder)
    (retains : studio.scheduler.Retains scheduler) :
    Studio.Rooted { store, scheduler, shared := session } where
  inside := folder ▸ h.inside
  paths job hjob kept hkept := by
    obtain ⟨other, hother, index, hkept'⟩ := retains job hjob kept hkept
    obtain ⟨plain, path⟩ := h.paths other hother kept hkept'
    refine ⟨plain, ?_⟩
    rw [path, index]
    unfold Cache.outputPath
    dsimp only
    rw [folder]

/-- A job that begins to wait writes to the file of its chunk. -/
theorem waits (h : studio.Rooted) (job : RenderJob) {store : CacheState Double}
    (cache : store.cache = studio.store.cache) (session : Session Double) :
    Studio.Rooted {
      store, shared := session
      scheduler := studio.scheduler.putJob { job with
        phase := .waiting (ChunkRender.ofChunk studio.shared studio.store job.chunk) } } where
  inside := cache ▸ h.inside
  paths other hother kept hkept := by
    rw [cache]
    obtain ⟨old, hold, rfl⟩ := List.mem_map.mp hother
    split at hkept
    · next here =>
      obtain rfl := Option.some.inj hkept
      rw [if_pos here]
      exact ⟨ChunkRender.plain_ofChunk, ChunkRender.outputPath_ofChunk⟩
    · next elsewhere =>
      rw [if_neg elsewhere]
      exact h.paths old hold kept hkept

end Rooted

end Studio

/-- The clip is kept in a folder under the one where all paths start. -/
theorem OneClip.inside_opened : opened.store.cache.folder.Inside where
  root := by decide
  plain _ := Path.plain_of_mem_ofText

end Montage
