import Montage.Proofs.Chunk.Account
import Montage.Proofs.Preview.Housing
import Montage.Proofs.Preview.Shop

/-!
# The stock of a session

What lies in the folder of a session and is named like a rendered chunk is the file of a valid chunk, or
stray. Encoders write at places that no valid chunk has, and what they write is stray until their job
reports that it is done: then a valid chunk has it, or it is removed. What a render left that failed or
was cancelled stays in the folder, and so does what no chunk has any more when a project is opened.

## Main definitions

* `Studio.Stocked` — what lies in the folder of a session is accounted for
* `Inventory` — a session with the strays in its folder
* `Inventory.Reaches` — events, and encoders that write in between, lead from one inventory to another

## Main results

* `Studio.Stocked.next`, `Studio.Stocked.happens` — one event takes the strays along
* `Inventory.Reaches.chunkFiles` — in any run the files in the folder are those of the valid chunks and
  the strays
-/

namespace Montage

open SessionAction

/-- A reply that says that all went well comes with all that was made. -/
def EncoderReply.IsWhole (reply : EncoderReply) : Prop :=
  ∀ ran, reply.result = .ok ran → ran.success = true → ran.cancelled = false →
    reply.content.isSome = true

/-- A job writes to the file of its chunk, and its place is not claimed. -/
structure Job.WritesApart (state : CacheState Double) (job : RenderJob) : Prop where
  paths : ∀ kept, job.kept? = some kept → (∀ c ∈ kept.contentHash.toList, c ≠ '/') ∧
    kept.outputPath = (state.cache.outputPath job.index kept.contentHash).text
  unclaimed : ¬ state.Claims job.index
  whole : ∀ kept reply, job.phase = .answered kept reply → reply.IsWhole

namespace Job.WritesApart

variable {state next : CacheState Double} {job : RenderJob} {strays : List String}

/-- Where nothing new is claimed, jobs write where they wrote. -/
theorem of_claims (h : job.WritesApart state) (folder : next.cache.folder = state.cache.folder)
    (unclaimed : ¬ next.Claims job.index) : job.WritesApart next where
  paths kept hkept := by
    obtain ⟨plain, path⟩ := h.paths kept hkept
    refine ⟨plain, ?_⟩
    rw [path, Cache.outputPath_eq, Cache.outputPath_eq, folder]
  unclaimed := unclaimed
  whole := h.whole

theorem carried (h : job.WritesApart state) (carries : state.Carries strays next) :
    job.WritesApart next :=
  h.of_claims carries.folder fun claimed => h.unclaimed (carries.claims _ claimed)

/-- A job that is told to stop writes where it wrote. -/
theorem stop (h : job.WritesApart state) : Job.WritesApart state job.stop.1 where
  paths kept hkept := by
    have same := job.same_stop
    obtain ⟨plain, path⟩ := h.paths kept (same.kept ▸ hkept)
    have place : job.stop.1.index = job.index := congrArg Chunk.index same.chunk
    exact ⟨plain, place ▸ path⟩
  unclaimed := by
    have place : job.stop.1.index = job.index := congrArg Chunk.index job.same_stop.chunk
    exact place ▸ h.unclaimed
  whole kept reply answered := by
    unfold Job.stop at answered
    split at answered <;> simp_all

end Job.WritesApart

/-- What lies in the folder of a session is accounted for, and jobs write apart from the files of valid
chunks. -/
structure Studio.Stocked (strays : List String) (studio : Studio) : Prop where
  order : InOrder studio.store.cache studio.scheduler
  store : studio.store.Stocked strays
  jobs : ∀ job ∈ studio.scheduler.active, job.WritesApart studio.store

namespace Studio.Stocked

variable {strays : List String} {studio : Studio}

/-- What a call does to the cache is carried over. -/
theorem called (h : studio.Stocked strays) {strays' : List String} {store : CacheState Double}
    (carries : studio.store.Carries strays' store) {settings : OutputFormat Double}
    (recut : { studio.store.cache with settings }.Recut store.cache) (session : Session Double) :
    Studio.Stocked strays' { studio with store, shared := session } where
  order :=
    have order : InOrder { studio.store.cache with settings } studio.scheduler := h.order.of_cache rfl rfl
    order.recut recut
  store := carries.stocked
  jobs job hjob := (h.jobs job hjob).carried carries

/-- Jobs that go on, or leave. -/
theorem withJobs (h : studio.Stocked strays) {scheduler : Scheduler Double ChunkRender EncoderReply}
    (order : InOrder studio.store.cache scheduler)
    (jobs : ∀ job ∈ scheduler.active, job.WritesApart studio.store) :
    Studio.Stocked strays { studio with scheduler } := ⟨order, h.store, jobs⟩

/-! ### Queues and edits -/

/-- The jobs and the chunks of a session whose files are as on a disk. -/
def Holds (strays : List String) (disk : Disk) (scheduler : Scheduler Double ChunkRender EncoderReply)
    (cache : Cache Double) : Prop :=
  CacheState.Stocked strays ⟨cache, disk⟩ ∧ ∀ job ∈ scheduler.active, job.WritesApart ⟨cache, disk⟩

/-- A job begins only for a chunk that is not valid, whose place is not claimed. -/
theorem admits (strays : List String) (disk : Disk) : Admits (Holds strays disk) where
  idle _ _ _ h := h
  skip _ _ _ _ _ _ h _ := h
  enqueue _ _ _ h := h
  begin entry rest scheduler cache chunk order queue room h found invalid := by
    obtain ⟨stocked, jobs⟩ := h
    have hchunk := Cache.mem_of_get found
    have carries := stocked.begin order.chunks hchunk invalid
    refine ⟨carries.stocked, fun job hjob => ?_⟩
    rcases Scheduler.mem_addJob.mp hjob with hjob | rfl
    · exact (jobs job hjob).carried carries
    · have unclaimed := stocked.unclaimed order.chunks hchunk invalid
      exact ⟨nofun, fun claimed => unclaimed (carries.claims _ claimed), nofun⟩

theorem holds (h : studio.Stocked strays) :
    Holds strays studio.store.disk studio.scheduler studio.store.cache := ⟨h.store, h.jobs⟩

theorem of_apart {next : Studio} (order : InOrder next.store.cache next.scheduler)
    (held : Holds strays studio.store.disk next.scheduler next.store.cache)
    (apart : studio.Apart next) : next.Stocked strays := by
  rw [← apart.disk] at held
  exact ⟨order, held.1, held.2⟩

theorem keeps_pump : Keeps (Studio.Stocked strays) WorkshopAction.pump := fun studio h =>
  ((admits strays studio.store.disk).pump studio h.order h.holds).mono
    (fun _ _ hnext => of_apart hnext.1 hnext.2.1 hnext.2.2) fun _ => False.elim

theorem keeps_queue (index : Int) (urgency : Urgency) :
    Keeps (Studio.Stocked strays) (WorkshopAction.queue index urgency) := fun studio h =>
  ((admits strays studio.store.disk).queue index urgency studio h.order h.holds).mono
    (fun _ _ hnext => of_apart hnext.1 hnext.2.1 hnext.2.2) fun _ => False.elim

theorem keeps_setUrgency (index : Int) (urgency : Urgency) :
    Keeps (Studio.Stocked strays) (WorkshopAction.setUrgency index urgency) := fun studio h =>
  ((admits strays studio.store.disk).setUrgency index urgency (fun _ _ h => h) studio h.order
    h.holds).mono (fun _ _ hnext => of_apart hnext.1 hnext.2.1 hnext.2.2) fun _ => False.elim

theorem keeps_queueWaiting (urgency : Urgency) (retry : Bool) :
    Keeps (Studio.Stocked strays) (queueWaiting urgency retry) := by
  unfold queueWaiting
  refine keeps_forChunks fun chunk => (keeps_isPending retry chunk).bind fun pending => ?_
  split
  · exact (keeps_queue _ urgency).bind fun _ => Keeps.pure
  · exact Keeps.pure

/-- A call that cuts the cache anew at most takes the strays along. -/
theorem onCache (h : studio.Stocked strays) {strays' : List String} {α : Type}
    {action : CacheAction Double α}
    (recuts : Ensures action studio.store
      (fun _ next => ∃ settings, { studio.store.cache with settings }.Recut next.cache)
      (fun next => ∃ settings, { studio.store.cache with settings }.Recut next.cache))
    (carries : Ensures action studio.store (fun _ => studio.store.Carries strays')
      (studio.store.Carries strays')) :
    Ensures (WorkshopAction.onCache action) studio (fun _ => Studio.Stocked strays')
      (Studio.Stocked strays') := by
  rw [WorkshopAction.ensures_onCache]
  refine (recuts.and carries).mono ?_ ?_
  · rintro _ next ⟨⟨settings, recut⟩, carries⟩
    exact h.called carries recut studio.shared
  · rintro next ⟨⟨settings, recut⟩, carries⟩
    exact h.called carries recut studio.shared

/-- An edit takes all files away that no chunk has after it. -/
theorem survives : SurvivesChanges (Studio.Stocked strays) where
  session _ _ h := ⟨h.order, h.store, h.jobs⟩
  invalidates meets studio h := by
    refine h.onCache ?_ (h.store.invalidateWhere h.order.chunks meets)
    exact (CacheAction.invalidateWhere_spec meets studio.store).mono (fun _ _ h => ⟨_, h.1.toRecut⟩)
      fun _ h => ⟨_, h.toRecut⟩
  settles settings studio h := by
    refine h.onCache ?_ (h.store.applySettings h.order.chunks settings)
    exact (CacheAction.applySettings_spec settings studio.store).mono (fun _ _ h => ⟨_, h.2.1.toRecut⟩)
      fun _ h => ⟨_, h.toRecut⟩
  cuts duration studio h := by
    refine h.onCache ?_ (h.store.repartition h.order.chunks duration)
    exact (CacheAction.repartition_spec duration studio.store).mono (fun _ _ h => ⟨_, h⟩)
      fun _ h => ⟨_, h⟩

/-- A project is opened. -/
theorem load (h : studio.Stocked strays) (timeline : Timeline Double) (media : MediaLibrary)
    (path : Option String) (time : Option Double) :
    let stranded := studio.store.stranded strays path timeline.duration time
    Ensures (SessionAction.load timeline media path time) studio (fun _ => Studio.Stocked stranded)
      (Studio.Stocked stranded) := by
  intro stranded
  unfold SessionAction.load
  rw [ensures_bind, ensures_session, ensures_bind, ensures_setSession, WorkshopAction.ensures_onCache]
  have carries := h.store.openProject path timeline.duration time
  have opened := (CacheAction.openProject_spec path timeline.duration time studio.store).leaves
  refine ensures_leaves.mono ?_ ?_
  · rintro _ _ rfl
    exact h.called carries opened _
  · rintro _ rfl
    exact h.called carries opened _

/-! ### Ends of jobs -/

/-- The end of a render whose job has left its place. -/
theorem concluded (h : studio.Stocked strays) {strays' : List String} {store : CacheState Double}
    {index : Nat} {leads : Chunk Double → Chunk Double → Prop}
    (free : ∀ job ∈ studio.scheduler.active, job.index ≠ index)
    (ends : studio.store.cache.Concludes store.cache index leads)
    (lands : studio.store.Lands strays' index store) : Studio.Stocked strays' { studio with store } where
  order := h.order.concludes ends fun job hjob same => free job hjob (Int.ofNat.inj same)
  store := lands.stocked
  jobs job hjob := by
    refine (h.jobs job hjob).of_claims lands.folder fun claimed => ?_
    rcases lands.claims _ claimed with before | here
    · exact (h.jobs job hjob).unclaimed before
    · exact free job hjob here

end Studio.Stocked

/-- What a job reports has made no file, or one for its place, which is stray so far. -/
inductive RenderOutcome.Delivers (strays : List String) (cache : Cache Double) (index : Nat)
    (outcome : RenderOutcome) : Prop where
  | nothing (failed : outcome.success = false) (none : outcome.outputPath = none)
  | file (path contentHash : String) (success : outcome.success = true)
      (alive : outcome.cancelled = false) (plain : ∀ c ∈ contentHash.toList, c ≠ '/')
      (hash : outcome.contentHash = some contentHash) (output : outcome.outputPath = some path)
      (names : path = (cache.outputPath index contentHash).text) (stray : path ∈ strays)

/-- The path of a file that was made is not empty. -/
theorem RenderOutcome.output_of_names {outcome : RenderOutcome} {path : String} {cache : Cache Double}
    {index : Nat} {contentHash : String} (output : outcome.outputPath = some path)
    (names : path = (cache.outputPath index contentHash).text) :
    outcome.outputPath.filter (· ≠ "") = some path := by
  rw [output, names]
  exact Option.filter_some_pos (by simpa using Path.text_ne_empty _)

/-- The strays when a report was recorded. -/
def RenderOutcome.settle (outcome : RenderOutcome) (strays : List String) : List String :=
  match outcome.outputPath with
  | none => strays
  | some path => strays.filter (· ≠ path)

namespace Studio.Stocked

variable {strays : List String} {studio : Studio} {index : Nat} {outcome : RenderOutcome}

/-- What a job reports of its chunk is recorded. -/
theorem record (h : studio.Stocked strays) (free : ∀ job ∈ studio.scheduler.active, job.index ≠ index)
    {chunk : Chunk Double} (found : studio.store.cache.get index = .ok chunk)
    (busy : chunk.status = .rendering) (place : chunk.index = index)
    (delivers : outcome.Delivers strays studio.store.cache index) :
    Ensures (WorkshopAction.record index outcome) studio
      (fun _ => Studio.Stocked (outcome.settle strays)) (Studio.Stocked (outcome.settle strays)) := by
  unfold WorkshopAction.record
  cases delivers with
  | nothing failed none =>
    have same : outcome.settle strays = strays := by rw [RenderOutcome.settle, none]
    rw [same]
    split
    · exact h
    · rw [failed, none]
      have ended {store : CacheState Double} {leads : Chunk Double → Chunk Double → Prop}
          (ends : studio.store.cache.Concludes store.cache index leads)
          (carries : studio.store.Carries strays store) : Studio.Stocked strays { studio with store } :=
        h.concluded free ends ⟨carries.stocked, carries.folder, fun _ now => .inl (carries.claims _ now)⟩
      dsimp only
      rw [ensures_bind, WorkshopAction.ensures_onCache]
      refine ((CacheAction.failRender_spec _ _ _ studio.store).and
        (h.store.failRender h.order.chunks index _ outcome.contentHash)).mono ?_ ?_
      · rintro _ next ⟨ends, carries⟩
        exact ended ends carries
      · rintro next ⟨ends, carries⟩
        exact ended ends carries
  | file path contentHash success alive plain hash output names stray =>
    have removed : outcome.settle strays = strays.filter (· ≠ path) := by
      rw [RenderOutcome.settle, output]
    rw [removed, alive, success, RenderOutcome.output_of_names output names, hash]
    subst place
    have lands := h.store.finishRender h.order.chunks found busy plain
      (names.trans (congrArg Path.text (Cache.outputPath_eq _ _ _))) stray outcome.isComplex
    rw [if_neg Bool.false_ne_true]
    dsimp only
    rw [ensures_bind, WorkshopAction.ensures_onCache]
    refine ((CacheAction.finishRender_spec _ _ path outcome.isComplex studio.store).and lands).mono ?_ ?_
    · rintro ended next ⟨ends, lands⟩
      have recorded := h.concluded free ends lands
      split
      · exact (keeps_queue _ _).bind (fun _ => Keeps.pure) _ recorded
      · exact recorded
    · rintro next ⟨ends, lands⟩
      exact h.concluded free ends lands

/-- What a job reports whose chunk is gone is removed. -/
theorem discard (h : studio.Stocked strays)
    (delivers : outcome.Delivers strays studio.store.cache index) (current : Option (Chunk Double)) :
    Ensures (WorkshopAction.discard outcome current) studio
      (fun _ => Studio.Stocked (outcome.settle strays)) (Studio.Stocked (outcome.settle strays)) := by
  have queues : Keeps (Studio.Stocked (outcome.settle strays)) (WorkshopAction.queueNew current) := by
    unfold WorkshopAction.queueNew
    split
    · split
      · exact (keeps_queue _ _).bind fun _ => Keeps.pure
      · exact Keeps.pure
    · exact Keeps.pure
  unfold WorkshopAction.discard
  rw [ensures_bind]
  have removes : Ensures (WorkshopAction.removeOutput outcome) studio
      (fun _ => Studio.Stocked (outcome.settle strays)) (Studio.Stocked (outcome.settle strays)) := by
    unfold WorkshopAction.removeOutput
    cases delivers with
    | nothing failed none =>
      rw [RenderOutcome.settle, none]
      exact h
    | file path contentHash success alive plain hash output names stray =>
      obtain ⟨files, removed, carries⟩ := h.store.remove stray
      rw [RenderOutcome.output_of_names output names, RenderOutcome.settle, output]
      dsimp only
      rw [ensures_bind, ensures_get]
      rw [removed]
      exact ⟨h.order, carries.stocked, fun job hjob => (h.jobs job hjob).carried carries⟩
  exact removes.mono (fun _ next hnext => queues next hnext) fun _ => id

/-- What a job reports that has left its place is recorded, or removed if its chunk is gone. -/
theorem conclude (h : studio.Stocked strays) {job : RenderJob}
    (free : ∀ other ∈ studio.scheduler.active, other.index ≠ job.index)
    (owned : ∀ chunk ∈ studio.store.cache.chunks, chunk.serial = job.chunk.serial →
      chunk.status = .rendering ∧ chunk.index = job.index)
    (delivers : outcome.Delivers strays studio.store.cache job.index) :
    Ensures (WorkshopAction.conclude ChunkRender.worker job outcome) studio
      (fun _ => Studio.Stocked (outcome.settle strays)) (Studio.Stocked (outcome.settle strays)) := by
  have tells (chunk : Chunk Double) : Keeps (Studio.Stocked (outcome.settle strays))
      (WorkshopAction.tell ChunkRender.worker chunk) := fun studio h => by
    refine (WorkshopAction.tell_spec ChunkRender.worker chunk studio).mono ?_ ?_
    · rintro - _ rfl
      exact ⟨h.order, h.store, h.jobs⟩
    · rintro _ rfl
      exact ⟨h.order, h.store, h.jobs⟩
  unfold WorkshopAction.conclude
  rw [ensures_bind, ensures_get]
  dsimp only
  split
  · next same =>
    cases found : studio.store.cache.get job.index with
    | error cause => simp [found, Except.toOption] at same
    | ok chunk =>
      have serial : chunk.serial = job.chunk.serial := by simpa [found, Except.toOption] using same
      obtain ⟨busy, place⟩ := owned chunk (Cache.mem_of_get found) serial
      rw [ensures_bind]
      refine (h.record free found busy place delivers).mono (fun _ next hnext => ?_) fun _ => id
      refine Keeps.bind (fun _ h => h) (fun studio => ?_) next hnext
      split
      · exact (tells _).bind fun _ => keeps_pump
      · exact keeps_pump
  · rw [ensures_bind]
    exact (h.discard delivers _).mono (fun _ next hnext => keeps_pump next hnext) fun _ => id

/-- A job comes to its end. -/
theorem complete (h : studio.Stocked strays) {job : RenderJob} (hjob : job ∈ studio.scheduler.active)
    (delivers : outcome.Delivers strays studio.store.cache job.index) :
    Ensures (WorkshopAction.complete ChunkRender.worker job outcome) studio
      (fun _ => Studio.Stocked (outcome.settle strays)) (Studio.Stocked (outcome.settle strays)) := by
  unfold WorkshopAction.complete
  rw [ensures_bind, WorkshopAction.ensures_scheduler, ensures_bind, WorkshopAction.ensures_setScheduler]
  have sub := studio.scheduler.dropJob_sublist job.id
  have left : Studio.Stocked strays { studio with scheduler := studio.scheduler.dropJob job.id } :=
    h.withJobs (h.order.release sub) fun other hother => h.jobs other (sub.subset hother)
  refine left.conclude (fun other hother => h.order.jobs.index_ne_of_dropJob hjob hother)
    (fun chunk hchunk same => ?_) delivers
  obtain ⟨busy, place, -⟩ := h.order.owned job hjob chunk hchunk same
  exact ⟨busy, place⟩

end Studio.Stocked

/-! ### Steps of jobs -/

/-- The strays when an encoder has written, if it could. -/
def ChunkRender.litter (kept : ChunkRender) (content : Option (List UInt8)) (files : FileTree)
    (strays : List String) : List String :=
  match content.map (files.write kept.outputPath) with
  | some (.ok _) => kept.outputPath :: strays
  | _ => strays

/-- What was written is stray. -/
theorem ChunkRender.mem_litter {kept : ChunkRender} {content : Option (List UInt8)} {files : FileTree}
    {strays : List String} (made : content.isSome = true) (all : kept.keepsAll content files = true) :
    kept.outputPath ∈ kept.litter content files strays := by
  obtain ⟨bytes, rfl⟩ := Option.isSome_iff_exists.mp made
  unfold keepsAll at all
  unfold litter
  rw [Option.all_some] at all
  rw [Option.map_some]
  cases wrote : files.write kept.outputPath bytes with
  | error cause => simp [wrote, Except.toBool] at all
  | ok after => exact List.mem_cons_self

/-- All went well, as a reply says. -/
def EncoderReply.succeeds (reply : EncoderReply) : Bool :=
  match reply.result with
  | .ok ran => ran.success && !ran.cancelled
  | .error _ => false

/-- The strays after the step of a job. What it has written is stray, unless all went well. -/
def Job.worked (job : RenderJob) (files : FileTree) (strays : List String) : List String :=
  match job.phase with
  | .answered kept reply =>
    let littered := kept.litter reply.content files strays
    if reply.succeeds && kept.keepsAll reply.content files then littered.filter (· ≠ kept.outputPath)
    else littered
  | _ => strays

namespace Studio.Stocked

variable {strays : List String} {studio : Studio} {job : RenderJob} {kept : ChunkRender}

/-- What the encoder of a job writes is stray. -/
theorem written (h : studio.Stocked strays) (hjob : job ∈ studio.scheduler.active)
    (hkept : job.kept? = some kept) (content : Option (List UInt8)) :
    studio.store.Carries (kept.litter content studio.store.disk.files strays)
      (kept.written content studio.store) := by
  unfold ChunkRender.litter ChunkRender.written
  cases content with
  | none => exact .self h.store
  | some content =>
    simp only [Option.map_some]
    cases wrote : studio.store.disk.files.write kept.outputPath content with
    | error cause => exact .self h.store
    | ok files =>
      obtain ⟨plain, path⟩ := (h.jobs job hjob).paths kept hkept
      rw [Cache.outputPath_eq] at path
      rw [path] at wrote ⊢
      exact h.store.write (h.jobs job hjob).unclaimed (Cache.plain_chunkName plain) rfl wrote

/-- Files change, and the chunks stay as they are. -/
theorem wrote (h : studio.Stocked strays) {strays' : List String} {store : CacheState Double}
    (carries : studio.store.Carries strays' store) (cache : store.cache = studio.store.cache)
    (session : Session Double) : Studio.Stocked strays' { studio with store, shared := session } where
  order := cache ▸ h.order
  store := carries.stocked
  jobs job hjob := (h.jobs job hjob).carried carries

/-- A job that goes on. -/
theorem putJob (h : studio.Stocked strays) (hjob : job ∈ studio.scheduler.active) {after : RenderJob}
    (id : after.id = job.id) (chunk : after.chunk = job.chunk)
    (apart : job.WritesApart studio.store → after.WritesApart studio.store) :
    Studio.Stocked strays { studio with scheduler := studio.scheduler.putJob after } := by
  refine h.withJobs (h.order.putJob hjob id chunk) fun other hother => ?_
  obtain ⟨old, hold, rfl⟩ := List.mem_map.mp hother
  split
  · exact apart (h.jobs job hjob)
  · exact h.jobs old hold

/-- A job that begins to wait writes to the file of its chunk. -/
theorem waits (h : studio.Stocked strays) (hjob : job ∈ studio.scheduler.active)
    (session : Session Double) :
    let kept := ChunkRender.ofChunk studio.shared studio.store job.chunk
    Studio.Stocked strays {
      store := studio.store, shared := session
      scheduler := studio.scheduler.putJob { job with phase := .waiting kept } } := by
  intro kept
  have left : Studio.Stocked strays { studio with shared := session } := ⟨h.order, h.store, h.jobs⟩
  refine left.putJob hjob rfl rfl fun apart => ⟨fun other hother => ?_, apart.unclaimed, nofun⟩
  obtain rfl : kept = other := Option.some.inj hother
  exact ⟨ChunkRender.plain_ofChunk, ChunkRender.outputPath_ofChunk⟩

/-- After its half of a step a worker has not come to its end, or reports what it has made. -/
def Reported (job : RenderJob) (files : FileTree) (strays : List String) :
    Option RenderOutcome → Studio → Prop
  | none, next => Studio.Stocked (job.worked files strays) next
  | some outcome, next => ∃ strays', outcome.settle strays' = job.worked files strays ∧
      Studio.Stocked strays' next ∧ job ∈ next.scheduler.active ∧
      outcome.Delivers strays' next.store.cache job.index

/-- A worker that has not made a file reports none. -/
theorem reported (h : studio.Stocked strays) (hjob : job ∈ studio.scheduler.active) {files : FileTree}
    (same : job.worked files strays = strays) {outcome : RenderOutcome}
    (failed : outcome.success = false) (bare : outcome.outputPath = none) (session : Session Double) :
    Reported job files strays (some outcome) { studio with shared := session } := by
  refine ⟨strays, ?_, ⟨h.order, h.store, h.jobs⟩, hjob, .nothing failed bare⟩
  rw [RenderOutcome.settle, bare, same]

/-- A worker begins. -/
theorem begins (h : studio.Stocked strays) (hjob : job ∈ studio.scheduler.active)
    (due : job.phase = .due false) :
    Ensures (ChunkRender.begin job.chunk) (studio.store, studio.shared)
      (fun step next => match step with
        | .waits kept => Reported job studio.store.disk.files strays none {
            store := next.1, shared := next.2
            scheduler := studio.scheduler.putJob { job with phase := .waiting kept } }
        | .ends outcome => Reported job studio.store.disk.files strays (some outcome)
            { studio with store := next.1, shared := next.2 })
      (fun next => next.1 = studio.store) := by
  have same : job.worked studio.store.disk.files strays = strays := by rw [Job.worked, due]
  have folder := h.store.takes.folder
  refine ((ChunkRender.begin_disk job.chunk studio.store studio.shared).and
    (ChunkRender.begin_spec job.chunk studio.store studio.shared)).mono ?_ ?_
  · rintro (kept | outcome) ⟨next, session⟩ ⟨⟨prepares, known⟩, -, step⟩
    · obtain rfl := known
      obtain rfl := prepares.eq_of_isFolder folder
      unfold Reported
      rw [same]
      exact h.waits hjob session
    · obtain rfl := prepares.eq_of_isFolder folder
      exact h.reported hjob same step.1.1 known session
  · rintro ⟨next, session⟩ ⟨prepares, -⟩
    exact prepares.eq_of_isFolder folder

/-- A worker goes on. What the encoder has written is stray, and a report that all went well names it. -/
theorem resumes (h : studio.Stocked strays) (hjob : job ∈ studio.scheduler.active)
    {reply : EncoderReply} (answered : job.phase = .answered kept reply) :
    Ensures (ChunkRender.resume job.chunk kept reply) (studio.store, studio.shared)
      (fun outcome next => Reported job studio.store.disk.files strays (some outcome)
        { studio with store := next.1, shared := next.2 })
      (fun next => ∀ outcome : RenderOutcome, outcome.success = false → outcome.outputPath = none →
        Reported job studio.store.disk.files strays (some outcome)
          { studio with store := next.1, shared := next.2 }) := by
  have hkept : job.kept? = some kept := by simp [Job.kept?, answered]
  have apart := h.jobs job hjob
  let files := studio.store.disk.files
  let littered := kept.litter reply.content files strays
  have worked : job.worked files strays = if reply.succeeds && kept.keepsAll reply.content files then
      littered.filter (· ≠ kept.outputPath) else littered := by rw [Job.worked, answered]
  have wrote (session : Session Double) : Studio.Stocked littered
      { studio with store := kept.written reply.content studio.store, shared := session } :=
    h.wrote (h.written hjob hkept reply.content) (kept.written_cache _ _) session
  have nothing {outcome : RenderOutcome} (session : Session Double)
      (unwell : ¬ (reply.succeeds && kept.keepsAll reply.content files) = true)
      (failed : outcome.success = false) (bare : outcome.outputPath = none) :
      Reported job files strays (some outcome)
        { studio with store := kept.written reply.content studio.store, shared := session } := by
    refine ⟨littered, ?_, wrote session, hjob, .nothing failed bare⟩
    rw [RenderOutcome.settle, bare, worked, if_neg unwell]
  refine (ChunkRender.resume_writes kept reply).mono ?_ ?_
  · rintro _ ⟨next, session⟩ ⟨rfl, all, ran, result, rfl⟩
    unfold ChunkRender.outcome
    split
    · next cancelled => exact nothing session (by simp [EncoderReply.succeeds, result, cancelled]) rfl rfl
    · next alive =>
      split
      · next success =>
        have alive : ran.cancelled = false := Bool.eq_false_iff.mpr alive
        have well : (reply.succeeds && kept.keepsAll reply.content files) = true := by
          simp [EncoderReply.succeeds, result, success, alive, files, all]
        obtain ⟨plain, path⟩ := apart.paths kept hkept
        refine ⟨littered, ?_, wrote session, hjob,
          .file kept.outputPath kept.contentHash rfl rfl plain rfl rfl ?_ ?_⟩
        · rw [RenderOutcome.settle, worked, if_pos well]
        · rw [path, Cache.outputPath_eq, Cache.outputPath_eq, kept.written_cache]
        · exact ChunkRender.mem_litter (apart.whole kept reply answered ran result success alive) all
      · next failed => exact nothing session (by simp [EncoderReply.succeeds, result, failed]) rfl rfl
  · rintro ⟨next, session⟩ ⟨rfl, broke⟩ outcome failed bare
    refine nothing session (fun well => ?_) failed bare
    obtain ⟨succeeds, all⟩ := Bool.and_eq_true_iff.mp well
    unfold EncoderReply.succeeds at succeeds
    split at succeeds
    · next ran result => exact broke all ran result
    · cases succeeds

/-- The worker's half of the step of a job. -/
theorem reports (h : studio.Stocked strays) (hjob : job ∈ studio.scheduler.active) :
    Ensures (WorkshopAction.report? ChunkRender.worker job) studio
      (Reported job studio.store.disk.files strays) (fun _ => False) := by
  have idle (same : job.worked studio.store.disk.files strays = strays) :
      Reported job studio.store.disk.files strays none studio := by
    unfold Reported
    rw [same]
    exact h
  unfold WorkshopAction.report?
  split
  · next due =>
    have same : job.worked studio.store.disk.files strays = strays := by rw [Job.worked, due]
    rw [ensures_bind, WorkshopAction.ensures_scheduler, ensures_bind,
      WorkshopAction.ensures_setScheduler, ensures_pure]
    unfold Reported
    rw [same]
    exact h.putJob hjob rfl rfl fun apart => ⟨nofun, apart.unclaimed, nofun⟩
  · next due =>
    have same : job.worked studio.store.disk.files strays = strays := by rw [Job.worked, due]
    rw [ensures_bind]
    refine Ensures.tryCatch ?_
    rw [WorkshopAction.ensures_onWorker]
    refine (h.begins hjob due).mono ?_ ?_
    · rintro (kept | outcome) next hnext
      · exact hnext
      · exact hnext
    · rintro ⟨next, session⟩ rfl failure
      exact h.reported hjob same rfl rfl session
  · next kept reply answered =>
    rw [ensures_bind]
    refine Ensures.tryCatch ?_
    rw [WorkshopAction.ensures_onWorker]
    exact (h.resumes hjob answered).mono (fun _ _ hnext => hnext) fun _ hnext failure => hnext _ rfl rfl
  · next kept stopping =>
    rw [ensures_bind, ensures_modify, ensures_pure]
    exact h.reported hjob (by rw [Job.worked, stopping]) rfl rfl _
  · next kept waiting => exact idle (by rw [Job.worked, waiting])
  · next ended => exact idle (by rw [Job.worked, ended])

end Studio.Stocked

/-- The strays after the step that comes next. -/
def Studio.worked (studio : Studio) (strays : List String) : List String :=
  match studio.scheduler.agenda.head?.bind studio.scheduler.job? with
  | some job => job.worked studio.store.disk.files strays
  | none => strays

namespace Studio.Stocked

variable {strays : List String} {studio : Studio}

/-- The step that comes next takes the strays along. -/
theorem runNext (h : studio.Stocked strays) :
    Ensures (WorkshopAction.runNext ChunkRender.worker) studio
      (fun _ => Studio.Stocked (studio.worked strays)) (Studio.Stocked (studio.worked strays)) := by
  unfold WorkshopAction.runNext Studio.worked
  rw [ensures_bind, WorkshopAction.ensures_scheduler]
  split
  · next empty =>
    rw [empty]
    exact h
  · next id rest agenda =>
    rw [agenda, List.head?_cons, Option.bind_some, ensures_bind, WorkshopAction.ensures_setScheduler]
    have waiting : Studio.Stocked strays
        { studio with scheduler := { studio.scheduler with agenda := rest } } :=
      h.withJobs (h.order.of_eq rfl rfl rfl) h.jobs
    cases found : studio.scheduler.job? id with
    | none => exact waiting
    | some job =>
      have hjob := List.mem_of_find?_eq_some found
      dsimp only
      rw [WorkshopAction.runJob_eq, ensures_bind]
      refine (waiting.reports hjob).mono ?_ fun _ => False.elim
      rintro (_ | outcome) next hnext
      · exact hnext
      · obtain ⟨strays', settled, stocked, hjob', delivers⟩ := hnext
        refine Ensures.tryCatch ((stocked.complete hjob' delivers).mono ?_ ?_)
        · exact fun _ _ hlast => settled ▸ hlast
        · exact fun _ hlast _ => settled ▸ hlast

/-! ### Events -/

/-- A project is opened, and what waits is queued. -/
theorem openProject (h : studio.Stocked strays) (timeline : Timeline Double) (media : MediaLibrary)
    (path : Option String) (time : Option Double) :
    let stranded := studio.store.stranded strays path timeline.duration time
    Ensures (SessionAction.openProject timeline media path time) studio
      (fun _ => Studio.Stocked stranded) (Studio.Stocked stranded) := by
  intro stranded
  have settles : Keeps (Studio.Stocked stranded) (do reconcile; queueWaiting .normal false) :=
    survives.keeps_reconcile.bind fun _ => keeps_queueWaiting _ _
  unfold SessionAction.openProject
  rw [ensures_bind]
  exact (h.load timeline media path time).mono (fun _ next hnext => settles next hnext) fun _ => id

/-- A chunk is taken off the queue, or its job is told to stop. -/
theorem keeps_requestCancel (index : Int) :
    Keeps (Studio.Stocked strays) (WorkshopAction.requestCancel index) := fun studio h => by
  unfold WorkshopAction.requestCancel
  rw [ensures_bind, WorkshopAction.ensures_scheduler]
  split
  · rw [ensures_bind, WorkshopAction.ensures_setScheduler]
    have dequeued := h.order.dequeue (RenderQueue.drop_sublist studio.scheduler.queue index)
    exact keeps_pump.bind (fun _ => Keeps.pure) _ (h.withJobs dequeued h.jobs)
  · split
    · exact h
    · next job found =>
      rw [ensures_bind, WorkshopAction.ensures_setScheduler, ensures_pure]
      have stopped := h.putJob (List.mem_of_find?_eq_some found) job.same_stop.id job.same_stop.chunk
        fun apart => apart.stop
      exact stopped.withJobs (stopped.order.of_eq rfl rfl rfl) stopped.jobs

/-- All jobs are told to stop. -/
theorem keeps_requestStopAll :
    Keeps (Studio.Stocked strays) WorkshopAction.requestStopAll := fun studio h => by
  unfold WorkshopAction.requestStopAll
  rw [ensures_bind, WorkshopAction.ensures_scheduler, ensures_bind, WorkshopAction.ensures_setScheduler,
    ensures_pure]
  have order := (h.order.map fun job _ => ⟨job.same_stop.id, job.same_stop.chunk⟩).dequeue
    (List.nil_sublist _)
  refine h.withJobs (order.of_eq rfl rfl rfl) fun job hjob => ?_
  obtain ⟨old, hold, rfl⟩ := List.mem_map.mp hjob
  exact (h.jobs old hold).stop

/-- The jobs that were told to stop have ended. -/
theorem keeps_finishCancel :
    Keeps (Studio.Stocked strays) WorkshopAction.finishCancel := fun studio h => by
  unfold WorkshopAction.finishCancel
  rw [ensures_bind, WorkshopAction.ensures_scheduler, ensures_bind, WorkshopAction.ensures_setScheduler]
  exact keeps_pump _ (h.withJobs (h.order.release List.filter_sublist)
    fun job hjob => h.jobs job (List.mem_of_mem_filter hjob))

/-- A job gets the answer that it waits for. -/
theorem deliver (h : studio.Stocked strays) (id : Nat) {reply : EncoderReply} (whole : reply.IsWhole) :
    Ensures (WorkshopAction.deliver id reply) studio (fun _ => Studio.Stocked strays)
      (Studio.Stocked strays) := by
  refine WorkshopAction.deliver_cases id reply h fun job hjob kept agenda waiting => ?_
  have answered : Studio.Stocked strays { studio with
      scheduler := studio.scheduler.putJob { job with phase := .answered kept reply } } := by
    refine h.putJob hjob rfl rfl fun apart => ⟨fun other hother => ?_, apart.unclaimed, ?_⟩
    · exact apart.paths other (by rw [Job.kept?, waiting]; exact hother)
    · rintro _ _ ⟨⟩
      exact whole
  exact answered.withJobs (answered.order.of_eq rfl rfl rfl) answered.jobs

end Studio.Stocked

/-- The strays after an event. -/
def SessionEvent.strays (studio : Studio) (strays : List String) : SessionEvent → List String
  | .openProject timeline _ path time => studio.store.stranded strays path timeline.duration time
  | .wipe => []
  | .work => studio.worked strays
  | _ => strays

/-- What happens to a session: an event, or the encoder of a job writes while it runs. -/
inductive FolderEvent where
  | session (event : SessionEvent)
  | encode (id : Nat) (content : List UInt8)

/-- Whoever says that all went well has made all there is. -/
def FolderEvent.IsWhole : FolderEvent → Prop
  | .session (.answer _ reply) => reply.IsWhole
  | _ => True

namespace FolderEvent

/-- The render of a job that has an encoder. -/
def kept? (studio : Studio) (id : Nat) : Option ChunkRender := (studio.scheduler.job? id).bind Job.kept?

/-- What an event leads to. The encoder of a job writes if the job has one. -/
def leads (event : FolderEvent) (studio : Studio) : Studio :=
  match event with
  | .session event => leaves event.action studio
  | .encode id content =>
    match kept? studio id with
    | none => studio
    | some kept => { studio with store := kept.written (some content) studio.store }

/-- The strays after an event. -/
def strays (event : FolderEvent) (studio : Studio) (strays : List String) : List String :=
  match event with
  | .session event => event.strays studio strays
  | .encode id content =>
    match kept? studio id with
    | none => strays
    | some kept => kept.litter (some content) studio.store.disk.files strays

end FolderEvent

/-- A session with the strays in its folder. -/
abbrev Inventory := Annals Studio (List String)

namespace Inventory

/-- A session after something has happened, and the strays. -/
abbrev next (inventory : Inventory) (event : FolderEvent) : Inventory :=
  Annals.next FolderEvent.leads FolderEvent.strays inventory event

/-- Events, and encoders that write in between, lead from one session to another. -/
def Reaches : Inventory → Inventory → Prop := Leads next FolderEvent.IsWhole

end Inventory

namespace Studio.Stocked

variable {strays : List String} {studio : Studio}

/-- Every event of a session takes the strays along. -/
theorem next (h : studio.Stocked strays) {event : SessionEvent}
    (whole : (FolderEvent.session event).IsWhole) :
    Studio.Stocked (event.strays studio strays) (leaves event.action studio) := by
  have dropped {α : Type} {action : SessionAction Double α}
      (keeps : Keeps (Studio.Stocked strays) action) :
      Studio.Stocked strays (leaves (do let _ ← action) studio) := by
    rw [leaves_discard]
    exact keeps.leaves h
  cases event with
  | openProject timeline media path time => exact (h.openProject timeline media path time).leaves
  | update timeline media settings =>
    refine dropped ((survives.keeps_change timeline media settings).bind fun changed => ?_)
    exact survives.keeps_reconcile.bind fun _ => (keeps_queueWaiting _ _).bind fun _ =>
      Keeps.bind (fun _ h => h) fun _ => Keeps.pure
  | invalidate start stop =>
    refine dropped ((survives.invalidates _).bind fun affected => ?_)
    exact (keeps_queueWaiting _ _).bind fun _ => Keeps.pure
  | prioritize t radius => exact dropped (keeps_prioritizeNear keeps_queue keeps_setUrgency t radius)
  | cancel index => exact dropped (keeps_requestCancel index)
  | stopAll => exact dropped keeps_requestStopAll
  | finishCancel => exact keeps_finishCancel.leaves h
  | wipe =>
    have wipes := h.onCache ((CacheAction.wipe_spec studio.store).mono (fun _ _ h => ⟨_, h.toRecut⟩)
      fun _ h => ⟨_, h.toRecut⟩) h.store.wipe
    exact wipes.leaves
  | answer id reply =>
    rw [SessionEvent.answer_eq]
    exact (h.deliver id whole).leaves
  | hurry place =>
    exact h.withJobs (h.order.of_eq rfl rfl rfl) h.jobs
  | work => exact h.runNext.leaves

/-- Whatever happens takes the strays along. What an encoder writes while it runs is stray. -/
theorem happens (h : studio.Stocked strays) {event : FolderEvent} (whole : event.IsWhole) :
    Studio.Stocked (event.strays studio strays) (event.leads studio) := by
  cases event with
  | session event => exact h.next whole
  | encode id content =>
    unfold FolderEvent.strays FolderEvent.leads
    dsimp only
    cases found : FolderEvent.kept? studio id with
    | none => exact h
    | some kept =>
      obtain ⟨job, there, hkept⟩ := Option.bind_eq_some_iff.mp found
      have hjob := List.mem_of_find?_eq_some there
      exact h.wrote (h.written hjob hkept (some content)) (kept.written_cache _ _) studio.shared

end Studio.Stocked

/-- In any run the strays are known. -/
theorem Inventory.Reaches.stocked {first inventory : Inventory}
    (reached : Inventory.Reaches first inventory) (h : first.state.Stocked first.account) :
    inventory.state.Stocked inventory.account :=
  Leads.keeps (fun inventory : Inventory => inventory.state.Stocked inventory.account) reached h
    fun _ _ _ whole h => h.happens whole

/-- A new session whose folder is empty has nothing to account for. -/
theorem Studio.IsNew.stocked {first : Studio} (new : first.IsNew)
    (inside : first.store.cache.folder.Inside)
    (writable : first.store.disk.files.TakesManifest first.store.cache)
    (empty : first.store.disk.files.namesIn first.store.cache.folder.text = []) :
    first.Stocked [] := by
  -- Whatever stands in the folder would be listed.
  have nothing (name : String) :
      first.store.disk.files.node? (first.store.cache.folder.place ++ [name]) = none := by
    by_contra there
    obtain ⟨place, located, -⟩ := FileTree.isFolder_iff.mp writable.folder
    obtain rfl := FileTree.eq_place_of_locate inside located
    have listed := FileTree.mem_namesIn.mpr ⟨_, located, there⟩
    rw [empty] at listed
    cases listed
  have none (name : String) : ¬ first.store.disk.files.ChunkFile first.store.cache.folder name :=
    fun file => file.node?_ne_none inside (nothing name)
  have stock : first.store.Stock [] := {
    inside := inside
    takes := writable
    tidy := fun name _ there => absurd (nothing name) there
    shelved := fun chunk hchunk => by
      rw [new.chunks] at hchunk
      cases hchunk
    stray := fun name file => absurd file (none name)
    owned := fun _ stray => absurd stray List.not_mem_nil }
  refine ⟨new.gaveUp.order, ⟨stock, fun manifest there => ?_⟩, fun job hjob => ?_⟩
  · obtain ⟨bytes, -, stands, -⟩ := there
    exact absurd (stands.symm.trans (nothing _)) nofun
  · rw [new.active] at hjob
    cases hjob

/-- In a session that begins with an empty folder, whatever is called, cancelled and done in any order:
what lies in the folder and is named like a rendered chunk is what the valid chunks have, and the strays.
So it is what the valid chunks have exactly if there are no strays. -/
theorem Inventory.Reaches.chunkFiles {first : Studio} {inventory : Inventory} (new : first.IsNew)
    (inside : first.store.cache.folder.Inside)
    (writable : first.store.disk.files.TakesManifest first.store.cache)
    (empty : first.store.disk.files.namesIn first.store.cache.folder.text = [])
    (reached : Inventory.Reaches ⟨first, []⟩ inventory) :
    let store := inventory.state.store
    (∀ path, path ∈ store.chunkFiles ↔ path ∈ store.cache.validFiles ∨ path ∈ inventory.account) ∧
      (∀ path ∈ inventory.account, path ∉ store.cache.validFiles) ∧
      ((∀ path, path ∈ store.chunkFiles ↔ path ∈ store.cache.validFiles) ↔ inventory.account = []) := by
  have stocked := reached.stocked (new.stocked inside writable empty)
  exact ⟨fun _ => stocked.store.mem_chunkFiles, fun _ => stocked.store.not_mem_validFiles,
    stocked.store.chunkFiles_eq_iff⟩

/-! ### A render that fails -/

namespace OneClip

/-- The session begins in a folder that is there, with nothing in it. -/
def housed : Studio := { opened with
  store := { opened.store with disk := { opened.store.disk with files := ⟨[(["cache"], .folder)]⟩ } } }

theorem housed_isNew : housed.IsNew := ⟨rfl, rfl, rfl, rfl, rfl, rfl⟩

theorem housed_known : housed.store.disk.files.TakesManifest housed.store.cache ∧
    housed.store.disk.files.namesIn housed.store.cache.folder.text = [] := by decide +kernel

/-- The encoder ends as it says, and has written a byte. -/
def ending (success : Bool) : List FolderEvent := [
  .session (.openProject (timeline [clip]) media none none), .session .work,
  .session (.answer 0 { result := .ok { success }, content := some [1] }), .session .work]

/-- The clip is opened, its chunk is rendered, and the encoder ends as it says. -/
def inventory (success : Bool) : Inventory := (ending success).foldl Inventory.next ⟨housed, []⟩

theorem reaches_inventory (success : Bool) : Inventory.Reaches ⟨housed, []⟩ (inventory success) := by
  refine Leads.foldl _ ?_ _
  have whole : EncoderReply.IsWhole { result := .ok { success }, content := some [1] } :=
    fun _ _ _ _ => rfl
  simp [ending, FolderEvent.IsWhole, whole]

end OneClip

/-- When a clip was rendered, its file is all that lies in the folder. -/
theorem rendered_clip_leaves_no_stray :
    ∃ inventory, Inventory.Reaches ⟨OneClip.housed, []⟩ inventory ∧
      inventory.state.scheduler.queue = [] ∧ inventory.state.scheduler.active = [] ∧
      inventory.state.store.chunkFiles ≠ [] ∧
      ∀ path, path ∈ inventory.state.store.chunkFiles ↔ path ∈ inventory.state.store.cache.validFiles := by
  let inventory := OneClip.inventory true
  have reached : Inventory.Reaches ⟨OneClip.housed, []⟩ inventory := OneClip.reaches_inventory true
  obtain ⟨writable, empty⟩ := OneClip.housed_known
  have found : (OneClip.isIdle inventory.state && !inventory.state.store.chunkFiles.isEmpty &&
      inventory.account.isEmpty) = true := by decide +kernel
  simp only [OneClip.isIdle, Bool.and_eq_true, List.isEmpty_iff, Bool.not_eq_true',
    List.isEmpty_eq_false_iff] at found
  obtain ⟨⟨⟨queue, active⟩, some⟩, tidy⟩ := found
  obtain ⟨-, -, alike⟩ := reached.chunkFiles OneClip.housed_isNew OneClip.inside_opened writable empty
  exact ⟨inventory, reached, queue, active, some, alike.mpr tidy⟩

/-- When the render of a clip has failed, what the encoder had written stays in the folder, though no
chunk is valid, nothing is queued and no job is left. -/
theorem exists_stray :
    ∃ inventory path, Inventory.Reaches ⟨OneClip.housed, []⟩ inventory ∧
      inventory.state.scheduler.queue = [] ∧ inventory.state.scheduler.active = [] ∧
      path ∈ inventory.state.store.chunkFiles ∧ path ∉ inventory.state.store.cache.validFiles := by
  let inventory := OneClip.inventory false
  have found : (OneClip.isIdle inventory.state && inventory.state.store.chunkFiles.any fun path =>
      path ∉ inventory.state.store.cache.validFiles) = true := by decide +kernel
  simp only [OneClip.isIdle, Bool.and_eq_true, List.isEmpty_iff, List.any_eq_true,
    decide_eq_true_eq] at found
  obtain ⟨⟨queue, active⟩, path, there, unused⟩ := found
  exact ⟨inventory, path, OneClip.reaches_inventory false, queue, active, there, unused⟩

end Montage
