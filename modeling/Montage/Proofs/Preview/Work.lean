import Montage.Proofs.Preview.Sound
import Montage.Proofs.Schedule.Conclusion

/-!
# Steps of jobs

A job that begins notes the hash of what it is to show and promises it. A job that ends leaves its
place and takes its hash back, and then what it did is recorded: its chunk becomes valid only if it
was not invalidated meanwhile, so that what the job promised holds.
-/

namespace Montage

variable {answers : PathExists} {log : Chronicle} {studio : Studio} {job : RenderJob}

/-! ### What is noted of jobs -/

section Sessions

variable {session session' : Session Double} (timeline : session.timeline = session'.timeline)
  (media : session.media = session'.media)

include timeline media

/-- What chunks are to show depends on the timeline and the media. -/
theorem shows_congr : Shows answers session = Shows answers session' := by
  funext chunk
  simp only [Shows, Session.hashWith, timeline, media]

theorem promises_congr : Promises answers session = Promises answers session' := by
  funext other kept chunk
  simp only [Promises, Session.hashWith, timeline, media]

end Sessions

namespace Flights

variable {inFlight after : List (Nat × String)}
  {scheduler : Scheduler Double ChunkRender EncoderReply}

/-- A job begins, and its hash is noted in place of any other of its place. -/
theorem begin (h : Flights inFlight scheduler) (jobs : scheduler.Orderly)
    (hjob : job ∈ scheduler.active) (kept : ChunkRender) :
    Flights ((job.index, kept.contentHash) :: inFlight.filter (·.1 ≠ job.index))
      (scheduler.putJob { job with phase := .waiting kept }) where
  listed index contentHash hflight := by
    rcases List.mem_cons.mp hflight with head | hflight
    · obtain ⟨rfl, rfl⟩ := Prod.mk.inj head
      exact ⟨_, List.mem_map.mpr ⟨job, hjob, if_pos rfl⟩, rfl, kept, rfl, rfl⟩
    · obtain ⟨hflight, place⟩ := List.mem_filter.mp hflight
      obtain ⟨other, hother, rfl, begun⟩ := h.listed index contentHash hflight
      have differ : other.id ≠ job.id := fun id => by
        obtain rfl := jobs.eq_of_id hother hjob id
        simp at place
      exact ⟨other, List.mem_map.mpr ⟨other, hother, if_neg differ⟩, rfl, begun⟩
  found other hother kept' hkept := by
    obtain ⟨before, hbefore, rfl⟩ := List.mem_map.mp hother
    by_cases id : before.id = job.id
    · rw [if_pos id] at hkept ⊢
      obtain rfl : kept = kept' := Option.some.inj hkept
      exact List.mem_cons_self
    · rw [if_neg id] at hkept ⊢
      refine List.mem_cons_of_mem _ (List.mem_filter.mpr
        ⟨h.found before hbefore kept' hkept, ?_⟩)
      simpa using fun place => id (congrArg Job.id (jobs.eq_of_index hbefore hjob place))

/-- A job leaves, and its hash is taken back with it. -/
theorem leave (h : Flights inFlight scheduler) (jobs : scheduler.Orderly)
    (hjob : job ∈ scheduler.active)
    (taken : ∀ index contentHash, (index, contentHash) ∈ after ↔
      (index, contentHash) ∈ inFlight ∧ index ≠ job.index) :
    Flights after (scheduler.dropJob job.id) where
  listed index contentHash hflight := by
    obtain ⟨hflight, place⟩ := (taken index contentHash).mp hflight
    obtain ⟨other, hother, rfl, begun⟩ := h.listed index contentHash hflight
    refine ⟨other, List.mem_filter.mpr ⟨hother, ?_⟩, rfl, begun⟩
    simpa using fun id => place (congrArg Job.index (jobs.eq_of_id hother hjob id))
  found other hother kept hkept := by
    refine (taken _ _).mpr ⟨h.found other ?_ kept hkept, jobs.index_ne_of_dropJob hjob hother⟩
    exact (scheduler.dropJob_sublist job.id).subset hother

end Flights

namespace Studio.Coherent

/-- What the chronicle notes of a job changes nothing that is stated: its chunk is not valid, and
the job that begins has promised nothing yet. -/
theorem step (h : studio.Coherent answers log) (hjob : job ∈ studio.scheduler.active) :
    studio.Coherent answers (log.step studio job) := by
  have noted {starts : Nat → Option Moment} {note : Note}
      (same : ∀ other ∈ studio.scheduler.active, other.kept? ≠ none →
        starts other.id = log.starts other.id) :
      studio.Coherent answers { log with
        starts, notes := Function.update log.notes job.chunk.serial (some note) } := by
    refine ⟨h.order, h.sound.flights, h.sound.settings, fun serial note hnote => ?_,
      h.sound.content, fun known => ⟨fun chunk hchunk valid note hnote => ?_,
        fun other hother chunk hchunk serial fresh kept hkept => ?_⟩⟩
    · by_cases here : serial = job.chunk.serial
      · exact here ▸ h.order.made job hjob
      · exact h.sound.noted serial note (by simpa [here] using hnote)
    · -- The note is of a chunk that is rendering, and so of none that is valid.
      have differ : chunk.serial ≠ job.chunk.serial := fun serial => by
        have := (h.order.owned job hjob chunk hchunk serial).1
        simp [valid] at this
      exact (h.sound.output known).shown chunk hchunk valid note (by simpa [differ] using hnote)
    · obtain ⟨moment, hmoment, suits⟩ :=
        (h.sound.output known).awaited other hother chunk hchunk serial fresh kept hkept
      exact ⟨moment, (same other hother (by simp [hkept])).trans hmoment, suits⟩
  unfold Chronicle.step
  split
  · next due =>
    refine noted fun other hother begun => Function.update_of_ne (fun id => begun ?_) _ _
    obtain rfl := h.order.jobs.eq_of_id hother hjob id
    simp [Job.kept?, due]
  · exact noted fun _ _ _ => rfl
  · exact h

/-- A job leaves its place, and its hash the list. -/
theorem leave (h : studio.Coherent answers log) (hjob : job ∈ studio.scheduler.active)
    {store : CacheState Double} (cache : store.cache = studio.store.cache)
    {session : Session Double} (timeline : session.timeline = studio.shared.timeline)
    (media : session.media = studio.shared.media)
    (settings : session.settings = studio.shared.settings)
    (calls : studio.shared.calls ⊆ session.calls)
    (inFlight : ∀ index contentHash, (index, contentHash) ∈ session.inFlight ↔
      (index, contentHash) ∈ studio.shared.inFlight ∧ index ≠ job.index) :
    Studio.Coherent answers log
      { store, scheduler := studio.scheduler.dropJob job.id, shared := session } := by
  have sub := studio.scheduler.dropJob_sublist job.id
  refine ⟨cache ▸ h.order.release sub, ⟨h.sound.flights.leave h.order.jobs hjob inFlight, ?_, ?_,
    fun known => ?_, fun known => ?_⟩⟩
  · rw [cache, settings]
    exact h.sound.settings
  · rw [cache]
    exact h.sound.noted
  · rw [cache, shows_congr timeline media, promises_congr timeline media]
    exact (h.sound.content known).of_subset fun other hother _ => sub.subset hother
  · rw [cache]
    exact ((h.sound.output known).output_mono (.inl settings.symm) calls).of_subset
      fun other hother _ => sub.subset hother

/-- What a job did is recorded, if what it reports as done is right. -/
theorem records (h : studio.Coherent answers log) {index : Nat} {outcome : RenderOutcome}
    (free : ∀ other ∈ studio.scheduler.active, other.index ≠ index)
    (shown : log.behind = false → outcome.success = true → outcome.cancelled = false →
      ∀ chunk ∈ studio.store.cache.chunks, chunk.index = index →
        chunk.renderGeneration = some chunk.generation → chunk.start < chunk.stop →
        outcome.contentHash = some (studio.shared.hashWith answers chunk.window))
    (made : log.unsettled = false → outcome.success = true → outcome.cancelled = false →
      ∀ chunk ∈ studio.store.cache.chunks, chunk.index = index →
        chunk.renderGeneration = some chunk.generation →
        RenderedFor studio.shared log chunk) :
    Records (Sound answers studio.shared log) studio.scheduler studio.store.cache index outcome := by
  have free' : ∀ other ∈ studio.scheduler.active, (other.index : Int) ≠ index :=
    fun other hother same => free other hother (by omega)
  have window {old new : Chunk Double} (concluded : old.Concluded new) :
      new.window = old.window := by
    rw [Chunk.window, Chunk.window, concluded.start, concluded.stop]
  have sound {after : Cache Double} {leads : Chunk Double → Chunk Double → Prop}
      (ends : studio.store.cache.Concludes after index leads)
      (content : log.behind = false → ∀ old ∈ studio.store.cache.chunks, ∀ new, old.Concluded new →
        leads old new → (old.index : Int) = index → new.status = .valid →
        Shows answers studio.shared new)
      (output : log.unsettled = false → ∀ old ∈ studio.store.cache.chunks, ∀ new,
        old.Concluded new → leads old new → (old.index : Int) = index → new.status = .valid →
        RenderedFor studio.shared log new) :
      Sound answers studio.shared log studio.scheduler after := by
    have same : after.settings = studio.store.cache.settings ∧
        after.nextSerial = studio.store.cache.nextSerial := by
      rcases ends with rfl | ⟨old, new, -, -, -, rfl⟩ <;> exact ⟨rfl, rfl⟩
    exact ⟨h.sound.flights, same.1.trans h.sound.settings, same.2 ▸ h.sound.noted,
      fun known => (h.sound.content known).concludes h.order ends free' (content known),
      fun known => (h.sound.output known).concludes h.order ends free' (output known)⟩
  refine ⟨fun success done after ends => sound ends
    (fun known old hold new concluded led place valid length => ?_)
    fun known old hold new concluded led place valid note hnote => ?_, fun done after ends =>
    sound ends (fun _ _ _ _ _ led _ valid => absurd valid (by simp [led.1]))
      fun _ _ _ _ _ led _ valid => absurd valid (by simp [led.1])⟩
  · have right := shown known success done old hold (by omega) (concluded.fresh valid)
      (by rw [← concluded.start, ← concluded.stop]; exact length)
    rw [led.2, right, window concluded]
    rfl
  · rw [concluded.serial] at hnote
    rw [window concluded]
    exact made known success done old hold (by omega) (concluded.fresh valid) note hnote

/-- A job begins to wait, with the hash of what its chunk is to show now. -/
theorem start (h : studio.Coherent answers log) (hjob : job ∈ studio.scheduler.active)
    {store : CacheState Double} (cache : store.cache = studio.store.cache) {kept : ChunkRender}
    (hash : kept.contentHash = studio.shared.hashWith answers job.chunk.window)
    {session : Session Double} (calls : (studio.shared.start job.index kept.contentHash).Calls session)
    {moment : Moment} (started : log.starts job.id = some moment)
    (suits : moment.Suits session job.chunk.window) :
    Studio.Coherent answers log {
      store, shared := session
      scheduler := studio.scheduler.putJob { job with phase := .waiting kept } } := by
  have inFlight : session.inFlight =
      (job.index, kept.contentHash) :: studio.shared.inFlight.filter (·.1 ≠ job.index) := by
    rw [calls.same]
    rfl
  obtain ⟨timeline, media, settings⟩ : session.timeline = studio.shared.timeline ∧
      session.media = studio.shared.media ∧ session.settings = studio.shared.settings :=
    calls.project
  refine ⟨cache ▸ h.order.putJob hjob rfl rfl, ⟨?_, ?_, ?_, fun known => ?_, fun known => ?_⟩⟩
  · rw [inFlight]
    exact h.sound.flights.begin h.order.jobs hjob kept
  · rw [cache, settings]
    exact h.sound.settings
  · rw [cache]
    exact h.sound.noted
  · rw [cache, shows_congr timeline media, promises_congr timeline media]
    refine (h.sound.content known).putJob _ fun chunk hchunk serial _ kept' hkept _ => ?_
    obtain rfl : kept = kept' := Option.some.inj hkept
    rw [hash, (h.order.owned job hjob chunk hchunk serial).2.2]
  · rw [cache]
    refine ((h.sound.output known).output_mono (.inl settings.symm) calls.calls).putJob _
      fun chunk hchunk serial _ _ _ => ⟨moment, started, ?_⟩
    rw [(h.order.owned job hjob chunk hchunk serial).2.2]
    exact suits

end Studio.Coherent

/-! ### Steps -/

/-- What a session is after a job has come to an end, and what its outcome may be. -/
structure RenderJob.Finishes (job : RenderJob) (files : FileTree) (before after : Session Double)
    (outcome : RenderOutcome) : Prop where
  same : after = { before with inFlight := after.inFlight, calls := after.calls }
  calls : before.calls ⊆ after.calls
  inFlight : ∀ index contentHash, (index, contentHash) ∈ after.inFlight ↔
    (index, contentHash) ∈ before.inFlight ∧ index ≠ job.index
  done : outcome.success = true → outcome.cancelled = false →
    ∃ kept reply, job.phase = .answered kept reply ∧ outcome.contentHash = some kept.contentHash
  tried : outcome.cancelled = false → ∀ hash, outcome.contentHash = some hash →
    job.phase = .due false ∧ hash = before.hashOf files job.chunk ∨
      ∃ kept reply, job.phase = .answered kept reply ∧ hash = kept.contentHash

/-- A job that comes to an end changes nothing of what is rendered. -/
theorem RenderJob.Finishes.project {job : RenderJob} {files : FileTree}
    {before after : Session Double} {outcome : RenderOutcome}
    (h : RenderJob.Finishes job files before after outcome) :
    after.timeline = before.timeline ∧ after.media = before.media ∧
      after.settings = before.settings := by
  rw [h.same]
  exact ⟨rfl, rfl, rfl⟩

/-- A render that comes to an end in its first step finds its own hash noted, and takes it back. -/
theorem RenderJob.Finishes.of_begin {job : RenderJob} {files : FileTree}
    {before session : Session Double} {outcome : RenderOutcome} (due : job.phase = .due false)
    (nothing : outcome.success = false)
    (reports : ∀ hash, outcome.contentHash = some hash → hash = before.hashOf files job.chunk)
    (calls : ((before.start job.index (before.hashOf files job.chunk)).stop job.index
      (before.hashOf files job.chunk)).Calls session) :
    RenderJob.Finishes job files before session outcome := by
  refine ⟨?_, calls.calls, fun index contentHash => ?_,
    fun success => absurd success (by simp [nothing]),
    fun _ hash report => .inl ⟨due, reports hash report⟩⟩
  · rw [calls.same]
    rfl
  · rw [calls.same]
    exact Session.mem_start_stop

/-- A job that has begun is the only one for its place, so the hash that it takes back is all that was
noted there. -/
theorem Studio.Coherent.finishes (h : studio.Coherent answers log)
    (hjob : job ∈ studio.scheduler.active) {kept : ChunkRender} (begun : job.kept? = some kept)
    {outcome : RenderOutcome}
    (done : outcome.success = true → outcome.cancelled = false → ∃ kept reply,
      job.phase = .answered kept reply ∧ outcome.contentHash = some kept.contentHash)
    (tried : outcome.cancelled = false → ∀ hash, outcome.contentHash = some hash →
      ∃ kept reply, job.phase = .answered kept reply ∧ hash = kept.contentHash) :
    RenderJob.Finishes job studio.store.disk.files studio.shared
      (studio.shared.stop job.index kept.contentHash) outcome := by
  refine ⟨rfl, List.Subset.refl _, fun index contentHash => ?_, done,
    fun real hash report => .inr (tried real hash report)⟩
  refine List.mem_filter.trans (and_congr_right fun hflight => ?_)
  obtain ⟨other, hother, rfl, kept', hkept', rfl⟩ :=
    h.sound.flights.listed index contentHash hflight
  rw [decide_eq_true_iff, not_iff_not]
  refine ⟨fun same => (Prod.mk.inj same).1, fun place => ?_⟩
  obtain rfl := h.order.jobs.eq_of_index hother hjob place
  rw [Option.some.inj (begun.symm.trans hkept')]

/-- Where the step of a job can lead: it is dropped, it begins to wait, or it comes to an end. -/
theorem runJob_cases (h : studio.Coherent answers log) (hjob : job ∈ studio.scheduler.active)
    {leads : Studio → Prop} (stays : leads studio)
    (ended : job.phase = .due true →
      leads { studio with scheduler := studio.scheduler.putJob { job with phase := .ended } })
    (waits : ∀ (kept : ChunkRender) store session, job.phase = .due false →
      store.cache = studio.store.cache → kept.contentHash = studio.hashOf job.chunk →
      (studio.shared.start job.index kept.contentHash).Calls session →
      (∃ call ∈ session.calls,
        studio.shared.Composes studio.store.disk.files job.chunk.window call) →
      leads { store, shared := session
              scheduler := studio.scheduler.putJob { job with phase := .waiting kept } })
    (finishes : ∀ outcome store session, store.cache = studio.store.cache →
      RenderJob.Finishes job studio.store.disk.files studio.shared session outcome →
      Ensures (tryCatch (WorkshopAction.complete ChunkRender.worker job outcome) fun _ => pure ())
        { studio with store, shared := session } (fun _ => leads) leads) :
    Ensures (WorkshopAction.runJob ChunkRender.worker job) studio (fun _ => leads) leads := by
  unfold WorkshopAction.runJob
  dsimp only
  split
  · next due => exact ended due
  · next due =>
    rw [ensures_bind]
    refine Ensures.tryCatch ?_
    rw [WorkshopAction.ensures_onWorker]
    refine (ChunkRender.begin_spec job.chunk studio.store studio.shared).mono ?_ ?_
    · rintro (kept | outcome) ⟨store, session⟩ ⟨hcache, hstep⟩
      · obtain ⟨hash, calls, composed⟩ := hstep
        rw [← hash] at calls
        exact waits kept store session due hcache hash calls composed
      · obtain ⟨⟨nothing, -, hash⟩, calls⟩ := hstep
        exact finishes outcome store session hcache (.of_begin due nothing
          (fun _ report => Option.some.inj (report.symm.trans hash)) calls)
    · rintro ⟨store, session⟩ ⟨hcache, calls⟩ failure
      exact finishes _ store session hcache (.of_begin due rfl
        (fun _ report => absurd report (by simp [WorkshopAction.broken])) calls)
  · next kept reply answered =>
    have begun : job.kept? = some kept := by simp [Job.kept?, answered]
    rw [ensures_bind]
    refine Ensures.tryCatch ?_
    rw [WorkshopAction.ensures_onWorker]
    refine (ChunkRender.resume_spec job.chunk kept reply studio.store studio.shared).mono ?_ ?_
    · rintro outcome ⟨store, session⟩ ⟨⟨hcache, rfl⟩, report⟩
      have told (done : outcome.cancelled = false) : outcome.contentHash = some kept.contentHash :=
        report.resolve_left (by simp [done])
      exact finishes outcome store _ hcache (h.finishes hjob begun
        (fun _ done => ⟨kept, reply, answered, told done⟩)
        fun done hash report => ⟨kept, reply, answered, Option.some.inj (report.symm.trans (told done))⟩)
    · rintro ⟨store, session⟩ ⟨hcache, rfl⟩ failure
      exact finishes _ store _ hcache (h.finishes hjob begun
        (fun success => absurd success (by simp [WorkshopAction.broken]))
        fun _ _ report => absurd report (by simp [WorkshopAction.broken]))
  · next kept stopping =>
    have begun : job.kept? = some kept := by simp [Job.kept?, stopping]
    exact finishes _ studio.store _ rfl (h.finishes hjob begun (fun success => absurd success (by simp))
      fun done => absurd done (by simp))
  · exact stays
  · exact stays

/-- A job does what is due. -/
theorem runJob_spec (h : studio.Coherent answers log) (steady : Steady answers studio)
    (hjob : job ∈ studio.scheduler.active) :
    Ensures (WorkshopAction.runJob ChunkRender.worker job) studio
      (fun _ next => Studio.Coherent answers (log.step studio job) next)
      (fun next => Studio.Coherent answers (log.step studio job) next) := by
  have noted := h.step hjob
  have free : ∀ other ∈ (studio.scheduler.dropJob job.id).active, other.index ≠ job.index :=
    fun other => h.order.jobs.index_ne_of_dropJob hjob
  refine runJob_cases h hjob noted (fun due => ?_)
    (fun kept store session due hcache hash calls composed => ?_)
    fun outcome store session hcache ends => ?_
  · -- The job was told to stop before it began, so it promised nothing.
    have same : ({ job with phase := .ended } : RenderJob).id = job.id ∧
        ({ job with phase := .ended } : RenderJob).chunk = job.chunk ∧
        ({ job with phase := .ended } : RenderJob).kept? = job.kept? := by
      simp [Job.kept?, due]
    exact noted.putJob hjob same studio.scheduler.agenda
  · -- The hash is that of now, since path answers do not change.
    have started : (log.step studio job).starts job.id =
        some ⟨studio.shared, studio.store.disk.files, log.changes⟩ := by
      simp [Chronicle.step, due]
    have settings : session.settings = studio.shared.settings := calls.project.2.2
    exact noted.start hjob hcache (hash.trans (steady.hashOf job.chunk)) calls started
      ⟨.inl settings.symm, composed⟩
  · obtain ⟨timeline, media, settings⟩ := ends.project
    let shop : Studio := { studio with store, shared := session }
    have left : Studio.Coherent answers (log.step studio job)
        { shop with scheduler := shop.scheduler.dropJob job.id } :=
      noted.leave hjob hcache timeline media settings ends.calls ends.inFlight
    refine Ensures.mono (Sound.admits.complete (fun _ _ => rfl) left.under free
      fun mine => left.records free ?_ ?_) (fun _ _ hnext => hnext.coherent)
      fun _ hnext => hnext.coherent
    · -- A chunk that was not invalidated shows what the job promised.
      intro known success done chunk hchunk place fresh length
      obtain ⟨kept, reply, answered, hash⟩ := ends.done success done
      have begun : job.kept? = some kept := by simp [Job.kept?, answered]
      have serial := mine chunk hchunk place
      rw [hcache] at hchunk
      have promised := (noted.sound.content known).awaited job hjob chunk hchunk serial fresh kept
        begun length
      rw [hash, promised, Session.hashWith, Session.hashWith, timeline, media]
    · intro known success done chunk hchunk place fresh note hnote
      obtain ⟨kept, reply, answered, hash⟩ := ends.done success done
      have begun : job.kept? = some kept := by simp [Job.kept?, answered]
      have serial := mine chunk hchunk place
      rw [hcache] at hchunk
      obtain ⟨moment, hmoment, suits⟩ := (noted.sound.output known).awaited job hjob chunk hchunk
        serial fresh kept begun
      refine ⟨moment, ?_, suits.mono (.inl settings.symm) ends.calls⟩
      simp only [Chronicle.step, answered, serial, Function.update_self] at hnote hmoment
      rw [← Option.some.inj hnote]
      exact hmoment

/-- What is due first is done. -/
theorem runNext_spec (h : studio.Coherent answers log) (steady : Steady answers studio) :
    Ensures (SessionEvent.action .work) studio
      (fun _ next => Studio.Coherent answers (log.next .work studio) next)
      (fun next => Studio.Coherent answers (log.next .work studio) next) := by
  unfold SessionEvent.action WorkshopAction.runNext Chronicle.next
  dsimp only
  rw [ensures_bind, WorkshopAction.ensures_scheduler]
  cases hagenda : studio.scheduler.agenda with
  | nil => exact h
  | cons id rest =>
    dsimp only [List.head?_cons, Option.bind_some]
    rw [ensures_bind, WorkshopAction.ensures_setScheduler]
    have waiting := h.redate rest
    cases hjob : studio.scheduler.job? id with
    | none => exact waiting
    | some job =>
      exact runJob_spec waiting steady (List.mem_of_find?_eq_some hjob)

end Montage
