import Montage.Proofs.Preview.Coherence

/-!
# Chunks that failed

A chunk that failed is tried again when a call finds it, if it is to show something else than it
failed to show, or if the call brings settings that make a difference. What happens while it is
being rendered is not looked at when it fails. So what a chunk that failed and is not queued has to
do with what it is to show now, depends on how things stood when it failed.

## Main definitions

* `LastTried` — what a run keeps of the last render of a chunk
* `Accounts` — every chunk that failed is queued or accounted for
* `editsOnly` — calls that come back, and nothing that cancels

## Main results

* `Run.accounted` — chunks that failed are accounted for in every state
* `Run.failed_shows_current_iff` — when a chunk that failed did so on what it is to show now
* `exists_failed_outdated` — a chunk that was edited while it was rendered is not tried again
-/

namespace Montage

open SessionAction

variable {answers : PathExists} {log : Chronicle} {studio : Studio}

/-- What is known of the last render of a chunk: the hash with which it began, and that the output
was not changed after it failed. -/
structure LastTried (log : Chronicle) (chunk : Chunk Double) (hash : String) (note : Note)
    (moment : Moment) : Prop where
  noted : log.notes chunk.serial = some note
  start : note.start = some moment
  hash : hash = moment.session.hashOf moment.files chunk
  changes : note.changes = log.changes
  calls : note.calls ≤ log.calls

/-- Every chunk that failed, and did not break down, is queued or accounted for. -/
structure Accounts (log : Chronicle) (accounts : Chunk Double → String → Prop)
    (scheduler : Scheduler Double ChunkRender EncoderReply) (cache : Cache Double) : Prop where
  begun : ∀ job ∈ scheduler.active, ∀ kept, job.kept? = some kept →
    ∃ moment, log.starts job.id = some moment ∧
      kept.contentHash = moment.session.hashOf moment.files job.chunk
  failed : ∀ chunk ∈ cache.chunks, chunk.status = .error → ∀ hash, chunk.failedHash = some hash →
    (∃ entry ∈ scheduler.queue, entry.index = chunk.index) ∨ accounts chunk hash

/-- How a chunk that failed and is not queued was tried last. -/
def WasTried (log : Chronicle) (chunk : Chunk Double) (hash : String) : Prop :=
  ∃ note moment, LastTried log chunk hash note moment

/-- What a chunk failed to show is what it was to show when a call came back since. Before that, it
is known what it was to show when it failed. -/
def TriedSince (answers : PathExists) (session : Session Double) (log : Chronicle)
    (chunk : Chunk Double) (hash : String) : Prop :=
  ∃ note moment, LastTried log chunk hash note moment ∧
    (note.calls = log.calls → note.hash = session.hashWith answers chunk.window) ∧
    (note.calls < log.calls → hash = session.hashWith answers chunk.window)

/-- A chunk that failed just now. -/
theorem TriedSince.of_now {session : Session Double} {chunk : Chunk Double} {hash : String}
    {note : Note} {moment : Moment} (tried : LastTried log chunk hash note moment)
    (calls : note.calls = log.calls)
    (now : note.hash = session.hashWith answers chunk.window) :
    TriedSince answers session log chunk hash :=
  ⟨note, moment, tried, fun _ => now, fun fewer => absurd calls (Nat.ne_of_lt fewer)⟩

/-- Accounts that go by the number, the place and the window of a chunk. -/
def Settled (accounts : Chunk Double → String → Prop) : Prop :=
  ∀ before after hash, Chunk.Follows before after → accounts before hash → accounts after hash

theorem LastTried.follows {before after : Chunk Double} {hash : String} {note : Note}
    {moment : Moment} (h : LastTried log before hash note moment) (follows : before.Follows after) :
    LastTried log after hash note moment where
  noted := follows.serial ▸ h.noted
  start := h.start
  hash := by
    rw [Session.hashOf, follows.window]
    exact h.hash
  changes := h.changes
  calls := h.calls

theorem settled_wasTried : Settled (WasTried log) := by
  rintro before after hash follows ⟨note, moment, tried⟩
  exact ⟨note, moment, tried.follows follows⟩

namespace Accounts

variable {accounts accounts' : Chunk Double → String → Prop}
  {scheduler : Scheduler Double ChunkRender EncoderReply} {cache : Cache Double}

theorem mono (h : Accounts log accounts scheduler cache)
    (leads : ∀ chunk ∈ cache.chunks, ∀ hash, accounts chunk hash → accounts' chunk hash) :
    Accounts log accounts' scheduler cache :=
  ⟨h.begun, fun chunk hchunk failed hash hhash =>
    (h.failed chunk hchunk failed hash hhash).imp_right (leads chunk hchunk hash)⟩

theorem admits : Admits (Accounts log accounts) where
  idle _ _ _ h := ⟨h.begun, h.failed⟩
  skip entry rest scheduler cache order queue h valid := by
    refine ⟨h.begun, fun chunk hchunk failed hash hhash => ?_⟩
    refine (h.failed chunk hchunk failed hash hhash).imp_left ?_
    rintro ⟨other, hother, place⟩
    rcases List.mem_cons.mp (queue ▸ hother) with rfl | hother
    · have := valid chunk (place ▸ order.chunks.get_index hchunk)
      simp [failed] at this
    · exact ⟨other, hother, place⟩
  begin entry rest scheduler cache chunk order queue _ h hget _ := by
    have hchunk := Cache.mem_of_get hget
    have serial : (Cache.beginRender chunk).serial = chunk.serial := rfl
    refine ⟨fun job hjob kept hkept => ?_, fun other hother failed hash hhash => ?_⟩
    · rcases List.mem_append.mp hjob with hjob | hjob
      · exact h.begun job hjob kept hkept
      · obtain rfl := List.mem_singleton.mp hjob
        exact absurd hkept (by simp [Job.kept?])
    · rcases (Cache.mem_put hchunk serial).mp hother with rfl | ⟨hother, differ⟩
      · exact absurd failed (by simp [Cache.beginRender])
      · refine (h.failed other hother failed hash hhash).imp_left ?_
        rintro ⟨waiting, hwaiting, place⟩
        rcases List.mem_cons.mp (queue ▸ hwaiting) with rfl | hwaiting
        · obtain rfl := Except.ok.inj (hget.symm.trans (place ▸ order.chunks.get_index hother))
          exact absurd rfl differ
        · exact ⟨waiting, hwaiting, place⟩
  enqueue entry scheduler cache h := by
    refine ⟨h.begun, fun chunk hchunk failed hash hhash => ?_⟩
    refine (h.failed chunk hchunk failed hash hhash).imp_left ?_
    rintro ⟨other, hother, place⟩
    exact ⟨other, RenderQueue.mem_enqueue.mpr (.inr hother), place⟩

/-- No chunk fails when a cache is cut anew, and what failed before is where it was. -/
theorem recut (h : Accounts log accounts scheduler cache) (settled : Settled accounts)
    {after : Cache Double} (chunks : ∀ chunk ∈ after.chunks,
      (∃ old ∈ cache.chunks, old.Demoted chunk) ∨ Cache.IsNew cache.nextSerial chunk) :
    Accounts log accounts scheduler after := by
  refine ⟨h.begun, fun chunk hchunk failed hash hhash => ?_⟩
  rcases chunks chunk hchunk with ⟨old, hold, demoted⟩ | new
  · have failed' : old.status = .error := by
      rw [← demoted.status_eq (by rw [failed]; rfl), failed]
    rcases h.failed old hold failed' hash (demoted.failedHash ▸ hhash) with queued | tried
    · exact .inl (demoted.index ▸ queued)
    · exact .inr (settled old chunk hash demoted.toFollows tried)
  · rcases new.status with missing | valid <;> simp_all

end Accounts

/-! ### Queueing what failed -/

/-- A chunk that need not be queued is valid, has a job, or failed to show what it is to show now. -/
theorem isPending_spec (retry : Bool) (chunk : Chunk Double) :
    Ensures (isPending retry chunk) studio
      (fun pending next => next = studio ∧ (pending = false → chunk.status = .valid ∨
        chunk.status = .error ∧ retry = false ∧ chunk.failedHash = some (studio.hashOf chunk) ∨
        chunk.status = .rendering ∧ studio.scheduler.hasJob chunk.index = true))
      (fun _ => False) := by
  unfold isPending
  split
  · exact ⟨rfl, fun idle => absurd idle (by simp)⟩
  · exact ⟨rfl, fun idle => absurd idle (by simp)⟩
  · next failed =>
    rw [ensures_bind, ensures_hashOf]
    refine ⟨rfl, fun idle => .inr (.inl ⟨failed, ?_⟩)⟩
    simpa [Studio.hashOf] using idle
  · next busy =>
    rw [ensures_bind, WorkshopAction.ensures_scheduler]
    exact ⟨rfl, fun idle => .inr (.inr ⟨busy, by simpa using idle⟩)⟩
  · next valid => exact ⟨rfl, fun _ => .inl valid⟩

/-- What is known after the first chunks were looked at: those that failed are queued, or failed to
show what they are to show, and need not be tried for another reason. -/
def Queued (retry : Bool) (now : Chunk Double → String) (accounts : Chunk Double → String → Prop)
    (count : Nat) (chunk : Chunk Double) (hash : String) : Prop :=
  accounts chunk hash ∧ (chunk.index < count → retry = false ∧ hash = now chunk)

section Queue

variable {retry : Bool} {now : Chunk Double → String} {accounts : Chunk Double → String → Prop}
  {count : Nat}

theorem Accounts.queued_succ {scheduler : Scheduler Double ChunkRender EncoderReply}
    {cache : Cache Double} (h : Accounts log (Queued retry now accounts count) scheduler cache)
    (here : ∀ chunk ∈ cache.chunks, chunk.index = count → chunk.status = .error →
      (∃ entry ∈ scheduler.queue, entry.index = chunk.index) ∨
        retry = false ∧ chunk.failedHash = some (now chunk)) :
    Accounts log (Queued retry now accounts (count + 1)) scheduler cache := by
  refine ⟨h.begun, fun chunk hchunk failed hash hhash => ?_⟩
  rcases h.failed chunk hchunk failed hash hhash with queued | ⟨tried, before⟩
  · exact .inl queued
  · by_cases place : chunk.index = count
    · refine (here chunk hchunk place failed).imp_right fun settled => ⟨tried, fun _ => ?_⟩
      exact ⟨settled.1, Option.some.inj (hhash.symm.trans settled.2)⟩
    · exact .inr ⟨tried, fun after => before (by omega)⟩

/-- A look at the next chunk, which is queued unless it failed to show what it is to show now. -/
theorem visit_queue_spec (urgency : Urgency)
    (order : InOrder studio.store.cache studio.scheduler)
    (h : Accounts log (Queued retry studio.hashOf accounts count) studio.scheduler
      studio.store.cache) :
    Ensures (visit (fun chunk => do
        if ← isPending retry chunk then
          let _ ← WorkshopAction.queue chunk.index urgency) count) studio
      (fun _ next => InOrder next.store.cache next.scheduler ∧
        (Accounts log (Queued retry studio.hashOf accounts (count + 1)) next.scheduler
          next.store.cache ∧ next.store.cache.chunks.length = studio.store.cache.chunks.length) ∧
        studio.Apart next)
      (fun _ => False) := by
  have admits : Admits fun scheduler (cache : Cache Double) =>
      Accounts log (Queued retry studio.hashOf accounts (count + 1)) scheduler cache ∧
        cache.chunks.length = studio.store.cache.chunks.length :=
    Accounts.admits.and (Admits.length _)
  have only {chunk other : Chunk Double} (hplace : studio.store.cache.chunks[count]? = some chunk)
      (hother : other ∈ studio.store.cache.chunks) (place : other.index = count) : other = chunk :=
    order.chunks.eq_of_index hother (List.mem_of_getElem? hplace)
      (place.trans (order.chunks.placed count chunk hplace).symm)
  unfold visit
  rw [ensures_bind, ensures_cache]
  split
  · next chunk hplace =>
    rw [ensures_bind]
    refine (isPending_spec retry chunk).mono ?_ fun _ => False.elim
    rintro pending _ ⟨rfl, settled⟩
    split
    · rw [ensures_bind]
      refine (admits.admission chunk.index urgency _ order (fun held => ⟨?_, rfl⟩) ⟨?_, rfl⟩).mono
        (fun _ next hnext => hnext) fun _ => id
      · -- A chunk that failed has no job, so its place is in the queue.
        refine h.queued_succ fun other hother place failed => .inl ?_
        obtain rfl := only hplace hother place
        rcases held with ⟨job, hjob, same⟩ | queued
        · exact absurd (by omega) (order.not_held hjob hother failed)
        · exact queued
      · have entered := Accounts.admits.enqueue ⟨chunk.index, urgency⟩ _ _ h
        refine entered.queued_succ fun other hother place _ => .inl ?_
        obtain rfl := only hplace hother place
        exact ⟨_, RenderQueue.mem_enqueue.mpr (.inl rfl), rfl⟩
    · next idle =>
      refine ⟨order, ⟨h.queued_succ fun other hother place failed => .inr ?_, rfl⟩, .refl _⟩
      obtain rfl := only hplace hother place
      have settled := settled (by simpa using idle)
      simpa [failed] using settled
  · next beyond =>
    refine ⟨order, ⟨h.queued_succ fun other hother place => ?_, rfl⟩, .refl _⟩
    have := order.chunks.getElem?_index hother
    rw [place, beyond] at this
    exact absurd this (by simp)

theorem Workshop.Apart.hashOf {next : Studio} (apart : studio.Apart next) :
    next.hashOf = studio.hashOf := by
  funext chunk
  rw [Studio.hashOf, Studio.hashOf, apart.shared, apart.disk]

/-- After all chunks were looked at, what failed and is not queued failed to show what it is to show
now, and not for another reason. -/
theorem queueWaiting_spec (urgency : Urgency) (order : InOrder studio.store.cache studio.scheduler)
    (h : Accounts log accounts studio.scheduler studio.store.cache) :
    Ensures (queueWaiting urgency retry) studio
      (fun _ next => Accounts log
        (fun chunk hash => accounts chunk hash ∧ retry = false ∧ hash = Studio.hashOf next chunk)
        next.scheduler next.store.cache)
      (fun _ => False) := by
  let length := studio.store.cache.chunks.length
  let holds (count : Nat) (state : Studio) : Prop :=
    InOrder state.store.cache state.scheduler ∧
      (Accounts log (Queued retry studio.hashOf accounts count) state.scheduler state.store.cache ∧
        state.store.cache.chunks.length = length) ∧ studio.Apart state
  have first : holds 0 studio :=
    ⟨order, ⟨h.mono fun _ _ _ tried => ⟨tried, fun before => absurd before (Nat.not_lt_zero _)⟩,
      rfl⟩, .refl _⟩
  have round (count : Nat) (state : Studio) (_ : True) (hstate : holds count state) :
      Ensures (visit (fun chunk => do
        if ← isPending retry chunk then
          let _ ← WorkshopAction.queue chunk.index urgency) count) state
        (fun _ next => holds (count + 1) next) (fun _ => False) := by
    obtain ⟨order, ⟨h, same⟩, apart⟩ := hstate
    rw [← apart.hashOf] at h
    refine (visit_queue_spec urgency order h).mono (fun _ next hnext => ?_) fun _ => id
    obtain ⟨order, ⟨h, same'⟩, apart'⟩ := hnext
    exact ⟨order, ⟨apart.hashOf ▸ h, same'.trans same⟩, apart'.disk.trans apart.disk,
      apart'.shared.trans apart.shared⟩
  unfold queueWaiting forChunks
  rw [ensures_bind, ensures_cache, List.range_eq_range']
  refine (ensures_forM_range' round length 0 studio (fun _ _ => trivial) first).mono ?_ fun _ => id
  rintro - next ⟨⟨order, ⟨h, same⟩, apart⟩, -⟩
  refine h.mono fun chunk hchunk hash queued => ⟨queued.1, ?_⟩
  rw [apart.hashOf]
  refine queued.2 ?_
  rw [Nat.zero_add, ← same]
  exact (List.getElem?_eq_some_iff.mp (order.chunks.getElem?_index hchunk)).1

end Queue

/-! ### Calls -/

/-- All that failed and is not queued was tried since the output was changed last. -/
def AllTried (log : Chronicle) (studio : Studio) : Prop :=
  Accounts log (WasTried log) studio.scheduler studio.store.cache

/-- All that failed and is not queued failed to show what it is to show now, and need not be tried
for another reason. -/
def AllSettled (log : Chronicle) (retry : Bool) (studio : Studio) : Prop :=
  Accounts log
    (fun chunk hash => WasTried log chunk hash ∧ retry = false ∧ hash = studio.hashOf chunk)
    studio.scheduler studio.store.cache

theorem AllTried.survivesEdits : SurvivesEdits (AllTried log) where
  session _ _ h := h
  recut _ _ _ recut h := h.recut settled_wasTried recut.chunks

/-- What is left to do once new contents are in place. -/
theorem allSettled_settle (h : studio.Coherent answers { log with behind := true })
    (tried : AllTried log studio)
    (along : ∀ state ∈ trail (visit refresh) (List.range studio.store.cache.chunks.length) studio,
      Steady answers state) (urgency : Urgency) (retry : Bool) :
    Ensures (do reconcile; queueWaiting urgency retry) studio
      (fun _ next => AllSettled log retry next) (fun _ => True) := by
  rw [ensures_bind]
  refine ((reconcile_spec h along).and (AllTried.survivesEdits.changes.keeps_reconcile studio tried)).mono
    (fun _ middle hmiddle => ?_) fun _ _ => trivial
  exact (queueWaiting_spec urgency hmiddle.1.order hmiddle.2).mono (fun _ _ => id)
    fun _ => False.elim

theorem openProject_allSettled (h : studio.Coherent answers log) (tried : AllTried log studio)
    (timeline : Timeline Double) (media : MediaLibrary) (path : Option String)
    (time : Option Double)
    (along : ∀ state ∈ reconcileStates (load timeline media path time) studio,
      Steady answers state) :
    Ensures (SessionAction.openProject timeline media path time) studio
      (fun _ next => AllSettled log false next) (fun _ => True) := by
  unfold SessionAction.openProject
  rw [ensures_bind]
  refine ((ensures_reconcileStates (load_spec h timeline media path time) along).and
    (AllTried.survivesEdits.keeps_load timeline media path time studio tried)).mono
    (fun _ middle hmiddle => ?_) fun _ _ => trivial
  exact allSettled_settle hmiddle.1.1 hmiddle.2 hmiddle.1.2 _ _

theorem update_allSettled (h : studio.Coherent answers log) (tried : AllTried log studio)
    (timeline : Timeline Double) (media : Option MediaLibrary)
    (settings : Option (OutputFormat Double))
    (along : ∀ state ∈ reconcileStates (change timeline media settings) studio,
      Steady answers state) :
    Ensures (update timeline media settings) studio
      (fun _ next => AllSettled log (Chronicle.differ studio settings) next) (fun _ => True) := by
  unfold update
  rw [ensures_bind]
  refine ((ensures_reconcileStates (change_spec h timeline media settings) along).and
    (AllTried.survivesEdits.changes.keeps_change timeline media settings studio tried)).mono ?_
    fun _ _ => trivial
  rintro changed middle ⟨⟨⟨rfl, hmiddle⟩, steady⟩, tried⟩
  have last := allSettled_settle hmiddle tried steady .high (Chronicle.differ studio settings)
  rw [ensures_bind] at last ⊢
  refine last.mono (fun _ queued hqueued => ?_) fun _ => id
  rw [ensures_bind]
  exact hqueued.mono (fun _ _ => id) fun _ => id

theorem invalidate_allSettled (h : studio.Coherent answers log) (tried : AllTried log studio)
    (start stop : Double) :
    Ensures (SessionAction.invalidate start stop) studio
      (fun _ next => AllSettled log false next) (fun _ => True) := by
  unfold SessionAction.invalidate
  rw [ensures_bind, WorkshopAction.ensures_onCache]
  refine (CacheAction.invalidateWhere_spec _ _).mono (fun affected store demotes => ?_)
    fun _ _ => trivial
  have order := h.order.recut demotes.1.toRecut
  have kept : AllTried log { studio with store } := tried.recut settled_wasTried demotes.1.chunks
  rw [ensures_bind]
  exact (queueWaiting_spec .high order kept).mono (fun _ _ => id) fun _ => False.elim

/-! ### Jobs -/

/-- All that failed and is not queued is accounted for by how it was tried last. -/
def Accounted (answers : PathExists) (log : Chronicle) (studio : Studio) : Prop :=
  Accounts log (TriedSince answers studio.shared log) studio.scheduler studio.store.cache

/-- The accounts go by what is shown, and by nothing else of a session. -/
theorem triedSince_congr {session session' : Session Double}
    (timeline : session'.timeline = session.timeline) (media : session'.media = session.media) :
    TriedSince answers session' log = TriedSince answers session log := by
  funext chunk hash
  simp only [TriedSince, Session.hashWith, timeline, media]

namespace Accounted

variable {job : RenderJob}

/-- What the chronicle notes of a job is about no chunk that failed. -/
theorem step (h : Accounted answers log studio) (order : InOrder studio.store.cache studio.scheduler)
    (hjob : job ∈ studio.scheduler.active) : Accounted answers (log.step studio job) studio := by
  have noted {starts : Nat → Option Moment} {note : Note}
      (same : ∀ other ∈ studio.scheduler.active, other.kept? ≠ none →
        starts other.id = log.starts other.id) :
      Accounted answers { log with
        starts, notes := Function.update log.notes job.chunk.serial (some note) } studio := by
    refine ⟨fun other hother kept hkept => ?_, fun chunk hchunk failed hash hhash => ?_⟩
    · obtain ⟨moment, hmoment, hash⟩ := h.begun other hother kept hkept
      exact ⟨moment, (same other hother (by simp [hkept])).trans hmoment, hash⟩
    · -- The note is of a chunk that is rendering, and so of none that failed.
      have differ : chunk.serial ≠ job.chunk.serial := fun serial => by
        have := (order.owned job hjob chunk hchunk serial).1
        simp [failed] at this
      refine (h.failed chunk hchunk failed hash hhash).imp_right ?_
      rintro ⟨note, moment, tried, then'⟩
      exact ⟨note, moment, ⟨by simpa [differ] using tried.noted, tried.start, tried.hash,
        tried.changes, tried.calls⟩, then'⟩
  unfold Chronicle.step
  split
  · next due =>
    refine noted fun other hother begun => Function.update_of_ne (fun id => begun ?_) _ _
    obtain rfl := order.jobs.eq_of_id hother hjob id
    simp [Job.kept?, due]
  · exact noted fun _ _ _ => rfl
  · exact h

/-- A job that goes on. -/
theorem putJob (h : Accounted answers log studio) {next : RenderJob}
    (begun : ∀ kept, next.kept? = some kept → ∃ moment, log.starts next.id = some moment ∧
      kept.contentHash = moment.session.hashOf moment.files next.chunk) (agenda : List Nat) :
    Accounted answers log { studio with
      scheduler := { studio.scheduler.putJob next with agenda } } := by
  refine ⟨fun job hjob kept hkept => ?_, h.failed⟩
  obtain ⟨before, hbefore, rfl⟩ := List.mem_map.mp hjob
  split at hkept
  · next same =>
    rw [if_pos same]
    exact begun kept hkept
  · next differ =>
    rw [if_neg differ]
    exact h.begun before hbefore kept hkept

end Accounted

/-- What is noted of a job that goes on. -/
theorem Chronicle.step_notes (log : Chronicle) (studio : Studio) {job : RenderJob}
    (tries : job.phase = .due false ∨ ∃ kept reply, job.phase = .answered kept reply) :
    (log.step studio job).notes job.chunk.serial = some {
        start := (log.step studio job).starts job.id, calls := log.calls, changes := log.changes
        hash := studio.hashOf job.chunk } ∧
      (log.step studio job).calls = log.calls ∧ (log.step studio job).changes = log.changes := by
  rcases tries with due | ⟨kept, reply, answered⟩
  · simp [step, due]
  · simp [step, answered]

/-- The hash that a job reports is the one with which it began, and the chunk of the job is still to
show what the job was to show. -/
theorem Accounted.tries {job : RenderJob} {chunk : Chunk Double} {hash : String}
    (h : Accounted answers (log.step studio job) studio) (steady : Steady answers studio)
    (hjob : job ∈ studio.scheduler.active) (serial : chunk.serial = job.chunk.serial)
    (window : chunk.window = job.chunk.window)
    (report : job.phase = .due false ∧
        hash = studio.shared.hashOf studio.store.disk.files job.chunk ∨
      ∃ kept reply, job.phase = .answered kept reply ∧ hash = kept.contentHash) :
    TriedSince answers studio.shared (log.step studio job) chunk hash := by
  have now : studio.hashOf job.chunk = studio.shared.hashWith answers chunk.window := by
    rw [steady.hashOf, window]
  have began (moment : Moment) : moment.session.hashOf moment.files chunk =
      moment.session.hashOf moment.files job.chunk := by
    rw [Session.hashOf, window]
    rfl
  have tries : job.phase = .due false ∨ ∃ kept reply, job.phase = .answered kept reply :=
    report.imp And.left fun answered => by
      obtain ⟨kept, reply, answered, -⟩ := answered
      exact ⟨kept, reply, answered⟩
  obtain ⟨noted, calls, changes⟩ := log.step_notes studio tries
  have told {moment : Moment} (start : (log.step studio job).starts job.id = some moment)
      (shown : hash = moment.session.hashOf moment.files job.chunk) :
      TriedSince answers studio.shared (log.step studio job) chunk hash := by
    rw [← serial] at noted
    exact .of_now ⟨noted, start, shown.trans (began moment).symm, changes.symm,
      Nat.le_of_eq calls.symm⟩ calls.symm now
  rcases report with ⟨due, rfl⟩ | ⟨kept, reply, answered, rfl⟩
  · -- The render came to an end in the step in which it began.
    have start : (log.step studio job).starts job.id =
        some ⟨studio.shared, studio.store.disk.files, log.changes⟩ := by
      simp [Chronicle.step, due]
    exact told start rfl
  · obtain ⟨moment, start, shown⟩ := h.begun job hjob kept (by simp [Job.kept?, answered])
    exact told start shown

/-- A job that fails accounts for its chunk: this is what it was to show when it failed. -/
theorem records_accounts {job : RenderJob} {session : Session Double} {store : CacheState Double}
    {outcome : RenderOutcome} (h : Accounted answers (log.step studio job) studio)
    (order : InOrder studio.store.cache studio.scheduler) (steady : Steady answers studio)
    (hjob : job ∈ studio.scheduler.active) (cache : store.cache = studio.store.cache)
    (ends : RenderJob.Finishes job studio.store.disk.files studio.shared session outcome)
    (mine : ∀ chunk ∈ store.cache.chunks, chunk.index = job.index →
      chunk.serial = job.chunk.serial) :
    Records (Accounts (log.step studio job) (TriedSince answers studio.shared (log.step studio job)))
      (studio.scheduler.dropJob job.id) store.cache job.index outcome := by
  have begun : ∀ other ∈ (studio.scheduler.dropJob job.id).active, ∀ kept,
      other.kept? = some kept → ∃ moment, (log.step studio job).starts other.id = some moment ∧
        kept.contentHash = moment.session.hashOf moment.files other.chunk :=
    fun other hother => h.begun other (List.mem_of_mem_filter hother)
  refine ⟨fun _ _ after ends => ⟨begun, ?_⟩, fun real after ends' => ⟨begun, ?_⟩⟩
  · rcases ends with rfl | ⟨old, new, hget, concluded, led, rfl⟩
    · exact cache ▸ h.failed
    · intro chunk hchunk failed
      rcases (Cache.mem_put (Cache.mem_of_get hget) concluded.serial).mp hchunk with
        rfl | ⟨hchunk, -⟩
      · exact absurd failed led.1
      · exact h.failed chunk (cache ▸ hchunk) failed
  · rcases ends' with rfl | ⟨old, new, hget, concluded, led, rfl⟩
    · exact cache ▸ h.failed
    · intro chunk hchunk failed hash hhash
      have hold := Cache.mem_of_get hget
      rcases (Cache.mem_put hold concluded.serial).mp hchunk with rfl | ⟨hchunk, -⟩
      · right
        have place : old.index = job.index := by
          have := (cache ▸ order.chunks : store.cache.Orderly).index_of_get hget
          omega
        have serial := mine old hold place
        have window : chunk.window = job.chunk.window := by
          rw [Chunk.window, concluded.start, concluded.stop]
          exact (order.owned job hjob old (cache ▸ hold) serial).2.2
        exact h.tries steady hjob (concluded.serial.trans serial) window
          (ends.tried real hash (led.2 ▸ hhash))
      · exact h.failed chunk (cache ▸ hchunk) failed hash hhash

/-- A job does what is due. -/
theorem runJob_accounted {job : RenderJob} (h : studio.Coherent answers log)
    (tried : Accounted answers log studio) (steady : Steady answers studio)
    (hjob : job ∈ studio.scheduler.active) :
    Ensures (WorkshopAction.runJob ChunkRender.worker job) studio
      (fun _ next => Accounted answers (log.step studio job) next)
      (fun next => Accounted answers (log.step studio job) next) := by
  have noted := tried.step h.order hjob
  refine runJob_cases h hjob noted (fun due => ?_)
    (fun kept store session due hcache hash calls composed => ?_)
    fun outcome store session hcache ends => ?_
  · exact noted.putJob (fun kept hkept => absurd hkept (by simp [Job.kept?])) studio.scheduler.agenda
  · obtain ⟨timeline, media, -⟩ : session.timeline = studio.shared.timeline ∧
        session.media = studio.shared.media ∧ session.settings = studio.shared.settings :=
      calls.project
    have started : (log.step studio job).starts job.id =
        some ⟨studio.shared, studio.store.disk.files, log.changes⟩ := by
      simp [Chronicle.step, due]
    let next : RenderJob := { job with phase := .waiting kept }
    have begun : ∀ kept', next.kept? = some kept' → ∃ moment,
        (log.step studio job).starts next.id = some moment ∧
          kept'.contentHash = moment.session.hashOf moment.files next.chunk := fun kept' hkept => by
      obtain rfl : kept = kept' := Option.some.inj hkept
      exact ⟨_, started, hash⟩
    have waiting := noted.putJob begun studio.scheduler.agenda
    unfold Accounted
    rw [hcache, triedSince_congr timeline media]
    exact waiting
  · obtain ⟨timeline, media, -⟩ := ends.project
    have free : ∀ other ∈ (studio.scheduler.dropJob job.id).active, other.index ≠ job.index :=
      fun other => h.order.jobs.index_ne_of_dropJob hjob
    have sub := studio.scheduler.dropJob_sublist job.id
    let shop : Studio := { studio with store, shared := session }
    have left : Workshop.Under session
        (Accounts (log.step studio job)
          (TriedSince answers studio.shared (log.step studio job)))
        { shop with scheduler := shop.scheduler.dropJob job.id } := by
      refine ⟨rfl, hcache ▸ h.order.release sub, ?_⟩
      rw [hcache]
      exact ⟨fun other hother => noted.begun other (sub.subset hother), noted.failed⟩
    refine Ensures.mono (Accounts.admits.complete (fun _ _ => rfl) left free
      fun mine => records_accounts noted h.order steady hjob hcache ends mine)
      (fun _ next hnext => ?_) fun next hnext => ?_
    -- A worker changes neither the timeline nor the media, so what is accounted for stays so.
    all_goals
      have same := hnext.holds
      rw [← triedSince_congr timeline media, ← hnext.shared] at same
      exact same

/-- What is due first is done. -/
theorem runNext_accounted (h : studio.Coherent answers log)
    (tried : Accounted answers log studio) (steady : Steady answers studio) :
    Ensures (SessionEvent.action .work) studio
      (fun _ next => Accounted answers (log.next .work studio) next)
      (fun next => Accounted answers (log.next .work studio) next) := by
  unfold SessionEvent.action WorkshopAction.runNext Chronicle.next
  dsimp only
  rw [ensures_bind, WorkshopAction.ensures_scheduler]
  cases hagenda : studio.scheduler.agenda with
  | nil => exact tried
  | cons id rest =>
    dsimp only [List.head?_cons, Option.bind_some]
    rw [ensures_bind, WorkshopAction.ensures_setScheduler]
    have waiting : Accounted answers log
        { studio with scheduler := { studio.scheduler with agenda := rest } } :=
      ⟨tried.begun, tried.failed⟩
    cases hjob : studio.scheduler.job? id with
    | none => exact waiting
    | some job =>
      exact runJob_accounted (h.redate rest) waiting steady (List.mem_of_find?_eq_some hjob)

/-! ### All runs -/

/-- Calls that come back, and nothing that cancels. -/
def editsOnly (studio : Studio) (event : SessionEvent) : Bool :=
  match event with
  | .openProject .. | .update .. | .invalidate .. => succeeds event.action studio
  | .answer .. | .hurry .. | .work => true
  | _ => false

/-- A call that came back has queued all that failed to show something else than it is to show now. -/
theorem AllSettled.accounted {retry : Bool} {next : Studio} {after : Chronicle}
    (h : AllSettled log retry next) (steady : Steady answers next)
    (notes : after.notes = log.notes) (starts : after.starts = log.starts)
    (calls : after.calls = log.calls + 1) (changes : retry = false → after.changes = log.changes) :
    Accounted answers after next := by
  refine ⟨fun job hjob kept hkept => ?_, fun chunk hchunk failed hash hhash => ?_⟩
  · rw [starts]
    exact h.begun job hjob kept hkept
  · refine (h.failed chunk hchunk failed hash hhash).imp_right ?_
    rintro ⟨⟨note, moment, tried⟩, once, now⟩
    have before := tried.calls
    refine ⟨note, moment, ⟨notes ▸ tried.noted, tried.start, tried.hash,
      tried.changes.trans (changes once).symm, by omega⟩, fun same => ?_, fun _ => ?_⟩
    · omega
    · rw [now, steady.hashOf]

/-- Every event keeps account of what failed. -/
theorem Accounted.next (tried : Accounted answers log studio) (h : studio.Coherent answers log)
    (steady : Steady answers studio) {event : SessionEvent} (edits : editsOnly studio event)
    (along : ∀ state ∈ event.passes studio, Steady answers state)
    (steady' : Steady answers (leaves event.action studio)) :
    Accounted answers (log.next event studio) (leaves event.action studio) := by
  have wasTried : AllTried log studio :=
    tried.mono fun _ _ _ ⟨note, moment, tried, _⟩ => ⟨note, moment, tried⟩
  cases event with
  | openProject timeline media path time =>
    have spec : Ensures (SessionEvent.openProject timeline media path time).action studio
        (fun _ next => AllSettled log false next) (fun _ => True) :=
      openProject_allSettled h wasTried timeline media path time along
    have returned : succeeds (SessionEvent.openProject timeline media path time).action studio :=
      edits
    have settled := (spec.ends.resolve_right (by simp [returned])).2
    refine settled.accounted steady' ?_ ?_ ?_ fun _ => ?_
    all_goals simp [Chronicle.next, returned]
  | update timeline media settings =>
    have spec : Ensures (SessionEvent.update timeline media settings).action studio
        (fun _ next => AllSettled log (Chronicle.differ studio settings) next) (fun _ => True) :=
      (update_allSettled h wasTried timeline media settings along).dropped
    have returned : succeeds (SessionEvent.update timeline media settings).action studio := edits
    have settled := (spec.ends.resolve_right (by simp [returned])).2
    refine settled.accounted steady' ?_ ?_ ?_ fun once => ?_
    · simp [Chronicle.next, returned]
    · simp [Chronicle.next, returned]
    · simp [Chronicle.next, returned]
    · simp [Chronicle.next, returned, once]
  | invalidate start stop =>
    have spec : Ensures (SessionEvent.invalidate start stop).action studio
        (fun _ next => AllSettled log false next) (fun _ => True) :=
      (invalidate_allSettled h wasTried start stop).dropped
    have returned : succeeds (SessionEvent.invalidate start stop).action studio := edits
    have settled := (spec.ends.resolve_right (by simp [returned])).2
    refine settled.accounted steady' ?_ ?_ ?_ fun _ => ?_
    all_goals simp [Chronicle.next, returned]
  | answer id reply =>
    rw [SessionEvent.answer_eq]
    refine (WorkshopAction.deliver_cases id reply tried fun job hjob kept agenda hphase => ?_).leaves
    refine tried.putJob (fun kept' hkept => ?_) agenda
    exact tried.begun job hjob kept' (by simpa [Job.kept?, hphase] using hkept)
  | hurry place => exact ⟨tried.begun, tried.failed⟩
  | work => exact (runNext_accounted h tried steady).leaves
  | prioritize t radius => exact absurd edits (by simp [editsOnly])
  | cancel index => exact absurd edits (by simp [editsOnly])
  | stopAll => exact absurd edits (by simp [editsOnly])
  | finishCancel => exact absurd edits (by simp [editsOnly])
  | wipe => exact absurd edits (by simp [editsOnly])

section Run

variable {first : Studio}

/-- In every state that a session reaches by calls that come back, what failed and did not break
down is queued or accounted for. -/
theorem Run.accounted (new : first.IsNew)
    (run : Run answers (fun studio event => editsOnly studio event) first studio log) :
    Accounted answers log studio := by
  induction run with
  | start =>
    refine ⟨fun job hjob => ?_, fun chunk hchunk => ?_⟩
    · simp [new.active] at hjob
    · simp [new.chunks] at hchunk
  | step event run edits along steady ih =>
    obtain ⟨coherent, steady'⟩ := run.coherent new
    exact ih.next coherent steady' edits along steady

/-- Nothing is queued, and a chunk failed: it did so on what it is to show now, and for the output
that is wanted now, exactly if the output was not changed while it was rendered, and either a call
came back since or it was to show the same when it failed as when its render began. -/
theorem Run.failed_shows_current_iff (new : first.IsNew)
    (run : Run answers (fun studio event => editsOnly studio event) first studio log)
    (idle : studio.scheduler.queue = []) {chunk : Chunk Double}
    (hchunk : chunk ∈ studio.store.cache.chunks) (failed : chunk.status = .error) {hash : String}
    (reported : chunk.failedHash = some hash) :
    ∃ note moment, log.notes chunk.serial = some note ∧ note.start = some moment ∧
      hash = moment.session.hashOf moment.files chunk ∧
      ((hash = studio.hashOf chunk ∧ moment.changes = log.changes) ↔
        (moment.changes = note.changes ∧ (note.calls < log.calls ∨ hash = note.hash))) := by
  obtain ⟨-, steady⟩ := run.coherent new
  have account := ((run.accounted new).failed chunk hchunk failed hash reported).resolve_left
    (by simp [idle])
  obtain ⟨note, moment, tried, meanwhile, since⟩ := account
  refine ⟨note, moment, tried.noted, tried.start, tried.hash, ?_⟩
  rw [tried.changes, steady.hashOf, and_comm]
  refine and_congr_right fun _ => ?_
  rcases Nat.lt_or_eq_of_le tried.calls with called | none
  · exact iff_of_true (since called) (.inl called)
  · rw [or_iff_right (by omega), meanwhile none]

end Run

/-! ### A clip that cannot be rendered -/

namespace OneClip

/-- The clip is opened, its chunk begins to be rendered, and perhaps the clip is edited before the
encoder fails. -/
def failing (edits : List SessionEvent) : List SessionEvent :=
  [.openProject (timeline [clip]) media none none, .work] ++ edits ++ [
    .answer 0 { result := .ok { success := false, exitCode := some 1, error := some "failed" } },
    .work]

/-- Nothing is left to do, and a chunk failed on what it is to show or on something else. -/
def hasFailed (outdated : Bool) (studio : Studio) (_ : Chronicle) : Bool :=
  studio.scheduler.queue.isEmpty && studio.scheduler.active.isEmpty &&
    studio.store.cache.chunks.any fun chunk => chunk.status = .error &&
      chunk.failedHash.any fun hash => (hash ≠ studio.hashOf chunk) == outdated

end OneClip

/-- A clip that was not edited fails on what it is to show. -/
theorem failed_clip_is_current :
    ∃ studio log chunk hash note moment,
      Run (fun _ => false) (fun studio event => editsOnly studio event) OneClip.opened studio log ∧
      studio.scheduler.queue = [] ∧ chunk ∈ studio.store.cache.chunks ∧ chunk.status = .error ∧
      chunk.failedHash = some hash ∧ hash = studio.hashOf chunk ∧
      log.notes chunk.serial = some note ∧ note.start = some moment ∧
      ((hash = studio.hashOf chunk ∧ moment.changes = log.changes) ↔
        (moment.changes = note.changes ∧ (note.calls < log.calls ∨ hash = note.hash))) := by
  have reached : ∃ studio log,
      Run (fun _ => false) (fun studio event => editsOnly studio event) OneClip.opened studio log ∧
      OneClip.hasFailed false studio log = true :=
    Run.exists_of_follow (OneClip.failing []) (by decide +kernel)
  obtain ⟨studio, log, run, failed⟩ := reached
  simp only [OneClip.hasFailed, Bool.and_eq_true, List.isEmpty_iff, List.any_eq_true,
    decide_eq_true_eq, Option.any_eq_true, beq_false, Bool.not_eq_true', decide_eq_false_iff_not,
    not_not] at failed
  obtain ⟨⟨queue, -⟩, chunk, hchunk, failed, hash, reported, current⟩ := failed
  obtain ⟨note, moment, noted, start, -, iff⟩ :=
    run.failed_shows_current_iff OneClip.opened_isNew queue hchunk failed reported
  exact ⟨studio, log, chunk, hash, note, moment, run, queue, hchunk, failed, reported, current,
    noted, start, iff⟩

/-- A clip that was edited while it was rendered, and then failed, is not tried again. -/
theorem exists_failed_outdated :
    ∃ studio log chunk hash,
      Run (fun _ => false) (fun studio event => editsOnly studio event) OneClip.opened studio log ∧
      studio.scheduler.queue = [] ∧ studio.scheduler.active = [] ∧
      chunk ∈ studio.store.cache.chunks ∧ chunk.status = .error ∧
      chunk.failedHash = some hash ∧ hash ≠ studio.hashOf chunk := by
  have reached : ∃ studio log,
      Run (fun _ => false) (fun studio event => editsOnly studio event) OneClip.opened studio log ∧
      OneClip.hasFailed true studio log = true :=
    Run.exists_of_follow (OneClip.failing
      [.update (OneClip.timeline [OneClip.movedClip]) none none]) (by decide +kernel)
  obtain ⟨studio, log, run, failed⟩ := reached
  simp only [OneClip.hasFailed, Bool.and_eq_true, List.isEmpty_iff, List.any_eq_true,
    decide_eq_true_eq, Option.any_eq_true, beq_true] at failed
  obtain ⟨⟨queue, active⟩, chunk, hchunk, failed, hash, reported, outdated⟩ := failed
  exact ⟨studio, log, chunk, hash, run, queue, active, hchunk, failed, reported, outdated⟩

end Montage
