import Montage.Proofs.Preview.Retry
import Montage.Proofs.Runs
import Montage.Proofs.Schedule.Attendance

/-!
# No chunk is forgotten

Every call that shows or invalidates something ends by queueing all chunks that wait, and every job
that ends leaves its place attended to. So when nothing is queued and no job is left, every chunk is
valid or has failed. What can come in between is a failure: a call that fails has demoted chunks
perhaps and has queued none, and a job whose end cannot be recorded leaves its place to nobody. The
next call that comes back makes up for it.

## Main definitions

* `Watch` — a session, and whether something failed since a call last came back
* `Watch.Reaches` — the sessions that are reached when nothing is cancelled

## Main results

* `queueWaiting_attends` — when the waiting chunks were queued, no chunk is forgotten
* `Watch.Reaches.none_forgotten` — with nothing left to do, every chunk is valid or has failed
* `exists_forgotten` — an edit that fails leaves a chunk stale, and nothing queued
-/

namespace Montage

open SessionAction

variable {studio : Studio} {job : RenderJob}

/-! ### Sessions in which nothing is cancelled -/

/-- A job that nobody told to stop. -/
def Job.GoesOn (job : RenderJob) : Prop :=
  match job.phase with
  | .due stop => stop = false
  | .waiting _ => True
  | .answered _ reply => reply.IsOwn
  | .stopping _ | .ended => False

/-- A session in order whose jobs go on, and in which no chunk is forgotten unless something was
lost. -/
structure Studio.Watched (lost : Bool) (studio : Studio) : Prop where
  order : InOrder studio.store.cache studio.scheduler
  jobs : ∀ job ∈ studio.scheduler.active, job.GoesOn
  attends : lost = false → Attends Nowhere studio.scheduler studio.store.cache

/-- A new job is not told to stop. -/
theorem Job.GoesOn.admits :
    Admits fun (scheduler : Scheduler Double ChunkRender EncoderReply) (_ : Cache Double) =>
      ∀ job ∈ scheduler.active, job.GoesOn where
  idle _ _ _ h := h
  skip _ _ _ _ _ _ h _ := h
  enqueue _ _ _ h := h
  begin _ _ _ _ _ _ _ _ h _ _ := by
    intro job hjob
    rcases List.mem_append.mp hjob with hjob | hjob
    · exact h job hjob
    · obtain rfl := List.mem_singleton.mp hjob
      rfl

namespace Studio.Watched

variable {lost : Bool}

theorem admits (lost : Bool) :
    Admits fun (scheduler : Scheduler Double ChunkRender EncoderReply) (cache : Cache Double) =>
      (∀ job ∈ scheduler.active, job.GoesOn) ∧ (lost = false → Attends Nowhere scheduler cache) :=
  Job.GoesOn.admits.and {
    idle := fun s c b h known => Attends.admits.idle s c b (h known)
    skip := fun entry rest s c order queue h valid known =>
      Attends.admits.skip entry rest s c order queue (h known) valid
    begin := fun entry rest s c chunk order queue room h hget waits known =>
      Attends.admits.begin entry rest s c chunk order queue room (h known) hget waits
    enqueue := fun entry s c h known => Attends.admits.enqueue entry s c (h known) }

theorem keeps_queue (index : Int) (urgency : Urgency) :
    Keeps (Studio.Watched lost) (WorkshopAction.queue index urgency) := by
  intro studio h
  exact ((admits lost).queue index urgency studio h.order ⟨h.jobs, h.attends⟩).mono
    (fun _ _ hnext => ⟨hnext.1, hnext.2.1.1, hnext.2.1.2⟩) fun _ => False.elim

theorem keeps_setUrgency (index : Int) (urgency : Urgency) :
    Keeps (Studio.Watched lost) (WorkshopAction.setUrgency index urgency) := by
  intro studio h
  refine ((admits lost).setUrgency index urgency (fun scheduler cache h => ?_) studio h.order
    ⟨h.jobs, h.attends⟩).mono (fun _ _ hnext => ⟨hnext.1, hnext.2.1.1, hnext.2.1.2⟩)
    fun _ => False.elim
  exact ⟨h.1, fun known => (h.2 known).requeue index urgency⟩

/-- Edits may leave chunks to nobody, but they keep the order. -/
theorem survivesEdits : SurvivesEdits (Studio.Watched true) where
  session _ _ h := ⟨h.order, h.jobs, nofun⟩
  recut studio _ settings recut h := by
    have changed : InOrder { studio.store.cache with settings } studio.scheduler :=
      h.order.of_cache rfl rfl
    exact ⟨changed.recut recut, h.jobs, nofun⟩

theorem lose (h : studio.Watched lost) : studio.Watched true := ⟨h.order, h.jobs, nofun⟩

theorem of_same {shop : Studio} (h : studio.Watched lost)
    (scheduler : shop.scheduler = studio.scheduler)
    (cache : shop.store.cache = studio.store.cache) : shop.Watched lost := by
  obtain ⟨order, jobs, attends⟩ := h
  rw [← scheduler, ← cache] at order attends
  rw [← scheduler] at jobs
  exact ⟨order, jobs, attends⟩

end Studio.Watched

/-! ### Queueing all that waits -/

section Queue

variable {holds : Scheduler Double ChunkRender EncoderReply → Cache Double → Prop}

/-- A look at the next chunk, which is queued unless it is attended to. -/
theorem visit_queue_attends (admits : Admits holds) (retry : Bool) (urgency : Urgency) {count : Nat}
    (order : InOrder studio.store.cache studio.scheduler)
    (h : holds studio.scheduler studio.store.cache)
    (attends : Attends (count ≤ ·) studio.scheduler studio.store.cache) :
    Ensures (visit (fun chunk => do
        if ← isPending retry chunk then
          let _ ← WorkshopAction.queue chunk.index urgency) count) studio
      (fun _ next => InOrder next.store.cache next.scheduler ∧
        (holds next.scheduler next.store.cache ∧
          next.store.cache.chunks.length = studio.store.cache.chunks.length) ∧
        Attends (count + 1 ≤ ·) next.scheduler next.store.cache)
      (fun _ => False) := by
  -- The next place is attended to, and the others are as they were.
  have step (here : ∀ chunk ∈ studio.store.cache.chunks, chunk.index = count →
      Attended studio.scheduler chunk) :
      Attends (count + 1 ≤ ·) studio.scheduler studio.store.cache := by
    intro chunk hchunk before
    by_cases place : chunk.index = count
    · exact here chunk hchunk place
    · exact attends chunk hchunk (by omega)
  unfold visit
  rw [ensures_bind, ensures_cache]
  split
  · next chunk hplace =>
    have hchunk := List.mem_of_getElem? hplace
    have place := order.chunks.placed count chunk hplace
    rw [ensures_bind]
    refine (isPending_spec retry chunk).mono ?_ fun _ => False.elim
    rintro pending state ⟨rfl, settled⟩
    split
    · rw [ensures_bind]
      have waiting : Attends (fun other => count + 1 ≤ other ∨ (other : Int) = chunk.index)
          state.scheduler state.store.cache :=
        attends.mono fun other rest => by omega
      have same := (admits.and (Admits.length state.store.cache.chunks.length)).queue
        chunk.index urgency state order ⟨h, rfl⟩
      refine ((waiting.queue urgency order).and same).mono ?_ fun _ hnext => hnext.1
      rintro _ next ⟨⟨order, attends, -⟩, -, same, -⟩
      exact ⟨order, same, attends⟩
    · next idle =>
      -- What is not pending is valid, has failed or has a job.
      refine ⟨order, ⟨h, rfl⟩, step fun other hother place' => ?_⟩
      obtain rfl := order.chunks.eq_of_index hother hchunk (place'.trans place.symm)
      rcases settled (by simpa using idle) with valid | ⟨failed, -⟩ | ⟨-, held⟩
      · exact .inl valid
      · exact .inr (.inl failed)
      · obtain ⟨job, hjob, same⟩ := Scheduler.hasJob_iff.mp held
        exact .inr (.inr (.inr ⟨job, hjob, Int.ofNat.inj same⟩))
  · next beyond =>
    -- No chunk stands there.
    refine ⟨order, ⟨h, rfl⟩, step fun chunk hchunk place => ?_⟩
    have := order.chunks.getElem?_index hchunk
    rw [place, beyond] at this
    exact absurd this (by simp)

/-- After all chunks were looked at, none is forgotten. -/
theorem queueWaiting_attends (admits : Admits holds) (urgency : Urgency) (retry : Bool)
    (order : InOrder studio.store.cache studio.scheduler)
    (h : holds studio.scheduler studio.store.cache) :
    Ensures (queueWaiting urgency retry) studio
      (fun _ next => InOrder next.store.cache next.scheduler ∧
        holds next.scheduler next.store.cache ∧
        Attends Nowhere next.scheduler next.store.cache)
      (fun _ => False) := by
  let length := studio.store.cache.chunks.length
  let looked (count : Nat) (state : Studio) : Prop :=
    InOrder state.store.cache state.scheduler ∧
      (holds state.scheduler state.store.cache ∧ state.store.cache.chunks.length = length) ∧
      Attends (count ≤ ·) state.scheduler state.store.cache
  have first : looked 0 studio :=
    ⟨order, ⟨h, rfl⟩, fun chunk _ before => absurd (Nat.zero_le _) before⟩
  have round (count : Nat) (state : Studio) (_ : True) (hstate : looked count state) :
      Ensures (visit (fun chunk => do
        if ← isPending retry chunk then
          let _ ← WorkshopAction.queue chunk.index urgency) count) state
        (fun _ next => looked (count + 1) next) (fun _ => False) := by
    obtain ⟨order, ⟨h, same⟩, attends⟩ := hstate
    refine (visit_queue_attends admits retry urgency order h attends).mono
      (fun _ next hnext => ?_) fun _ => id
    exact ⟨hnext.1, ⟨hnext.2.1.1, hnext.2.1.2.trans same⟩, hnext.2.2⟩
  unfold queueWaiting forChunks
  rw [ensures_bind, ensures_cache, List.range_eq_range']
  refine (ensures_forM_range' round length 0 studio (fun _ _ => trivial) first).mono ?_ fun _ => id
  rintro - next ⟨⟨order, ⟨h, same⟩, attends⟩, -⟩
  -- All places of chunks lie below their number, which queueing does not change.
  refine ⟨order, h, fun chunk hchunk _ => attends chunk hchunk fun beyond => ?_⟩
  have place := (List.getElem?_eq_some_iff.mp (order.chunks.getElem?_index hchunk)).1
  omega

end Queue

/-- When the waiting chunks were queued, none is forgotten. -/
theorem Studio.Watched.requeues : Requeues (Studio.Watched true) (Studio.Watched false) where
  edits := survivesEdits
  queues _ urgency retry h :=
    (queueWaiting_attends Job.GoesOn.admits urgency retry h.order h.jobs).mono
      (fun _ _ hnext => ⟨hnext.1, hnext.2.1, fun _ => hnext.2.2⟩) fun _ => id

/-! ### Steps of jobs -/

/-- A worker that goes on by itself reports no cancellation. -/
theorem report?_cancels_nothing (goesOn : job.GoesOn) :
    Ensures (WorkshopAction.report? ChunkRender.worker job) studio
      (fun outcome _ => ∀ reported, outcome = some reported → reported.cancelled = false)
      (fun _ => False) := by
  unfold Job.GoesOn at goesOn
  unfold WorkshopAction.report?
  split
  · next due => simp [due] at goesOn
  · next due =>
    rw [ensures_bind]
    apply Ensures.tryCatch
    rw [WorkshopAction.ensures_onWorker]
    refine (ChunkRender.begin_spec job.chunk studio.store studio.shared).mono ?_ ?_
    · rintro (kept | outcome) next ⟨-, hstep⟩
      · exact fun reported same => absurd same (by simp)
      · rintro reported ⟨⟩
        exact hstep.1.2.1
    · rintro next - failure reported ⟨⟩
      rfl
  · next kept reply answered =>
    have own : reply.IsOwn := by simpa [answered] using goesOn
    rw [ensures_bind]
    apply Ensures.tryCatch
    rw [WorkshopAction.ensures_onWorker]
    refine (ChunkRender.resume_cancels_nothing own job.chunk kept _).mono ?_ ?_
    · rintro outcome next real reported ⟨⟩
      exact real
    · rintro next - failure reported ⟨⟩
      rfl
  · next kept stopping => simp [stopping] at goesOn
  · exact fun reported same => absurd same (by simp)
  · exact fun reported same => absurd same (by simp)

variable {lost : Bool}

/-- A job goes on, and its place is attended to as before. -/
theorem Studio.Watched.putJob (h : studio.Watched lost) (hjob : job ∈ studio.scheduler.active)
    {after : RenderJob} (id : after.id = job.id) (chunk : after.chunk = job.chunk)
    (goesOn : after.GoesOn) (agenda : List Nat) :
    Studio.Watched lost { studio with
      scheduler := { studio.scheduler.putJob after with agenda } } := by
  refine ⟨(h.order.putJob hjob id chunk).of_eq rfl rfl rfl, fun other hother => ?_, fun known => ?_⟩
  · obtain ⟨before, hbefore, rfl⟩ := List.mem_map.mp hother
    split
    · exact goesOn
    · exact h.jobs before hbefore
  · refine (h.attends known).of_active rfl fun other hother _ => ?_
    refine ⟨_, List.mem_map_of_mem hother, ?_⟩
    split
    · next same =>
      obtain rfl := h.order.jobs.eq_of_id hother hjob (same.trans id)
      exact congrArg Chunk.index chunk
    · rfl

/-- The end of a job leaves no chunk forgotten, unless it cannot be recorded. -/
theorem Studio.Watched.complete (h : studio.Watched lost) (hjob : job ∈ studio.scheduler.active)
    {outcome : RenderOutcome} (real : outcome.cancelled = false) :
    Ensures (WorkshopAction.complete ChunkRender.worker job outcome) studio
      (fun _ next => Studio.Watched lost next) (fun next => Studio.Watched true next) := by
  have left : Workshop.Under studio.shared
      (fun scheduler _ => ∀ job ∈ scheduler.active, job.GoesOn)
      { studio with scheduler := studio.scheduler.dropJob job.id } :=
    ⟨rfl, h.order.release (studio.scheduler.dropJob_sublist job.id),
      fun other hother => h.jobs other ((studio.scheduler.dropJob_sublist job.id).subset hother)⟩
  have ends : Ensures (WorkshopAction.complete ChunkRender.worker job outcome) studio
      (fun _ next => Studio.Watched true next) (fun next => Studio.Watched true next) := by
    refine (Job.GoesOn.admits.ending (fun _ => True) (fun _ _ _ => trivial) trivial left
      (fun other => h.order.jobs.index_ne_of_dropJob hjob)
      fun _ => ⟨fun _ _ _ _ => left.holds, fun _ _ _ => left.holds⟩).mono ?_ ?_
    · rintro - next ⟨_, -, hnext⟩
      exact ⟨hnext.order, hnext.holds, nofun⟩
    · rintro next ⟨_, -, hnext⟩
      exact ⟨hnext.order, hnext.holds, nofun⟩
  cases lost with
  | true => exact ends
  | false =>
    -- Only while nothing is lost is there a claim about the chunks.
    have attends : Ensures (WorkshopAction.complete ChunkRender.worker job outcome) studio
        (fun _ next => Attends Nowhere next.scheduler next.store.cache) (fun _ => True) :=
      (h.attends rfl).complete real h.order hjob
    exact (ends.and attends).mono
      (fun _ _ hnext => ⟨hnext.1.order, hnext.1.jobs, fun _ => hnext.2⟩) fun _ hnext => hnext.1

/-- The step of a job leaves no chunk forgotten, unless its end cannot be recorded. -/
theorem Studio.Watched.runJob (h : studio.Watched lost) (hjob : job ∈ studio.scheduler.active) :
    let failed := !succeeds (WorkshopAction.attempt ChunkRender.worker job) studio
    Ensures (WorkshopAction.runJob ChunkRender.worker job) studio
      (fun _ next => Studio.Watched (lost || failed) next)
      (fun next => Studio.Watched (lost || failed) next) := by
  have reports := (WorkshopAction.report?_spec ChunkRender.worker_leavesCache job studio).and
    (report?_cancels_nothing (h.jobs job hjob))
  obtain ⟨outcome, middle, hrun, ⟨hcache, hstep⟩, real⟩ :=
    (reports.mono (fun _ _ => id) fun _ hnext => hnext.1).exists_ok
  dsimp only
  unfold WorkshopAction.attempt
  rw [WorkshopAction.runJob_eq, ensures_bind, ensures_of_ok hrun, succeeds_bind_of_ok hrun]
  cases outcome with
  | none =>
    -- A step that is not the last of its job cannot fail.
    have same : (lost || !succeeds (pure () : SessionAction Double Unit) middle) = lost :=
      Bool.or_false lost
    dsimp only
    rw [same]
    rcases hstep with ⟨scheduler, -⟩ | ⟨after, advances, scheduler⟩
    · exact h.of_same scheduler hcache
    · have goesOn : after.GoesOn := by
        cases advances with
        | ended due => exact absurd (h.jobs job hjob) (by simp [Job.GoesOn, due])
        | waits due kept => trivial
      exact (h.putJob hjob advances.same.1 advances.same.2 goesOn studio.scheduler.agenda).of_same
        scheduler hcache
  | some outcome =>
    have resting : Studio.Watched lost middle := h.of_same hstep.1 hcache
    have ends := (resting.complete (hstep.1 ▸ hjob) (real outcome rfl)).known
    apply Ensures.tryCatch
    refine ends.mono ?_ ?_
    · rintro - next ⟨returned, hnext⟩
      dsimp only
      rw [returned, Bool.not_true, Bool.or_false]
      exact hnext
    · rintro next ⟨failed, hnext⟩ -
      dsimp only
      rw [failed, Bool.not_false, Bool.or_true]
      exact hnext

/-- What is due first is done, and no chunk is forgotten unless that cannot be recorded. -/
theorem Studio.Watched.runNext (h : studio.Watched lost) :
    let failed := !succeeds (WorkshopAction.attemptNext ChunkRender.worker) studio
    Ensures (WorkshopAction.runNext ChunkRender.worker) studio
      (fun _ next => Studio.Watched (lost || failed) next)
      (fun next => Studio.Watched (lost || failed) next) := by
  dsimp only
  have reads : WorkshopAction.scheduler studio = .ok studio.scheduler studio := rfl
  unfold WorkshopAction.runNext WorkshopAction.attemptNext
  rw [ensures_bind, ensures_of_ok reads, succeeds_bind_of_ok reads]
  cases hagenda : studio.scheduler.agenda with
  | nil =>
    have nothing : (lost || !succeeds (pure () : SessionAction Double Unit) studio) = lost :=
      Bool.or_false lost
    dsimp only
    rw [nothing]
    exact h
  | cons id rest =>
    have redated : WorkshopAction.setScheduler { studio.scheduler with agenda := rest } studio =
      .ok () { studio with scheduler := { studio.scheduler with agenda := rest } } := rfl
    have waiting : Studio.Watched lost
        { studio with scheduler := { studio.scheduler with agenda := rest } } :=
      ⟨h.order.of_eq rfl rfl rfl, h.jobs, h.attends⟩
    dsimp only
    rw [ensures_bind, ensures_of_ok redated, succeeds_bind_of_ok redated]
    cases hjob : studio.scheduler.job? id with
    | none =>
      have nothing : (lost || !succeeds (pure () : SessionAction Double Unit)
          { studio with scheduler := { studio.scheduler with agenda := rest } }) = lost :=
        Bool.or_false lost
      dsimp only
      rw [nothing]
      exact waiting
    | some job => exact waiting.runJob (List.mem_of_find?_eq_some hjob)

/-! ### All runs -/

/-- A call that shows or invalidates something, or what is no call at all; nothing is cancelled. -/
def SessionEvent.GoesOn : SessionEvent → Prop
  | .openProject .. | .update .. | .invalidate .. | .prioritize .. | .hurry _ | .work => True
  | .answer _ reply => reply.IsOwn
  | .cancel _ | .stopAll | .finishCancel | .wipe => False

instance : DecidablePred SessionEvent.GoesOn := fun event =>
  match event with
  | .openProject .. | .update .. | .invalidate .. | .prioritize .. | .hurry _ | .work =>
    isTrue trivial
  | .answer _ reply => inferInstanceAs (Decidable reply.IsOwn)
  | .cancel _ | .stopAll | .finishCancel | .wipe => isFalse id

/-- Whether something is lost after an event: a call makes up for it if it comes back, and loses
something if it fails; a job loses something if its end cannot be recorded. -/
def SessionEvent.loses (event : SessionEvent) (studio : Studio) (lost : Bool) : Bool :=
  match event with
  | .openProject .. | .update .. | .invalidate .. => !succeeds event.action studio
  | .work => lost || !succeeds (WorkshopAction.attemptNext ChunkRender.worker) studio
  | _ => lost

/-- A session, and whether something failed in it since a call last came back. -/
abbrev Watch := Annals Studio Bool

namespace Watch

/-- What an event leads to. -/
abbrev next (watch : Watch) (event : SessionEvent) : Watch :=
  Annals.next (fun event => leaves event.action) SessionEvent.loses watch event

/-- Events in any order that cancel nothing lead from one session to another. -/
def Reaches : Watch → Watch → Prop := Leads next SessionEvent.GoesOn

end Watch

/-- Every event keeps a session in order, and says whether a chunk may be forgotten. -/
theorem Studio.Watched.next (h : studio.Watched lost) (event : SessionEvent)
    (goesOn : event.GoesOn) :
    Studio.Watched (event.loses studio lost) (leaves event.action studio) := by
  -- A call is known to have come back or to have failed.
  have called {action : SessionAction Double Unit}
      (spec : Ensures action studio (fun _ next => Studio.Watched false next)
        (fun next => Studio.Watched true next)) :
      Studio.Watched (!succeeds action studio) (leaves action studio) := by
    rcases spec.ends with ⟨returned, hnext⟩ | ⟨failed, hnext⟩
    · rwa [returned]
    · rwa [failed]
  cases event with
  | openProject timeline media path time =>
    exact called (Watched.requeues.openProject h.lose timeline media path time)
  | update timeline media settings =>
    exact called (Watched.requeues.update h.lose timeline media settings).dropped
  | invalidate start stop => exact called (Watched.requeues.invalidate h.lose start stop).dropped
  | prioritize t radius =>
    exact (keeps_prioritizeNear Watched.keeps_queue Watched.keeps_setUrgency t radius studio
      h).dropped.leaves
  | answer id reply =>
    rw [SessionEvent.answer_eq]
    refine (WorkshopAction.deliver_cases id reply h fun job hjob kept agenda _ => ?_).leaves
    let answered : RenderJob := { job with phase := .answered kept reply }
    have same : answered.id = job.id ∧ answered.chunk = job.chunk := ⟨rfl, rfl⟩
    exact h.putJob hjob same.1 same.2 goesOn agenda
  | hurry place => exact ⟨h.order.of_eq rfl rfl rfl, h.jobs, h.attends⟩
  | work => exact h.runNext.leaves
  | cancel index => exact goesOn.elim
  | stopAll => exact goesOn.elim
  | finishCancel => exact goesOn.elim
  | wipe => exact goesOn.elim

theorem Watch.Reaches.watched {first watch : Watch} (reached : Watch.Reaches first watch)
    (h : first.state.Watched first.account) : watch.state.Watched watch.account :=
  Leads.keeps (fun watch : Watch => watch.state.Watched watch.account) reached h
    fun _ event _ goesOn h => h.next event goesOn

/-- Nothing is cancelled, and nothing failed since a call last came back. Then, when nothing is queued
and no job is left, every chunk is valid or has failed. -/
theorem Watch.Reaches.none_forgotten {first : Studio} {watch : Watch} (new : first.IsNew)
    (reached : Watch.Reaches ⟨first, false⟩ watch) (kept : watch.account = false)
    (queue : watch.state.scheduler.queue = []) (active : watch.state.scheduler.active = [])
    {chunk : Chunk Double} (hchunk : chunk ∈ watch.state.store.cache.chunks) :
    chunk.status = .valid ∨ chunk.status = .error := by
  have start : first.Watched false := by
    have coherent : first.Coherent (fun _ => false) {} := new.coherent
    refine ⟨coherent.order, fun job hjob => ?_, fun _ chunk hchunk => ?_⟩
    · exact absurd hjob (by simp [new.active])
    · exact absurd hchunk (by simp [new.chunks])
  have watched := reached.watched start
  rcases watched.attends kept chunk hchunk id with
    valid | failed | ⟨entry, hentry, -⟩ | ⟨job, hjob, -⟩
  · exact .inl valid
  · exact .inr failed
  · exact absurd hentry (by simp [queue])
  · exact absurd hjob (by simp [active])

/-! ### A clip that is forgotten -/

namespace OneClip

/-- Nothing is left to do. -/
def isIdle (studio : Studio) : Bool :=
  studio.scheduler.queue.isEmpty && studio.scheduler.active.isEmpty

/-- The clip is rendered, and then edits follow. -/
def watch (edits : List SessionEvent) : Watch := (rendering ++ edits).foldl Watch.next ⟨opened, false⟩

/-- The clip is to be shown on white, and another is put where there are too many windows before its
end. -/
def repainted : SessionEvent :=
  .update (timeline [clip, lateClip]) none (some { background := "white" })

end OneClip

/-- A clip that was opened and rendered is not forgotten. -/
theorem rendered_clip_is_valid :
    ∃ watch chunk, Watch.Reaches ⟨OneClip.opened, false⟩ watch ∧ watch.account = false ∧
      watch.state.scheduler.queue = [] ∧ watch.state.scheduler.active = [] ∧
      chunk ∈ watch.state.store.cache.chunks ∧
      (chunk.status = .valid ∨ chunk.status = .error) := by
  have reached : Watch.Reaches ⟨OneClip.opened, false⟩ (OneClip.watch []) :=
    Leads.foldl _ (by decide) _
  have idle : (!(OneClip.watch []).account && OneClip.isIdle (OneClip.watch []).state &&
      (OneClip.watch []).state.store.cache.chunks.any fun _ => true) = true := by decide +kernel
  simp only [OneClip.isIdle, Bool.and_eq_true, Bool.not_eq_true', List.isEmpty_iff,
    List.any_eq_true, and_true] at idle
  obtain ⟨⟨kept, queue, active⟩, chunk, hchunk⟩ := idle
  exact ⟨_, chunk, reached, kept, queue, active, hchunk,
    reached.none_forgotten OneClip.opened_isNew kept queue active hchunk⟩

/-- When the output is changed and another clip is put where there are too many windows before its
end, the call fails after it made the chunk stale, and nothing is queued. -/
theorem exists_forgotten :
    ∃ watch chunk, Watch.Reaches ⟨OneClip.opened, false⟩ watch ∧
      (∀ clip ∈ watch.state.shared.timeline.clips, clip.start.isFinite ∧ clip.stop.isFinite) ∧
      watch.state.scheduler.queue = [] ∧ watch.state.scheduler.active = [] ∧
      chunk ∈ watch.state.store.cache.chunks ∧ chunk.status = .stale := by
  have reached : Watch.Reaches ⟨OneClip.opened, false⟩ (OneClip.watch [OneClip.repainted]) :=
    Leads.foldl _ (by decide) _
  have idle : (((OneClip.watch [OneClip.repainted]).state.shared.timeline.clips.all fun clip =>
        clip.start.isFinite && clip.stop.isFinite) &&
      OneClip.isIdle (OneClip.watch [OneClip.repainted]).state &&
      (OneClip.watch [OneClip.repainted]).state.store.cache.chunks.any fun chunk =>
        chunk.status = .stale) = true := by decide +kernel
  simp only [OneClip.isIdle, Bool.and_eq_true, List.isEmpty_iff, List.any_eq_true,
    List.all_eq_true, decide_eq_true_eq] at idle
  obtain ⟨⟨ends, queue, active⟩, chunk, hchunk, stale⟩ := idle
  exact ⟨_, chunk, reached, ends, queue, active, hchunk, stale⟩

end Montage
