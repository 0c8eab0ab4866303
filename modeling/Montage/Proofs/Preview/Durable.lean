import Montage.Proofs.Chunk.Record
import Montage.Proofs.Preview.Coherence

/-!
# Properties that survive a session

Every event is made of calls on the cache, of changes to the list of jobs, and of what workers do. A
property of sessions that survives each of these survives every event, so that only the few forms of
steps have to be looked at for a new invariant, and not the events.

## Main definitions

* `CacheCall.IsRoutine` — a call that an event may make
* `Studio.Reports` — a property survives the worker's half of a step
* `Studio.Durable` — a property survives what events are made of

## Main results

* `Studio.Durable.next` — such a property survives every event
-/

namespace Montage

open SessionAction

/-- A call that an event makes, other than with new settings. What is recorded as rendered is as was
told. -/
def CacheCall.IsRoutine (told : String → Option String → Option Bool → Prop) :
    CacheCall Double → Prop
  | .change (.setFiles _) | .change (.applySettings _) => False
  | .finishRender _ path contentHash isComplex => told path contentHash isComplex
  | _ => True

/-- The jobs that have begun were there before, at the same places. -/
def Scheduler.Retains (before after : Scheduler Double ChunkRender EncoderReply) : Prop :=
  ∀ job ∈ after.active, ∀ kept, job.kept? = some kept →
    ∃ other ∈ before.active, other.index = job.index ∧ other.kept? = some kept

protected theorem Scheduler.Retains.refl (scheduler : Scheduler Double ChunkRender EncoderReply) :
    scheduler.Retains scheduler := fun job hjob _ hkept => ⟨job, hjob, rfl, hkept⟩

protected theorem Scheduler.Retains.of_subset
    {before after : Scheduler Double ChunkRender EncoderReply} (sub : after.active ⊆ before.active) :
    before.Retains after := fun job hjob _ hkept => ⟨job, sub hjob, rfl, hkept⟩

/-- A job that goes on. -/
protected theorem Scheduler.Retains.putJob
    {before after : Scheduler Double ChunkRender EncoderReply} {job next : RenderJob}
    (hjob : job ∈ before.active) (same : job.Same next)
    (active : after.active = (before.putJob next).active) : before.Retains after := by
  intro other hother kept hkept
  rw [active] at hother
  obtain ⟨old, hold, rfl⟩ := List.mem_map.mp hother
  split at hkept
  · next here =>
    rw [if_pos here]
    exact ⟨job, hjob, (congrArg Chunk.index same.chunk).symm, same.kept ▸ hkept⟩
  · next elsewhere =>
    rw [if_neg elsewhere]
    exact ⟨old, hold, rfl, hkept⟩

/-- Jobs that keep what they kept. -/
theorem Scheduler.Retains.map {before after : Scheduler Double ChunkRender EncoderReply}
    {next : RenderJob → RenderJob} (same : ∀ job ∈ before.active, job.Same (next job))
    (active : after.active = before.active.map next) : before.Retains after := by
  intro job hjob kept hkept
  rw [active] at hjob
  obtain ⟨old, hold, rfl⟩ := List.mem_map.mp hjob
  refine ⟨old, hold, ?_, (same old hold).kept ▸ hkept⟩
  exact (congrArg Chunk.index (same old hold).chunk).symm

namespace Studio

/-- A property survives the worker's half of the step of a job, and what is reported as done is as
told. -/
def Reports (holds : Studio → Prop) (told : String → Option String → Option Bool → Prop)
    (job : RenderJob) (studio : Studio) : Prop :=
  Ensures (WorkshopAction.report? ChunkRender.worker job) studio
    (fun report next => holds next ∧ ∀ outcome ∈ report, outcome.success = true →
      ∀ path ∈ outcome.outputPath, told path outcome.contentHash outcome.isComplex) holds

/-- A property survives what events are made of, if what is reported as done is as told. -/
structure Durable (holds : Studio → Prop) (told : String → Option String → Option Bool → Prop) :
    Prop where
  session : ∀ studio session, session.settings = studio.shared.settings → holds studio →
    holds { studio with shared := session }
  scheduler : ∀ studio scheduler, studio.scheduler.Retains scheduler → holds studio →
    holds { studio with scheduler }
  call : ∀ call : CacheCall Double, call.IsRoutine told → ∀ studio, holds studio →
    holds { studio with store := leaves call.action studio.store }
  remove : ∀ studio path files, studio.store.disk.files.remove path = .ok files → holds studio →
    holds { studio with store := { studio.store with disk := { studio.store.disk with files } } }
  changeSettings : ∀ settings, Keeps holds (changeSettings settings)

/-- New settings are kept where the call that applies them is. -/
theorem keeps_changeSettings {holds : Studio → Prop} (settings : OutputFormat Double)
    (called : ∀ studio : Studio, holds studio → ∀ session, holds { studio with
      store := leaves (CacheCall.change (.applySettings settings)).action studio.store
      shared := session }) :
    Keeps holds (changeSettings settings) := fun studio h => by
  unfold changeSettings
  rw [ensures_bind, ensures_session, ensures_bind, ensures_setSession, WorkshopAction.ensures_onCache]
  have called := called studio h { studio.shared with settings }
  rw [CacheCall.action, CacheChange.action, leaves_discard] at called
  refine ensures_leaves.mono ?_ ?_
  · rintro _ _ rfl
    exact called
  · rintro _ rfl
    exact called

namespace Durable

open WorkshopAction

variable {holds : Studio → Prop} {told : String → Option String → Option Bool → Prop}
  (durable : Durable holds told)

include durable

/-! ### Jobs -/

/-- What is done to the cache is what a call does. -/
theorem keeps_call {α : Type} {action : CacheAction Double α} (call : CacheCall Double)
    (same : ∀ state, leaves call.action state = leaves action state) (routine : call.IsRoutine told) :
    Keeps holds (onCache action) := by
  intro studio h
  have called := durable.call call routine studio h
  rw [same] at called
  refine ensures_onCache.mpr (ensures_leaves.mono ?_ ?_)
  · rintro _ store rfl
    exact called
  · rintro store rfl
    exact called

/-- A job that gets a slot has not begun, and the render of its chunk begins. -/
theorem fill {queue : RenderQueue} {scheduler : Scheduler Double ChunkRender EncoderReply}
    {cache : Cache Double} {studio : Studio}
    (h : holds { studio with store := { studio.store with cache } })
    (retains : studio.scheduler.Retains scheduler) :
    let filled := Scheduler.fill queue scheduler cache
    holds { studio with store := { studio.store with cache := filled.2 } } ∧
      studio.scheduler.Retains filled.1 := by
  fun_induction Scheduler.fill queue scheduler cache with
  | case1 => exact ⟨h, retains⟩
  | case2 => exact ⟨h, retains⟩
  | case3 _ _ _ _ _ _ _ ih => exact ih h retains
  | case4 _ _ _ _ _ _ _ _ ih => exact ih h retains
  | case5 entry rest scheduler cache room chunk found waits ih =>
    apply ih
    · have begun := durable.call (.startRender entry.index) trivial _ h
      rw [CacheCall.action, leaves_discard] at begun
      rcases (CacheAction.startRender_state entry.index { studio.store with cache }).ends with
        ⟨-, other, found', started⟩ | ⟨-, -, never⟩
      · obtain rfl := Except.ok.inj (found.symm.trans found')
        rw [started] at begun
        exact begun
      · exact absurd found (never chunk)
    · intro job hjob kept hkept
      rcases List.mem_append.mp hjob with hjob | hjob
      · exact retains job hjob kept hkept
      · obtain rfl := List.mem_singleton.mp hjob
        exact absurd hkept (by simp [Job.kept?])

theorem keeps_pump : Keeps holds pump := by
  intro studio h
  unfold pump
  rw [ensures_bind, ensures_get, ensures_set]
  let filled := Scheduler.fill studio.scheduler.queue studio.scheduler studio.store.cache
  obtain ⟨hstore, retains⟩ : holds { studio with store := { studio.store with cache := filled.2 } } ∧
    studio.scheduler.Retains filled.1 := durable.fill h (.refl studio.scheduler)
  exact durable.scheduler { studio with store := { studio.store with cache := filled.2 } } _ retains
    hstore

theorem keeps_queue (index : Int) (urgency : Urgency) : Keeps holds (queue index urgency) := by
  intro studio h
  unfold queue
  rw [ensures_bind, ensures_scheduler]
  split
  · exact h
  · rw [ensures_bind, ensures_setScheduler]
    exact Keeps.bind durable.keeps_pump (fun _ => Keeps.pure) _
      (durable.scheduler studio _ (.of_subset (List.Subset.refl _)) h)

theorem keeps_setUrgency (index : Int) (urgency : Urgency) :
    Keeps holds (setUrgency index urgency) := by
  intro studio h
  unfold setUrgency
  rw [ensures_bind, ensures_scheduler]
  split
  · exact h
  · split
    · exact h
    · rw [ensures_bind, ensures_setScheduler]
      exact durable.keeps_queue _ _ _ (durable.scheduler studio _ (.of_subset (List.Subset.refl _)) h)

/-- What a job did is recorded. -/
theorem keeps_record (index : Nat) {outcome : RenderOutcome}
    (done : outcome.success = true → ∀ path ∈ outcome.outputPath,
      told path outcome.contentHash outcome.isComplex) :
    Keeps holds (record index outcome) := by
  unfold record
  split
  · exact Keeps.pure
  · dsimp only
    split
    · next path success output =>
      have output : path ∈ outcome.outputPath := (Option.filter_eq_some_iff.mp output).1
      refine (durable.keeps_call (.finishRender index path outcome.contentHash outcome.isComplex)
        (leaves_discard _) (done success path output)).bind fun chunk => ?_
      split
      · exact (durable.keeps_queue _ _).bind fun _ => Keeps.pure
      · exact Keeps.pure
    · exact (durable.keeps_call (.failRender index _ outcome.contentHash) (leaves_discard _)
        trivial).bind fun _ => Keeps.pure

theorem keeps_discard (outcome : RenderOutcome) (current : Option (Chunk Double)) :
    Keeps holds (WorkshopAction.discard outcome current) := by
  unfold WorkshopAction.discard
  refine Keeps.bind (fun studio h => ?_) fun _ => ?_
  · unfold removeOutput
    split
    · rw [ensures_bind, ensures_get]
      split
      · next files removed => exact durable.remove studio _ files removed h
      · exact h
    · exact h
  · unfold queueNew
    split
    · split
      · exact (durable.keeps_queue _ _).bind fun _ => Keeps.pure
      · exact Keeps.pure
    · exact Keeps.pure

theorem keeps_complete (job : RenderJob) {outcome : RenderOutcome}
    (done : outcome.success = true → ∀ path ∈ outcome.outputPath,
      told path outcome.contentHash outcome.isComplex) :
    Keeps holds (complete ChunkRender.worker job outcome) := by
  have tells (chunk : Chunk Double) : Keeps holds (tell ChunkRender.worker chunk) := by
    intro studio h
    refine (tell_spec ChunkRender.worker chunk studio).mono ?_ ?_
    · rintro - _ rfl
      exact durable.session studio _ rfl h
    · rintro _ rfl
      exact durable.session studio _ rfl h
  intro studio h
  unfold complete
  rw [ensures_bind, ensures_scheduler, ensures_bind, ensures_setScheduler]
  have left : studio.scheduler.Retains (studio.scheduler.dropJob job.id) :=
    .of_subset (studio.scheduler.dropJob_sublist job.id).subset
  have concludes : Keeps holds (conclude ChunkRender.worker job outcome) := by
    unfold conclude
    refine Keeps.bind (fun _ h => h) fun studio => ?_
    dsimp only
    split
    · refine (durable.keeps_record _ done).bind fun _ => Keeps.bind (fun _ h => h) fun studio => ?_
      split
      · exact (tells _).bind fun _ => durable.keeps_pump
      · exact durable.keeps_pump
    · exact (durable.keeps_discard _ _).bind fun _ => durable.keeps_pump
  exact concludes _ (durable.scheduler studio _ left h)

/-- A property survives the worker's half of a step if it survives its begin and its end. -/
theorem reports {job : RenderJob} {studio : Studio} (h : holds studio)
    (begins : job.phase = .due false →
      Ensures (ChunkRender.begin job.chunk) (studio.store, studio.shared)
        (fun step next => match step with
          | .waits kept => holds { store := next.1, shared := next.2
                                   scheduler := studio.scheduler.putJob
                                     { job with phase := .waiting kept } }
          | .ends outcome => holds { studio with store := next.1, shared := next.2 } ∧
            outcome.success = false)
        (fun next => holds { studio with store := next.1, shared := next.2 }))
    (resumes : ∀ kept reply, job.phase = .answered kept reply →
      Ensures (ChunkRender.resume job.chunk kept reply) (studio.store, studio.shared)
        (fun outcome next => holds { studio with store := next.1, shared := next.2 } ∧
          (outcome.success = true → ∀ path ∈ outcome.outputPath,
            told path outcome.contentHash outcome.isComplex))
        (fun next => holds { studio with store := next.1, shared := next.2 })) :
    Reports holds told job studio := by
  unfold Reports report?
  split
  · -- A job that was told to stop keeps nothing.
    rw [ensures_bind, ensures_scheduler, ensures_bind, ensures_setScheduler, ensures_pure]
    refine ⟨durable.scheduler studio _ ?_ h, by simp⟩
    intro other hother kept hkept
    obtain ⟨old, hold, rfl⟩ := List.mem_map.mp hother
    split at hkept
    · exact absurd hkept (by simp [Job.kept?])
    · next elsewhere => exact ⟨old, hold, by rw [if_neg elsewhere], hkept⟩
  · next due =>
    rw [ensures_bind]
    refine Ensures.tryCatch ?_
    rw [ensures_onWorker]
    refine (begins due).mono ?_ ?_
    · rintro (kept | outcome) ⟨store, session⟩ hnext
      · exact ⟨hnext, by simp⟩
      · refine ⟨hnext.1, ?_⟩
        rintro _ ⟨⟩ success
        exact absurd success (by simp [hnext.2])
    · intro next hnext failure
      refine ⟨hnext, ?_⟩
      rintro _ ⟨⟩ success
      exact absurd success (by simp [broken])
  · next kept reply answered =>
    rw [ensures_bind]
    refine Ensures.tryCatch ?_
    rw [ensures_onWorker]
    refine (resumes kept reply answered).mono ?_ ?_
    · rintro outcome next ⟨hnext, done⟩
      refine ⟨hnext, ?_⟩
      rintro _ ⟨⟩
      exact done
    · intro next hnext failure
      refine ⟨hnext, ?_⟩
      rintro _ ⟨⟩ success
      exact absurd success (by simp [broken])
  · rw [ensures_bind, ensures_modify, ensures_pure]
    refine ⟨durable.session studio _ rfl h, ?_⟩
    rintro _ ⟨⟩ success
    exact absurd success (by simp)
  · exact ⟨h, by simp⟩
  · exact ⟨h, by simp⟩

/-- A property survives the step of a job if it survives the worker's half. -/
theorem runNext {studio : Studio} (h : holds studio)
    (reports : ∀ id rest job, studio.scheduler.agenda = id :: rest →
      studio.scheduler.job? id = some job →
      let waiting : Studio := { studio with scheduler := { studio.scheduler with agenda := rest } }
      holds waiting → Reports holds told job waiting) :
    Ensures (WorkshopAction.runNext ChunkRender.worker) studio (fun _ => holds) holds := by
  unfold WorkshopAction.runNext
  rw [ensures_bind, ensures_scheduler]
  split
  · exact h
  · next id rest agenda =>
    rw [ensures_bind, ensures_setScheduler]
    have waiting : holds { studio with scheduler := { studio.scheduler with agenda := rest } } :=
      durable.scheduler studio _ (.of_subset (List.Subset.refl _)) h
    split
    · next job found =>
      rw [runJob_eq, ensures_bind]
      refine (reports id rest job agenda found waiting).mono ?_ fun _ h => h
      rintro (_ | outcome) next ⟨hnext, done⟩
      · exact hnext
      · exact Ensures.tryCatch ((durable.keeps_complete job (done outcome rfl) next hnext).mono
          (fun _ _ h => h) fun _ h _ => h)
    · exact waiting

/-! ### Edits -/

theorem keeps_show (session : Session Double → Session Double)
    (same : ∀ now, (session now).settings = now.settings) {α : Type}
    {next : Session Double → SessionAction Double α} (keeps : ∀ now, Keeps holds (next now)) :
    Keeps holds (do let now ← SessionAction.session; setSession (session now); next now) := by
  intro studio h
  rw [ensures_bind, ensures_session, ensures_bind, ensures_setSession]
  exact keeps _ _ (durable.session studio _ (same studio.shared) h)

theorem keeps_reconcile : Keeps holds reconcile := by
  unfold reconcile
  apply keeps_forChunks
  intro chunk
  unfold refresh
  refine (keeps_isOutdated chunk).bind fun outdated => ?_
  split
  · exact (durable.keeps_call (.change (.invalidate _ _)) (leaves_discard _) trivial).bind
      fun _ => Keeps.pure
  · exact Keeps.pure

theorem keeps_queueWaiting (urgency : Urgency) (retry : Bool) :
    Keeps holds (queueWaiting urgency retry) := by
  unfold queueWaiting
  refine keeps_forChunks fun chunk => (keeps_isPending retry chunk).bind fun pending => ?_
  split
  · exact (durable.keeps_queue _ urgency).bind fun _ => Keeps.pure
  · exact Keeps.pure

theorem keeps_change (timeline : Timeline Double) (media : Option MediaLibrary)
    (settings : Option (OutputFormat Double)) : Keeps holds (change timeline media settings) := by
  have fits (changed : Bool) : Keeps holds do fit timeline.duration; return changed := by
    refine Keeps.bind ?_ fun _ => Keeps.pure
    unfold fit
    refine Keeps.bind (fun _ h => h) fun cache => ?_
    split
    · exact durable.keeps_call (.change (.repartition timeline.duration)) (fun _ => rfl) trivial
    · exact Keeps.pure
  unfold change
  refine durable.keeps_show (fun now => { now with timeline, media := media.getD now.media })
    (fun _ => rfl) fun now => ?_
  cases settings with
  | none => exact fits false
  | some settings => exact (durable.changeSettings settings).bind fits

theorem keeps_load (timeline : Timeline Double) (media : MediaLibrary) (path : Option String)
    (time : Option Double) : Keeps holds (load timeline media path time) := by
  unfold load
  refine durable.keeps_show (fun now => { now with timeline, media }) (fun _ => rfl) fun now => ?_
  exact durable.keeps_call (.change (.openProject path timeline.duration time)) (fun _ => rfl) trivial

/-! ### Events -/

/-- A property survives an event if it survives the worker's half of the step that comes next. -/
theorem next {studio : Studio} (h : holds studio) (event : SessionEvent)
    (reports : event = .work → ∀ id rest job, studio.scheduler.agenda = id :: rest →
      studio.scheduler.job? id = some job →
      let waiting : Studio := { studio with scheduler := { studio.scheduler with agenda := rest } }
      holds waiting → Reports holds told job waiting) :
    holds (leaves event.action studio) := by
  have dropped {α : Type} {action : SessionAction Double α} (keeps : Keeps holds action) :
      holds (leaves (do let _ ← action) studio) := by
    rw [leaves_discard]
    exact keeps.leaves h
  cases event with
  | openProject timeline media path time =>
    have keeps := (durable.keeps_load timeline media path time).bind fun _ =>
      durable.keeps_reconcile.bind fun _ => durable.keeps_queueWaiting .normal false
    exact keeps.leaves h
  | update timeline media settings =>
    refine dropped ((durable.keeps_change timeline media settings).bind fun changed => ?_)
    exact durable.keeps_reconcile.bind fun _ => (durable.keeps_queueWaiting _ _).bind fun _ =>
      Keeps.bind (fun _ h => h) fun _ => Keeps.pure
  | invalidate start stop =>
    refine dropped ((durable.keeps_call (.change (.invalidate start stop)) (leaves_discard _)
      trivial).bind fun affected => ?_)
    exact (durable.keeps_queueWaiting _ _).bind fun _ => Keeps.pure
  | prioritize t radius =>
    exact dropped (keeps_prioritizeNear durable.keeps_queue durable.keeps_setUrgency t radius)
  | cancel index =>
    refine dropped fun studio h => ?_
    unfold requestCancel
    rw [ensures_bind, ensures_scheduler]
    split
    · rw [ensures_bind, ensures_setScheduler]
      exact Keeps.bind durable.keeps_pump (fun _ => Keeps.pure) _
        (durable.scheduler studio _ (.of_subset (List.Subset.refl _)) h)
    · split
      · exact h
      · next job found =>
        rw [ensures_bind, ensures_setScheduler, ensures_pure]
        have hjob := List.mem_of_find?_eq_some found
        exact durable.scheduler studio _ (.putJob hjob job.same_stop rfl) h
  | stopAll =>
    refine dropped fun studio h => ?_
    unfold requestStopAll
    rw [ensures_bind, ensures_scheduler, ensures_bind, ensures_setScheduler, ensures_pure]
    exact durable.scheduler studio _ (.map (fun job _ => job.same_stop) rfl) h
  | finishCancel =>
    have keeps : Keeps holds finishCancel := fun studio h => by
      unfold WorkshopAction.finishCancel
      rw [ensures_bind, ensures_scheduler, ensures_bind, ensures_setScheduler]
      exact durable.keeps_pump _
        (durable.scheduler studio _ (.of_subset (List.filter_subset_self _)) h)
    exact keeps.leaves h
  | wipe => exact (durable.keeps_call (.change .wipe) (fun _ => rfl) trivial).leaves h
  | answer id reply =>
    rw [SessionEvent.answer_eq]
    refine Ensures.leaves (WorkshopAction.deliver_cases id reply h ?_)
    intro job hjob kept agenda waiting
    have same : job.Same { job with phase := .answered kept reply } :=
      ⟨rfl, rfl, by simp [Job.kept?, waiting]⟩
    exact durable.scheduler studio _ (.putJob hjob same rfl) h
  | hurry place =>
    have keeps : Keeps holds (SessionEvent.hurry place).action := fun studio h =>
      durable.scheduler studio _ (.of_subset (List.Subset.refl _)) h
    exact keeps.leaves h
  | work => exact (durable.runNext h (reports rfl)).leaves

end Durable

end Studio

end Montage
