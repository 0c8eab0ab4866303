import Montage.Proofs.Schedule.Await

/-!
# Stopping all work

When all jobs are told to stop, the queue is emptied, and each of them leaves its slot in its last
step. That is the end of all work, and no chunk changes by it — unless the chunk of a job was cut
away, and the one that stands in its place waits for a render. The end of the job admits it, since
it could not be admitted while the job was there, and it is rendered though all work was to stop.

## Main definitions

* `ShopEvent.readmits` — whether an event is the end of a job whose place another chunk waits for
* `Shift.Each` — a condition on every event of a run
* `Scheduler.Halts` — nobody waits, and all jobs were told to stop
* `Scheduler.IsOver` — nothing waits and nothing is rendered

## Main results

* `Scheduler.Halts.next` — what an event leads to after all jobs were told to stop
* `WorkshopAction.runNext_begins_again` — a chunk that waits for the place of a job begins
* `Scheduler.IsOver.next` — when all work is over it stays so
* `Shift.Reaches.stops_iff` — stopping all work ends it exactly if no end of a job admits a chunk
* `two_places_restart` — a chunk begins in the place of a job that was stopped
-/

namespace Montage

variable {τ κ ω ρ : Type}

def WorkerNote.isBegin : WorkerNote → Bool
  | .begins _ _ => true
  | .ends _ => false

/-- The workers that have begun so far. -/
def Shift.begun (shift : Shift τ κ ω ρ) : List WorkerNote := shift.account.filter (·.isBegin)

/-- How the chunks stand, in the order of their places. -/
def Cache.statuses (cache : Cache τ) : List ChunkState := cache.chunks.map (·.status)

namespace ShopEvent

/-- Somebody asks for renders, or that there be none. -/
def isCall : ShopEvent τ ρ → Bool
  | .queue _ _ | .queueEach _ _ | .setUrgency _ _ | .cancel _ | .stopAll => true
  | .finishCancel | .edit _ | .answer _ _ | .hurry _ | .work => false

/-- Somebody asks for renders of chunks that were not asked for before. -/
def isQueue : ShopEvent τ ρ → Bool
  | .queue _ _ | .queueEach _ _ => true
  | _ => false

def isEdit : ShopEvent τ ρ → Bool
  | .edit _ => true
  | _ => false

end ShopEvent

/-- Whether the place of a job has a chunk that waits for a render and is not the one of the job. -/
def Workshop.supplants (shop : Workshop τ κ ω ρ) (job : Job τ ω ρ) : Bool :=
  match shop.store.cache.get job.index with
  | .ok chunk => chunk.serial ≠ job.chunk.serial && chunk.status.needsRender
  | .error _ => false

theorem Workshop.supplants_iff {shop : Workshop τ κ ω ρ} {job : Job τ ω ρ} :
    shop.supplants job = true ↔ ∃ chunk, shop.store.cache.get job.index = .ok chunk ∧
      chunk.serial ≠ job.chunk.serial ∧ chunk.status.needsRender = true := by
  unfold supplants
  cases shop.store.cache.get job.index <;> simp

/-- Nobody waits, and all jobs are among those that were told to stop. -/
structure Scheduler.Halts (asked : List Nat) (scheduler : Scheduler τ ω ρ) : Prop where
  queue : scheduler.queue = []
  stops : ∀ job ∈ scheduler.active, job.stops = true
  asked : ∀ job ∈ scheduler.active, job.id ∈ asked

/-- Nothing waits and nothing is rendered, and those who wait for the end of all work may go on. -/
structure Scheduler.IsOver (scheduler : Scheduler τ ω ρ) : Prop where
  queue : scheduler.queue = []
  active : scheduler.active = []
  idle : scheduler.idle = true

namespace Scheduler.Halts

variable {asked : List Nat} {before after : Scheduler τ ω ρ}

/-- Jobs that leave. -/
theorem of_subset (h : before.Halts asked) (queue : after.queue = [])
    (active : after.active ⊆ before.active) : after.Halts asked :=
  ⟨queue, fun job hjob => h.stops job (active hjob), fun job hjob => h.asked job (active hjob)⟩

/-- A job that goes on. -/
theorem putJob (h : before.Halts asked) {job next : Job τ ω ρ} (hjob : job ∈ before.active)
    (id : next.id = job.id) (stops : next.stops = true) : (before.putJob next).Halts asked := by
  refine ⟨h.queue, fun other hother => ?_, fun other hother => ?_⟩ <;>
    rcases mem_putJob hother with rfl | ⟨hother, -⟩
  · exact stops
  · exact h.stops other hother
  · exact id ▸ h.asked job hjob
  · exact h.asked other hother

/-- All jobs have been told to stop. -/
theorem stopJobs (scheduler : Scheduler τ ω ρ) :
    Scheduler.Halts (scheduler.active.map (·.id)) { scheduler.stopJobs with queue := [] } := by
  refine ⟨rfl, fun stopped hstopped => ?_, fun stopped hstopped => ?_⟩ <;>
    obtain ⟨job, hjob, rfl⟩ := List.mem_map.mp hstopped
  · exact job.stops_stop
  · rw [job.same_stop.id]
    exact List.mem_map_of_mem hjob

end Scheduler.Halts

/-- A chunk that begins does not stand as it stood when it waited. -/
theorem Cache.statuses_put_ne {cache : Cache τ} {index : Int} {chunk : Chunk τ}
    (found : cache.get index = .ok chunk) (waits : chunk.status.needsRender = true) :
    (cache.put (Cache.beginRender chunk)).statuses ≠ cache.statuses := by
  obtain ⟨i, -, there⟩ := get_eq_ok.mp found
  intro same
  have status := congrArg (·[i]?) same
  simp [statuses, put, there, beginRender] at status
  simp [← status, ChunkState.needsRender] at waits

/-- What a job that was told to stop has to do, it does without its worker. -/
theorem WorkshopAction.report?_of_stops (worker : Worker τ κ ω ρ) {job : Job τ ω ρ}
    (stops : job.stops = true) (shop : Workshop τ κ ω ρ) :
    (∃ shared, report? worker job shop = .ok (some { cancelled := true }) { shop with shared }) ∨
      (∃ after, after.id = job.id ∧ after.stops = true ∧ report? worker job shop =
        .ok none { shop with scheduler := shop.scheduler.putJob after }) ∨
      report? worker job shop = .ok none shop := by
  unfold Job.stops at stops
  unfold report?
  split at stops
  · next due =>
    rw [due]
    exact .inr (.inl ⟨{ job with phase := .ended }, rfl, rfl, rfl⟩)
  · next kept stopping =>
    rw [stopping]
    exact .inl ⟨_, rfl⟩
  · next ended =>
    rw [ended]
    exact .inr (.inr rfl)
  all_goals exact absurd stops Bool.false_ne_true

section Events

variable [Scalar τ] {worker : Worker τ κ ω ρ} {shop : Workshop τ κ ω ρ} {shift : Shift τ κ ω ρ}
  {job : Job τ ω ρ} {asked : List Nat} {slots : Nat} {diary : List WorkerNote}

/-- Whether an event is the end of a job whose place has another chunk that waits for a render. -/
def ShopEvent.readmits (worker : Worker τ κ ω ρ) (event : ShopEvent τ ρ)
    (shop : Workshop τ κ ω ρ) : Bool :=
  match event with
  | .work => (shop.endsNext worker).any shop.supplants
  | _ => false

/-- A condition on every event of a run, and on the shift in which it comes. -/
def Shift.Each (worker : Worker τ κ ω ρ) (holds : ShopEvent τ ρ → Shift τ κ ω ρ → Prop) :
    List (ShopEvent τ ρ) → Shift τ κ ω ρ → Prop
  | [], _ => True
  | event :: rest, shift => holds event shift ∧ Each worker holds rest (shift.next worker event)

/-- The event leaves all chunks as they stand, if it is not an edit. -/
def ShopEvent.IsQuiet (worker : Worker τ κ ω ρ) (event : ShopEvent τ ρ)
    (shift : Shift τ κ ω ρ) : Prop :=
  event.isEdit = false →
    (shift.next worker event).state.store.cache.statuses = shift.state.store.cache.statuses

/-! ### The last step of a job -/

/-- A slot for the only entry of a queue. -/
theorem Scheduler.fill_singleton {entry : QueueEntry} {scheduler : Scheduler τ ω ρ}
    {cache : Cache τ} {chunk : Chunk τ} (room : scheduler.active.length < scheduler.limit)
    (found : cache.get entry.index = .ok chunk) (waits : chunk.status ≠ .valid) :
    fill [entry] scheduler cache =
      ({ scheduler.addJob chunk with queue := [] }, cache.put (Cache.beginRender chunk)) := by
  unfold fill
  rw [if_neg (Nat.not_le.mpr room), found]
  dsimp only
  rw [if_neg waits]
  rfl

namespace Workshop

/-- A workshop in which a job has left its slot, and all else stands as it stood. -/
structure Vacated (job : Job τ ω ρ) (before after : Workshop τ κ ω ρ) : Prop where
  queue : after.scheduler.queue = []
  active : after.scheduler.active = (before.scheduler.dropJob job.id).active
  cache : after.store.cache = before.store.cache

/-- With nobody in the queue, giving away slots changes no chunk and no job. -/
theorem Vacated.pumped {next : Workshop τ κ ω ρ} (h : Vacated job shop next) :
    Vacated job shop next.pumped := by
  rw [next.pumped_of_settled (.inl h.queue)]
  exact ⟨h.queue, h.active, h.cache⟩

/-- The chunk that is admitted to an empty queue begins if there is a slot for it. -/
theorem cache_of_admitting {entry : QueueEntry} {chunk : Chunk τ}
    (empty : shop.scheduler.queue = [])
    (room : shop.scheduler.active.length < shop.scheduler.limit)
    (found : shop.store.cache.get entry.index = .ok chunk)
    (waits : chunk.status.needsRender = true) :
    (shop.admitting entry).pumped.store.cache =
      shop.store.cache.put (Cache.beginRender chunk) := by
  have alone : (shop.admitting entry).scheduler.queue = [entry] := by
    unfold admitting RenderQueue.enqueue RenderQueue.place
    rw [empty]
    cases entry.urgency <;> rfl
  have waiting : chunk.status ≠ .valid := by
    intro valid
    simp [valid, ChunkState.needsRender] at waits
  let admitted : Scheduler τ ω ρ := (shop.admitting entry).scheduler
  have room' : admitted.active.length < admitted.limit := room
  have filled := Scheduler.fill_singleton room' found waiting
  unfold pumped Scheduler.pump
  rw [alone]
  exact congrArg (·.2) filled

end Workshop

namespace WorkshopAction

/-- There is no file of a job that was stopped. -/
theorem discard_of_stopped (current : Option (Chunk τ)) :
    discard { cancelled := true } current = (queueNew current : WorkshopAction τ κ ω ρ Unit) :=
  rfl

/-- A job that was stopped leaves its slot and nothing else, if no chunk waits for its place. -/
theorem complete_vacates (worker : Worker τ κ ω ρ) (empty : shop.scheduler.queue = [])
    (unclaimed : shop.supplants job = false) :
    Ensures (complete worker job { cancelled := true }) shop
      (fun _ => shop.Vacated job) (shop.Vacated job) := by
  have left (shared : κ) : shop.Vacated job { shop.without job with shared } := ⟨empty, rfl, rfl⟩
  unfold complete conclude
  rw [ensures_bind, ensures_scheduler, ensures_bind, ensures_setScheduler, ensures_bind,
    ensures_get]
  dsimp only
  split
  · rw [ensures_bind]
    unfold record
    rw [if_pos rfl, ensures_pure, ensures_bind, ensures_get]
    split
    · next chunk _ =>
      rw [ensures_bind]
      refine (tell_spec worker chunk _).mono ?_ ?_
      · rintro - _ rfl
        exact (left _).pumped
      · rintro _ rfl
        exact left _
    · exact (left shop.shared).pumped
  · next lost =>
    rw [discard_of_stopped, ensures_bind]
    unfold queueNew
    unfold Workshop.supplants at unclaimed
    cases found : shop.store.cache.get job.index with
    | error cause => exact (left shop.shared).pumped
    | ok chunk =>
      rw [found] at lost unclaimed
      have differ : chunk.serial ≠ job.chunk.serial := fun same => lost (congrArg some same)
      have settled : chunk.status.needsRender = false := by simpa [differ] using unclaimed
      dsimp only [Except.toOption]
      rw [settled]
      exact (left shop.shared).pumped

/-- If a chunk waits for its place, that is admitted. -/
theorem complete_readmits (worker : Worker τ κ ω ρ)
    (order : InOrder shop.store.cache shop.scheduler) (hjob : job ∈ shop.scheduler.active)
    (claimed : shop.supplants job = true) :
    Ensures (complete worker job { cancelled := true }) shop
      (fun _ next => next = ((shop.without job).admitting ⟨job.index, .normal⟩).pumped)
      (fun _ => False) := by
  have free : (shop.without job).scheduler.serves job.index = false :=
    order.jobs.free_of_dropJob hjob
  obtain ⟨chunk, found, differ, waits⟩ := Workshop.supplants_iff.mp claimed
  unfold complete conclude
  rw [ensures_bind, ensures_scheduler, ensures_bind, ensures_setScheduler, ensures_bind,
    ensures_get]
  dsimp only
  split
  · next same =>
    -- The chunk of the job does not stand at its place any more.
    rw [found] at same
    exact absurd (Option.some.inj same) differ
  · rw [discard_of_stopped, ensures_bind, found]
    unfold queueNew
    dsimp only [Except.toOption]
    rw [if_pos waits, ensures_bind, order.chunks.index_of_get found]
    refine (queue_cases job.index .normal (shop.without job)).mono ?_ fun _ => id
    rintro admitted next (⟨-, served, -⟩ | ⟨-, -, rfl⟩)
    · exact absurd served (Bool.eq_false_iff.mp free)
    · exact Workshop.pumped_pumped _

/-- The step of a job that was told to stop: it comes to its end, or it goes on and still stops. -/
theorem runJob_of_stops (worker : Worker τ κ ω ρ) (stops : job.stops = true)
    (shop : Workshop τ κ ω ρ) :
    let next := leaves (runJob worker job) shop
    (shop.endsOf worker job = some job ∧ ∃ shared,
      next = leaves (complete worker job { cancelled := true }) { shop with shared }) ∨
    (shop.endsOf worker job = none ∧ ∃ after, after.id = job.id ∧ after.stops = true ∧
      next = { shop with scheduler := shop.scheduler.putJob after }) ∨
    (shop.endsOf worker job = none ∧ next = shop) := by
  dsimp only
  rw [runJob_eq]
  unfold Workshop.endsOf
  rcases report?_of_stops worker stops shop with
    ⟨shared, reported⟩ | ⟨after, id, stops, reported⟩ | reported
  · rw [reported]
    refine .inl ⟨rfl, shared, ?_⟩
    exact (leaves_bind_of_ok reported).trans leaves_tryCatch_pure
  · rw [reported]
    exact .inr (.inl ⟨rfl, after, id, stops, leaves_bind_of_ok reported⟩)
  · rw [reported]
    exact .inr (.inr ⟨rfl, leaves_bind_of_ok reported⟩)

/-- What is due first is done when all jobs were told to stop: a job comes to its end, or nothing
happens to the chunks. -/
theorem runNext_of_halts (worker : Worker τ κ ω ρ) (halts : shop.scheduler.Halts asked) :
    let next := leaves (runNext worker) shop
    (∃ job ∈ shop.scheduler.active, shop.endsNext worker = some job ∧ ∃ agenda shared,
      next = leaves (complete worker job { cancelled := true })
        { shop with scheduler := { shop.scheduler with agenda }, shared }) ∨
    (shop.endsNext worker = none ∧ next.scheduler.Halts asked ∧
      next.store.cache = shop.store.cache) := by
  intro next
  have reads : scheduler shop = .ok shop.scheduler shop := rfl
  have read : next = _ := leaves_bind_of_ok reads
  unfold Workshop.endsNext
  cases agenda : shop.scheduler.agenda with
  | nil =>
    rw [agenda] at read
    rw [read]
    exact .inr ⟨rfl, halts, rfl⟩
  | cons id rest =>
    have redated : Scheduler.Halts asked (shop.redated rest).scheduler :=
      ⟨halts.queue, halts.stops, halts.asked⟩
    have sets : setScheduler { shop.scheduler with agenda := rest } shop =
      .ok () (shop.redated rest) := rfl
    rw [agenda] at read
    dsimp only at read
    rw [leaves_bind_of_ok sets] at read
    rw [read]
    dsimp only
    cases found : shop.scheduler.job? id with
    | none => exact .inr ⟨rfl, redated, rfl⟩
    | some job =>
      have hjob : job ∈ shop.scheduler.active := List.mem_of_find?_eq_some found
      rcases runJob_of_stops worker (halts.stops job hjob) (shop.redated rest) with
        ⟨ended, shared, same⟩ | ⟨ended, after, id, stops, same⟩ | ⟨ended, same⟩
      · exact .inl ⟨job, hjob, ended, rest, shared, same⟩
      · refine .inr ⟨ended, ?_⟩
        dsimp only
        rw [same]
        exact ⟨redated.putJob hjob id stops, rfl⟩
      · refine .inr ⟨ended, ?_⟩
        dsimp only
        rw [same]
        exact ⟨redated, rfl⟩

/-- The step of a job that was told to stop leaves all chunks as they are, unless one of them waits
for the place of the job. -/
theorem runNext_halts (halts : shop.scheduler.Halts asked)
    (spares : ShopEvent.work.readmits worker shop = false) :
    let next := leaves (runNext worker) shop
    next.scheduler.Halts asked ∧ next.store.cache = shop.store.cache := by
  rcases runNext_of_halts worker halts with
    ⟨job, hjob, ended, agenda, shared, same⟩ | ⟨-, kept⟩
  · dsimp only
    rw [same]
    let due : Workshop τ κ ω ρ :=
      { shop with scheduler := { shop.scheduler with agenda }, shared }
    have empty : due.scheduler.queue = [] := halts.queue
    have unclaimed : due.supplants job = false := by
      unfold ShopEvent.readmits at spares
      rw [ended] at spares
      exact spares
    have vacated := (complete_vacates worker empty unclaimed).leaves
    refine ⟨halts.of_subset vacated.queue ?_, vacated.cache⟩
    rw [vacated.active]
    exact (shop.scheduler.dropJob_sublist job.id).subset
  · exact kept

/-- A chunk that waits for the place of a job begins in the last step of the job. -/
theorem runNext_begins_again (halts : shop.scheduler.Halts asked)
    (order : InOrder shop.store.cache shop.scheduler)
    (within : shop.scheduler.active.length ≤ shop.scheduler.limit)
    (readmits : ShopEvent.work.readmits worker shop = true) :
    (leaves (runNext worker) shop).store.cache.statuses ≠ shop.store.cache.statuses := by
  unfold ShopEvent.readmits at readmits
  rcases runNext_of_halts worker halts with
    ⟨job, hjob, ended, agenda, shared, same⟩ | ⟨none, -⟩
  · rw [ended] at readmits
    rw [same]
    let due : Workshop τ κ ω ρ :=
      { shop with scheduler := { shop.scheduler with agenda }, shared }
    have claimed : due.supplants job = true := readmits
    have order' : InOrder due.store.cache due.scheduler := order.of_eq rfl rfl rfl
    obtain ⟨chunk, found, -, waits⟩ := Workshop.supplants_iff.mp claimed
    -- There is a slot for the chunk: the one that the job has left.
    have fewer : (due.without job).scheduler.active.length < shop.scheduler.active.length :=
      List.length_filter_lt_length_iff_exists.mpr ⟨job, hjob, by simp⟩
    have restarted : (leaves (complete worker job { cancelled := true }) due).store.cache =
        due.store.cache.put (Cache.beginRender chunk) := by
      obtain ⟨_, next, ran, rfl⟩ := (complete_readmits worker order' hjob claimed).exists_ok
      unfold leaves
      rw [ran]
      exact Workshop.cache_of_admitting halts.queue (Nat.lt_of_lt_of_le fewer within) found waits
    rw [restarted]
    exact Cache.statuses_put_ne found waits
  · rw [none] at readmits
    exact absurd readmits Bool.false_ne_true

end WorkshopAction

/-! ### After all jobs were told to stop -/

omit [Scalar τ] in
/-- A worker whose job was told to stop does not begin. -/
theorem ShopEvent.notes_of_halts (halts : shop.scheduler.Halts asked) (event : ShopEvent τ ρ) :
    ∀ note ∈ event.notes worker shop, note.isBegin = false := by
  unfold notes
  split
  · split
    · next job found =>
      have stops := halts.stops job (List.mem_of_find?_eq_some found)
      have silent : job.beginning = [] := by
        unfold Job.beginning
        split
        · next due => exact absurd stops (by simp [Job.stops, due])
        · rfl
      intro note hnote
      unfold Workshop.notes at hnote
      rw [silent, List.nil_append] at hnote
      split at hnote
      · rw [List.mem_singleton.mp hnote]
        rfl
      · exact absurd hnote List.not_mem_nil
    · exact fun _ hnote => absurd hnote List.not_mem_nil
  · exact fun _ hnote => absurd hnote List.not_mem_nil

namespace Shift

theorem begun_next (event : ShopEvent τ ρ)
    (silent : ∀ note ∈ event.notes worker shift.state, note.isBegin = false) :
    (shift.next worker event).begun = shift.begun := by
  have nobody : (event.notes worker shift.state).filter (·.isBegin) = [] :=
    List.filter_eq_nil_iff.mpr fun note hnote => by simp [silent note hnote]
  rw [begun, Annals.next_account, ShopEvent.note, List.filter_append, nobody, List.append_nil, begun]

theorem each_append {holds : ShopEvent τ ρ → Shift τ κ ω ρ → Prop}
    {first second : List (ShopEvent τ ρ)} :
    Each worker holds (first ++ second) shift ↔ Each worker holds first shift ∧
      Each worker holds second (first.foldl (next worker) shift) := by
  induction first generalizing shift with
  | nil => exact (and_iff_right trivial).symm
  | cons event rest ih =>
    have split : Each worker holds (rest ++ second) (shift.next worker event) ↔ _ := ih
    exact (and_congr_right' split).trans and_assoc.symm

end Shift

/-- While jobs stop, no event but the end of a job whose place a chunk waits for makes anything
begin. -/
theorem Scheduler.Halts.next (halts : shop.scheduler.Halts asked) {event : ShopEvent τ ρ}
    (silent : event.isCall = false) (spares : event.readmits worker shop = false) :
    let next := leaves (event.action worker) shop
    next.scheduler.Halts asked ∧ (event.isEdit = false → next.store.cache = shop.store.cache) := by
  cases event with
  | queue | queueEach | setUrgency | cancel | stopAll => exact absurd silent.symm Bool.false_ne_true
  | finishCancel =>
    let left : Workshop τ κ ω ρ := { shop with scheduler := shop.scheduler.forgetEnded }
    have pumped := left.pumped_of_settled (.inl halts.queue)
    have halts' : left.pumped.scheduler.Halts asked := by
      rw [pumped]
      exact halts.of_subset halts.queue (List.filter_subset_self _)
    have cache : left.pumped.store.cache = shop.store.cache := by rw [pumped]
    exact ⟨halts', fun _ => cache⟩
  | edit change =>
    refine ⟨?_, fun plain => absurd plain.symm Bool.false_ne_true⟩
    rw [ShopEvent.action, WorkshopAction.scheduler_onCache]
    exact halts
  | answer job reply =>
    dsimp only
    rw [ShopEvent.action]
    rcases WorkshopAction.leaves_deliver job reply shop with same | ⟨job, hjob, _, _, waiting, -⟩
    · rw [same]
      exact ⟨halts, fun _ => rfl⟩
    · -- A job that was told to stop waits for nothing.
      exact absurd (halts.stops job hjob) (by simp [Job.stops, waiting])
  | hurry place => exact ⟨⟨halts.queue, halts.stops, halts.asked⟩, fun _ => rfl⟩
  | work =>
    obtain ⟨halts, cache⟩ := WorkshopAction.runNext_halts halts spares
    exact ⟨halts, fun _ => cache⟩

namespace Shift

/-- While jobs stop and no chunk waits for their places, no worker begins and no chunk changes. -/
theorem halts_foldl {pause : List (ShopEvent τ ρ)}
    (silent : ∀ event ∈ pause, event.isCall = false) (halts : shift.state.scheduler.Halts asked)
    (spares : Each worker (fun event shift => event.readmits worker shift.state = false) pause
      shift) :
    let back := pause.foldl (next worker) shift
    back.state.scheduler.Halts asked ∧ back.begun = shift.begun ∧
      Each worker (ShopEvent.IsQuiet worker) pause shift := by
  induction pause generalizing shift with
  | nil => exact ⟨halts, rfl, trivial⟩
  | cons event rest ih =>
    obtain ⟨halts', cache⟩ := halts.next (silent event List.mem_cons_self) spares.1
    obtain ⟨halted, begun, quiet⟩ :=
      ih (fun event hevent => silent event (List.mem_cons_of_mem _ hevent)) halts' spares.2
    have none : (shift.next worker event).begun = shift.begun :=
      begun_next event (ShopEvent.notes_of_halts halts event)
    refine ⟨halted, begun.trans none, ?_, quiet⟩
    exact fun plain => congrArg Cache.statuses (cache plain)

/-- If no chunk changes while jobs stop, none waits for their places. -/
theorem spares_of_quiet {pause : List (ShopEvent τ ρ)} (disciplined : shift.Disciplined slots)
    (tame : worker.LeavesCache) (silent : ∀ event ∈ pause, event.isCall = false)
    (halts : shift.state.scheduler.Halts asked)
    (quiet : Each worker (ShopEvent.IsQuiet worker) pause shift) :
    Each worker (fun event shift => event.readmits worker shift.state = false) pause shift := by
  -- The first event that admits a chunk would change how it stands.
  induction pause generalizing shift with
  | nil => trivial
  | cons event rest ih =>
    have spares : event.readmits worker shift.state = false := by
      rw [Bool.eq_false_iff]
      intro readmits
      cases event with
      | work =>
        have staffed := disciplined.staffed
        have within : shift.state.scheduler.active.length ≤ shift.state.scheduler.limit :=
          staffed.slots.limit ▸ staffed.slots.length
        exact WorkshopAction.runNext_begins_again halts staffed.order within readmits
          (quiet.1 rfl)
      | _ => exact absurd readmits Bool.false_ne_true
    obtain ⟨halts', -⟩ := halts.next (silent event List.mem_cons_self) spares
    exact ⟨spares, ih (disciplined.next tame event)
      (fun event hevent => silent event (List.mem_cons_of_mem _ hevent)) halts' quiet.2⟩

end Shift

/-! ### After all work was stopped -/

/-- When all jobs that were told to stop have ended and those who waited for them go on, nothing is
left. -/
theorem Scheduler.Halts.isOver (halts : shop.scheduler.Halts asked) (jobs : shop.scheduler.Orderly)
    (ended : asked.all (WorkshopAction.hasEnded shop.scheduler) = true) :
    (leaves WorkshopAction.finishCancel shop).scheduler.IsOver := by
  let left : Workshop τ κ ω ρ := { shop with scheduler := shop.scheduler.forgetEnded }
  have nobody : left.scheduler.active = [] := by
    refine List.filter_eq_nil_iff.mpr fun job hjob => ?_
    have done := List.all_eq_true.mp ended job.id (halts.asked job hjob)
    simp [(Ebbs.hasEnded_iff jobs).mp done job hjob rfl]
  have finished : left.pumped.scheduler.IsOver := by
    rw [left.pumped_of_settled (.inl halts.queue)]
    refine ⟨halts.queue, nobody, ?_⟩
    have queue : left.scheduler.queue = [] := halts.queue
    simp [queue, nobody]
  exact finished

/-- When all work is over it stays so, and no worker begins, until somebody asks for a render. -/
theorem Scheduler.IsOver.next (finished : shop.scheduler.IsOver) (worker : Worker τ κ ω ρ)
    {event : ShopEvent τ ρ} (unasked : event.isQueue = false) :
    (leaves (event.action worker) shop).scheduler.IsOver ∧ event.notes worker shop = [] := by
  have reads : WorkshopAction.scheduler shop = .ok shop.scheduler shop := rfl
  have noJob (id : Nat) : shop.scheduler.job? id = none := by
    unfold job?
    rw [finished.active]
    rfl
  have same {next : Workshop τ κ ω ρ} (h : next = shop) : next.scheduler.IsOver := h ▸ finished
  cases event with
  | queue | queueEach => exact absurd unasked.symm Bool.false_ne_true
  | setUrgency index urgency =>
    -- Nobody is in the queue who could be moved.
    refine ⟨same ?_, rfl⟩
    rw [ShopEvent.action, leaves_discard, WorkshopAction.setUrgency, leaves_bind_of_ok reads,
      finished.queue]
    rfl
  | cancel index =>
    refine ⟨same ?_, rfl⟩
    rw [ShopEvent.action, leaves_discard, WorkshopAction.requestCancel, leaves_bind_of_ok reads,
      finished.queue, finished.active]
    rfl
  | stopAll => exact ⟨⟨rfl, List.map_eq_nil_iff.mpr finished.active, finished.idle⟩, rfl⟩
  | finishCancel =>
    let left : Workshop τ κ ω ρ := { shop with scheduler := shop.scheduler.forgetEnded }
    have nobody : left.scheduler.active = [] :=
      List.filter_eq_nil_iff.mpr fun job hjob => absurd (finished.active ▸ hjob) List.not_mem_nil
    have stays : left.pumped.scheduler.IsOver := by
      rw [left.pumped_of_settled (.inl finished.queue)]
      exact ⟨finished.queue, nobody, Bool.or_eq_true_iff.mpr (.inl finished.idle)⟩
    exact ⟨stays, rfl⟩
  | edit change =>
    refine ⟨?_, rfl⟩
    rw [ShopEvent.action, WorkshopAction.scheduler_onCache]
    exact finished
  | answer job reply =>
    rcases WorkshopAction.leaves_deliver job reply shop with unmet | ⟨job, hjob, -⟩
    · exact ⟨same unmet, rfl⟩
    · exact absurd (finished.active ▸ hjob) List.not_mem_nil
  | hurry place => exact ⟨⟨finished.queue, finished.active, finished.idle⟩, rfl⟩
  | work =>
    unfold ShopEvent.notes
    rw [ShopEvent.action, WorkshopAction.runNext, leaves_bind_of_ok reads]
    cases shop.scheduler.agenda with
    | nil => exact ⟨finished, rfl⟩
    | cons id rest =>
      dsimp only
      rw [noJob id]
      exact ⟨⟨finished.queue, finished.active, finished.idle⟩, rfl⟩

theorem Shift.over_foldl (worker : Worker τ κ ω ρ) {later : List (ShopEvent τ ρ)}
    (unasked : ∀ event ∈ later, event.isQueue = false) (finished : shift.state.scheduler.IsOver) :
    let after := later.foldl (next worker) shift
    after.state.scheduler.IsOver ∧ after.begun = shift.begun := by
  induction later generalizing shift with
  | nil => exact ⟨finished, rfl⟩
  | cons event rest ih =>
    obtain ⟨later, silent⟩ := finished.next worker (unasked event List.mem_cons_self)
    have finished' : (shift.next worker event).state.scheduler.IsOver := later
    obtain ⟨last, begun⟩ :=
      ih (fun event hevent => unasked event (List.mem_cons_of_mem _ hevent)) finished'
    refine ⟨last, begun.trans (begun_next event fun note hnote => ?_)⟩
    rw [silent] at hnote
    exact absurd hnote List.not_mem_nil

/-- After all jobs were told to stop and have ended, with no other call meanwhile, nothing waits and
nothing is rendered, those who wait for the end of all work may go on, and no worker begins until
somebody asks for a render; and no chunk changes but by edits — if no job has ended whose chunk had
been replaced by one that waits for a render, and only then. And the jobs do end. -/
theorem Shift.Reaches.stops_iff (tame : worker.LeavesCache) (new : shop.IsNew)
    (reached : Shift.Reaches worker ⟨shop, []⟩ shift) :
    let stopped := shift.next worker .stopAll
    let jobs := shift.state.scheduler.active
    (∀ pause : List (ShopEvent τ ρ), (∀ event ∈ pause, event.isCall = false) →
      let paused := pause.foldl (Shift.next worker) stopped
      (∀ job ∈ jobs, WorkshopAction.hasEnded paused.state.scheduler job.id = true) →
      (((∀ later : List (ShopEvent τ ρ), (∀ event ∈ later, event.isQueue = false) →
          let after := later.foldl (Shift.next worker) (paused.next worker .finishCancel)
          after.state.scheduler.IsOver ∧ after.begun = shift.begun) ∧
        Shift.Each worker (ShopEvent.IsQuiet worker) (.stopAll :: (pause ++ [.finishCancel]))
          shift) ↔
      Shift.Each worker (fun event shift => event.readmits worker shift.state = false) pause
        stopped)) ∧
    ∀ fuel, shift.state.scheduler.agenda.length + jobs.length ≤ fuel → ∃ count,
      let paused := stopped.working worker count
      WorkshopAction.stopAll worker fuel shift.state =
        .ok () (paused.next worker .finishCancel).state ∧
      ∀ job ∈ jobs, WorkshopAction.hasEnded paused.state.scheduler job.id = true := by
  intro stopped jobs
  have disciplined := reached.disciplined new.disciplined tame
  have disciplined' : stopped.Disciplined shop.scheduler.limit := disciplined.next tame .stopAll
  have halts : stopped.state.scheduler.Halts (jobs.map (·.id)) := .stopJobs shift.state.scheduler
  refine ⟨fun pause silent => ?_, fun fuel enough => ?_⟩
  · intro paused ended
    constructor
    · rintro ⟨-, -, quiet⟩
      exact Shift.spares_of_quiet disciplined' tame silent halts (Shift.each_append.mp quiet).1
    · intro spares
      obtain ⟨halted, begun, quiet⟩ := Shift.halts_foldl silent halts spares
      have order := (Shift.Reaches.disciplined (Leads.any pause stopped) disciplined'
        tame).staffed.order
      have finished : (paused.next worker .finishCancel).state.scheduler.IsOver := by
        refine halted.isOver order.jobs (List.all_eq_true.mpr fun id known => ?_)
        obtain ⟨job, hjob, rfl⟩ := List.mem_map.mp known
        exact ended job hjob
      refine ⟨fun later unasked => ?_, fun _ => rfl, Shift.each_append.mpr ⟨quiet, ?_, trivial⟩⟩
      · obtain ⟨last, since⟩ := Shift.over_foldl worker unasked finished
        have asking : stopped.begun = shift.begun := Shift.begun_next .stopAll nofun
        have going : (paused.next worker .finishCancel).begun = paused.begun :=
          Shift.begun_next .finishCancel nofun
        exact ⟨last, since.trans (going.trans (begun.trans asking))⟩
      · intro _
        exact congrArg Cache.statuses ((halted.next rfl rfl).2 rfl)
  · exact WorkshopAction.stopAll_returns tame disciplined (reached.dated new tame) enough

end Events

/-- The first of two places is rendered, and the second waits. -/
def TwoPlaces.turns : List (ShopEvent Double Bool) := [.queueEach [0, 1] .normal, .work]

/-- The job of the first place leaves its slot, and the second place gets none. -/
theorem two_places_stop :
    ∃ shift : Shift Double Unit Unit Bool,
      Shift.Reaches TwoPlaces.worker ⟨TwoPlaces.shop, []⟩ shift ∧
      shift.state.scheduler.active.map (·.index) = [0] ∧
      shift.state.scheduler.queue.map (·.index) = [1] ∧
      let events : List (ShopEvent Double Bool) := [.stopAll, .work, .finishCancel]
      let back := events.foldl (Shift.next TwoPlaces.worker) shift
      back.state.scheduler.IsOver ∧ back.begun = shift.begun ∧
      Shift.Each TwoPlaces.worker (ShopEvent.IsQuiet TwoPlaces.worker) events shift := by
  have reached : Shift.Reaches TwoPlaces.worker _ _ := Leads.any TwoPlaces.turns ⟨TwoPlaces.shop, []⟩
  obtain ⟨stops, -⟩ := reached.stops_iff TwoPlaces.worker_leavesCache TwoPlaces.shop_isNew
  have silent : ∀ event ∈ [(ShopEvent.work : ShopEvent Double Bool)], event.isCall = false :=
    List.forall_mem_singleton.mpr rfl
  obtain ⟨finished, quiet⟩ :=
    (stops [.work] silent (by decide +kernel)).mpr ⟨by decide +kernel, trivial⟩
  obtain ⟨last, begun⟩ := finished [] (List.forall_mem_nil _)
  exact ⟨_, reached, by decide +kernel, by decide +kernel, last, begun, quiet⟩

/-- The second of two places is rendered, and then it is cut anew. -/
def TwoPlaces.recut : List (ShopEvent Double Bool) :=
  [.queue 1 .normal, .work, .edit (.repartition (Double.ofRatio false 3 2))]

/-- All work is stopped, and then the chunk that was cut is rendered, though nobody asked for it. -/
theorem two_places_restart :
    ∃ shift : Shift Double Unit Unit Bool,
      Shift.Reaches TwoPlaces.worker ⟨TwoPlaces.shop, []⟩ shift ∧
      shift.state.store.cache.statuses = [.missing, .missing] ∧
      succeeds (WorkshopAction.stopAll TwoPlaces.worker 2) shift.state = true ∧
      let back := leaves (WorkshopAction.stopAll TwoPlaces.worker 2) shift.state
      back.scheduler.active.map (·.index) = [1] ∧ back.scheduler.idle = false ∧
      back.store.cache.statuses = [.missing, .rendering] := by
  have reached : Shift.Reaches TwoPlaces.worker _ _ := Leads.any TwoPlaces.recut ⟨TwoPlaces.shop, []⟩
  exact ⟨_, reached, by decide +kernel, by decide +kernel, by decide +kernel, by decide +kernel,
    by decide +kernel⟩

end Montage
