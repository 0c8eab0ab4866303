import Montage.Proofs.Schedule.Exclusion

/-!
# What an event does to the queue and to the slots

An event changes the queue or the list of jobs in one of few ways, and then the free slots are given
away or they are not. There is one lemma for each action that says in which ways, and what holds of
the queue and of the slots along all events is read off these lemmas.

## Main definitions

* `Workshop.pumped`, `Workshop.admitting` — a workshop after its slots were given away, and with a
  chunk admitted to its queue
* `Workshop.queuesAgain` — whether the place of a job is queued again at its end
* `Ends` — what the end of a job leads to
* `Works` — what a step of the job that is due first leads to

## Main results

* `WorkshopAction.queue_cases`, `WorkshopAction.setUrgency_cases`,
  `WorkshopAction.requestCancel_cases`, `WorkshopAction.runNext_works`
* `Annals.Reaches.keeps` — what every event keeps holds of every workshop that events lead to
-/

namespace Montage

variable {τ κ ω ρ : Type}

/-- A place is in the queue or has a job, so that it is not admitted to the queue. -/
def Scheduler.serves (scheduler : Scheduler τ ω ρ) (index : Int) : Bool :=
  scheduler.hasJob index || (scheduler.queue.entryOf? index).isSome

theorem Scheduler.serves_iff {scheduler : Scheduler τ ω ρ} {index : Int} :
    scheduler.serves index = true ↔ (∃ job ∈ scheduler.active, (job.index : Int) = index) ∨
      ∃ entry ∈ scheduler.queue, entry.index = index := by
  rw [serves, Bool.or_eq_true, hasJob_iff, RenderQueue.entryOf?_isSome]

section Free

variable {scheduler : Scheduler τ ω ρ} {index : Int} (free : scheduler.serves index = false)

include free

/-- No job is for a place that is not served. -/
theorem Scheduler.job_index_ne : ∀ job ∈ scheduler.active, (job.index : Int) ≠ index :=
  fun job hjob here => Bool.eq_false_iff.mp free (serves_iff.mpr (.inl ⟨job, hjob, here⟩))

/-- No entry of the queue is for a place that is not served. -/
theorem Scheduler.entry_index_ne : ∀ entry ∈ scheduler.queue, entry.index ≠ index :=
  fun entry hentry here => Bool.eq_false_iff.mp free (serves_iff.mpr (.inr ⟨entry, hentry, here⟩))

end Free

/-- A job that leaves its slot leaves its place to others. -/
theorem Scheduler.Orderly.free_of_dropJob {scheduler : Scheduler τ ω ρ}
    (orderly : scheduler.Orderly) {job : Job τ ω ρ} (hjob : job ∈ scheduler.active) :
    (scheduler.dropJob job.id).serves job.index = false := by
  rw [Bool.eq_false_iff, ne_eq, serves_iff]
  rintro (⟨other, hother, here⟩ | ⟨entry, hentry, here⟩)
  · exact orderly.index_ne_of_dropJob hjob hother (Int.ofNat.inj here)
  · exact orderly.apart job hjob entry hentry here

namespace Workshop

/-- The workshop with an entry added to its queue. -/
def admitting (shop : Workshop τ κ ω ρ) (entry : QueueEntry) : Workshop τ κ ω ρ :=
  { shop with scheduler := { shop.scheduler with
      queue := shop.scheduler.queue.enqueue entry, idle := false } }

/-- The workshop without the entry of a place in its queue, while all work is not at its end. -/
def withdrawing (shop : Workshop τ κ ω ρ) (index : Int) : Workshop τ κ ω ρ :=
  { shop with scheduler := { shop.scheduler with
      queue := shop.scheduler.queue.drop index, idle := false } }

/-- The workshop with the slot of a job free. -/
def without (shop : Workshop τ κ ω ρ) (job : Job τ ω ρ) : Workshop τ κ ω ρ :=
  { shop with scheduler := shop.scheduler.dropJob job.id }

/-- The workshop with another list of what is due. -/
def redated (shop : Workshop τ κ ω ρ) (agenda : List Nat) : Workshop τ κ ω ρ :=
  { shop with scheduler := { shop.scheduler with agenda } }

end Workshop

/-- A place that is not served is admitted. -/
theorem InOrder.admitting {shop : Workshop τ κ ω ρ} {entry : QueueEntry}
    (order : InOrder shop.store.cache shop.scheduler)
    (free : shop.scheduler.serves entry.index = false) :
    InOrder (shop.admitting entry).store.cache (shop.admitting entry).scheduler := by
  refine (order.enqueue (fun job hjob here => ?_) fun other hother here => ?_).of_eq rfl rfl rfl
  · exact Scheduler.job_index_ne free job hjob here.symm
  · exact Scheduler.entry_index_ne free other hother here

/-! ### Giving away slots -/

section Pumped

variable [Scalar τ]

/-- Slots are given away until there is none left or nothing to give them to. -/
theorem Scheduler.fill_settled (queue : RenderQueue) (scheduler : Scheduler τ ω ρ)
    (cache : Cache τ) : (fill queue scheduler cache).1.queue = [] ∨
      (fill queue scheduler cache).1.limit ≤ (fill queue scheduler cache).1.active.length := by
  -- The cases of `fill`: the queue is empty, the slots are taken, or the first entry is passed over or
  -- gets a slot, and the rest of the queue is gone through.
  fun_induction fill queue scheduler cache with
  | case1 => exact .inl rfl
  | case2 _ _ _ _ full => exact .inr full
  | case3 _ _ _ _ _ _ _ ih => exact ih
  | case4 _ _ _ _ _ _ _ _ ih => exact ih
  | case5 _ _ _ _ _ _ _ _ ih => exact ih

theorem Scheduler.fill_idle (queue : RenderQueue) (scheduler : Scheduler τ ω ρ)
    (cache : Cache τ) : (fill queue scheduler cache).1.idle = scheduler.idle := by
  fun_induction fill queue scheduler cache with
  | case1 | case2 => rfl
  | case3 _ _ _ _ _ _ _ ih => exact ih
  | case4 _ _ _ _ _ _ _ _ ih => exact ih
  | case5 _ _ _ _ _ _ _ _ ih => exact ih

/-- Without a slot or an entry nothing changes. -/
theorem Scheduler.fill_of_settled {queue : RenderQueue} {scheduler : Scheduler τ ω ρ}
    (settled : queue = [] ∨ scheduler.limit ≤ scheduler.active.length) (cache : Cache τ) :
    fill queue scheduler cache = ({ scheduler with queue }, cache) := by
  cases queue with
  | nil => rfl
  | cons entry rest =>
    unfold fill
    rw [if_pos (settled.resolve_left (List.cons_ne_nil _ _))]

/-- The workshop after its free slots were given away. -/
def Workshop.pumped (shop : Workshop τ κ ω ρ) : Workshop τ κ ω ρ :=
  { shop with
    scheduler := (shop.scheduler.pump shop.store.cache).1
    store := { shop.store with cache := (shop.scheduler.pump shop.store.cache).2 } }

theorem WorkshopAction.ensures_pump {shop : Workshop τ κ ω ρ}
    {returns : Unit → Workshop τ κ ω ρ → Prop} {fails : Workshop τ κ ω ρ → Prop} :
    Ensures pump shop returns fails ↔ returns () shop.pumped := Iff.rfl

namespace Workshop

variable (shop : Workshop τ κ ω ρ)

theorem pumped_settled : shop.pumped.scheduler.queue = [] ∨
    shop.pumped.scheduler.limit ≤ shop.pumped.scheduler.active.length :=
  Scheduler.fill_settled _ _ _

/-- All work is at its end if it was before, or if nothing is left of it. -/
theorem pumped_idle : shop.pumped.scheduler.idle = true ↔ shop.scheduler.idle = true ∨
    shop.pumped.scheduler.queue = [] ∧ shop.pumped.scheduler.active = [] := by
  simp [pumped, Scheduler.pump, Scheduler.fill_idle]

/-- Where no slot can be given away, nothing changes but whether all work is at its end. -/
theorem pumped_of_settled (settled : shop.scheduler.queue = [] ∨
      shop.scheduler.limit ≤ shop.scheduler.active.length) :
    shop.pumped = { shop with scheduler := { shop.scheduler with
      idle := shop.scheduler.idle ||
        (shop.scheduler.queue.isEmpty && shop.scheduler.active.isEmpty) } } := by
  unfold pumped Scheduler.pump
  rw [Scheduler.fill_of_settled settled]

/-- Giving away slots twice does no more than doing it once. -/
theorem pumped_pumped : shop.pumped.pumped = shop.pumped := by
  rw [pumped_of_settled shop.pumped shop.pumped_settled]
  have same : (shop.pumped.scheduler.idle ||
      (shop.pumped.scheduler.queue.isEmpty && shop.pumped.scheduler.active.isEmpty)) =
      shop.pumped.scheduler.idle := by
    simp only [pumped, Scheduler.pump, Bool.or_assoc, Bool.or_self]
  rw [same]

end Workshop

theorem Pumps.pumped {holds : Scheduler τ ω ρ → Cache τ → Prop} (pumps : Pumps holds)
    {shop : Workshop τ κ ω ρ} (order : InOrder shop.store.cache shop.scheduler)
    (h : holds shop.scheduler shop.store.cache) :
    InOrder shop.pumped.store.cache shop.pumped.scheduler ∧
      holds shop.pumped.scheduler shop.pumped.store.cache := by
  obtain ⟨order, h, -⟩ := WorkshopAction.ensures_pump.mp (pumps.pump shop order h)
  exact ⟨order, h⟩

end Pumped

/-! ### The ways of each action -/

namespace WorkshopAction

variable [Scalar τ] {shop : Workshop τ κ ω ρ}

/-- A chunk is admitted, and slots are given away, or its place is served already. -/
theorem queue_cases (index : Int) (urgency : Urgency) (shop : Workshop τ κ ω ρ) :
    Ensures (queue index urgency) shop
      (fun admitted next =>
        admitted = false ∧ shop.scheduler.serves index = true ∧ next = shop ∨
        admitted = true ∧ shop.scheduler.serves index = false ∧
          next = (shop.admitting ⟨index, urgency⟩).pumped)
      (fun _ => False) := by
  unfold queue
  rw [ensures_bind, ensures_scheduler]
  split
  · next served => exact .inl ⟨rfl, served, rfl⟩
  · next free => exact .inr ⟨rfl, Bool.eq_false_iff.mpr free, rfl⟩

/-- A chunk is moved in the queue, and slots are given away, or there is no need to move it. -/
theorem setUrgency_cases (index : Int) (urgency : Urgency)
    (order : InOrder shop.store.cache shop.scheduler) :
    Ensures (setUrgency index urgency) shop
      (fun moved next =>
        moved = false ∧ next = shop ∧ (∀ entry ∈ shop.scheduler.queue,
          entry.index = index → entry.urgency = urgency) ∨
        moved = true ∧
          (∃ entry ∈ shop.scheduler.queue, entry.index = index ∧ entry.urgency ≠ urgency) ∧
          (shop.withdrawing index).scheduler.serves index = false ∧
          next = ((shop.withdrawing index).admitting ⟨index, urgency⟩).pumped)
      (fun _ => False) := by
  unfold setUrgency
  rw [ensures_bind, ensures_scheduler]
  split
  · next absent =>
    refine .inl ⟨rfl, rfl, fun entry hentry here => ?_⟩
    exact absurd here (by simpa using List.find?_eq_none.mp absent entry hentry)
  · next entry found =>
    have hentry := List.mem_of_find?_eq_some found
    have place : entry.index = index := by simpa using List.find?_some found
    split
    · next same =>
      refine .inl ⟨rfl, rfl, fun other hother here => ?_⟩
      rw [List.inj_on_of_nodup_map order.jobs.entries hother hentry (here.trans place.symm), same]
    · next other =>
      rw [ensures_bind, ensures_setScheduler]
      -- The place was in the queue, so it has no job, and it was there only once.
      have free : (shop.withdrawing index).scheduler.serves index = false := by
        rw [Bool.eq_false_iff, ne_eq, Scheduler.serves_iff]
        rintro (⟨job, hjob, here⟩ | ⟨other, hother, here⟩)
        · exact order.jobs.apart job hjob entry hentry (place.trans here.symm)
        · exact RenderQueue.not_mem_drop order.jobs.entries hother here
      refine (queue_cases index urgency (shop.withdrawing index)).mono ?_ fun _ => id
      rintro moved next (⟨rfl, served, rfl⟩ | ⟨rfl, -, rfl⟩)
      · exact absurd served (Bool.eq_false_iff.mp free)
      · exact .inr ⟨rfl, ⟨entry, hentry, place, other⟩, free, rfl⟩

/-- An entry leaves the queue, and slots are given away, or a job is told to stop, or there is nothing
to cancel. -/
theorem requestCancel_cases (index : Int) (shop : Workshop τ κ ω ρ) :
    Ensures (requestCancel index) shop
      (fun step next =>
        (shop.scheduler.queue.entryOf? index).isSome = true ∧ step = .answers true ∧
          next = Workshop.pumped { shop with scheduler := { shop.scheduler with
            queue := shop.scheduler.queue.drop index } } ∨
        (shop.scheduler.queue.entryOf? index).isSome = false ∧
          (step = .answers false ∧ next = shop ∨
          ∃ job ∈ shop.scheduler.active, step = .awaits [job.id] ∧
            next = { shop with scheduler := shop.scheduler.stopJob job }))
      (fun _ => False) := by
  unfold requestCancel
  rw [ensures_bind, ensures_scheduler]
  split
  · next waits => exact .inl ⟨waits, rfl, rfl⟩
  · next absent =>
    have absent := Bool.eq_false_iff.mpr absent
    split
    · exact .inr ⟨absent, .inl ⟨rfl, rfl⟩⟩
    · next job found => exact .inr ⟨absent, .inr ⟨job, List.mem_of_find?_eq_some found, rfl, rfl⟩⟩

end WorkshopAction

/-! ### The end of a job -/

section Ends

variable [Scalar τ]

/-- Whether a place has a chunk that is not valid, so that it is given a slot when its turn comes. -/
def Cache.needsJob (cache : Cache τ) (index : Int) : Bool :=
  (cache.get index).toOption.any (·.status ≠ .valid)

omit [Scalar τ] in
theorem Cache.needsJob_of_get {cache : Cache τ} {index : Int} {chunk : Chunk τ}
    (found : cache.get index = .ok chunk) : cache.needsJob index = decide (chunk.status ≠ .valid) := by
  rw [needsJob, found]
  rfl

omit [Scalar τ] in
/-- The end of a render makes no difference to the other places. -/
theorem Cache.Concludes.needsJob_of_ne {before after : Cache τ} {place : Nat}
    {leads : Chunk τ → Chunk τ → Prop} (ends : before.Concludes after place leads)
    (orderly : before.Orderly) {index : Int} (away : index ≠ place) :
    after.needsJob index = before.needsJob index := by
  rcases ends with rfl | ⟨old, new, found, concluded, -, rfl⟩
  · rfl
  · unfold needsJob
    rw [orderly.get_put_of_ne (Cache.mem_of_get found) concluded.serial]
    rw [orderly.index_of_get found]
    exact away.symm

/-- A chunk was rendered, and its file is there. -/
def RenderOutcome.isRendered (outcome : RenderOutcome) : Bool :=
  !outcome.cancelled && outcome.success && (outcome.outputPath.filter (· ≠ "")).isSome

/-- Whether the place of a job that has left its slot is queued again: its chunk was invalidated while
it was rendered, or it was dropped, and the chunk that stands there now waits for a render. If what the
job did cannot be recorded, its place is not queued. -/
def Workshop.queuesAgain (job : Job τ ω ρ) (outcome : RenderOutcome) (left : Workshop τ κ ω ρ) : Bool :=
  match left.store.cache.get job.index with
  | .error _ => false
  | .ok chunk =>
    if chunk.serial = job.chunk.serial then
      outcome.isRendered && chunk.renderGeneration ≠ some chunk.generation &&
        succeeds (WorkshopAction.record job.index outcome) left
    else chunk.status.needsRender && succeeds (WorkshopAction.removeOutput outcome) left

/-- What recording the end of a job at a place leads to, from where its slot is free, and whether the
place is queued again. -/
inductive Recorded (place : Nat) (left : Workshop τ κ ω ρ) : Bool → Workshop τ κ ω ρ → Prop where
  | plain {next : Workshop τ κ ω ρ} (same : next.scheduler = left.scheduler)
      (order : InOrder next.store.cache next.scheduler)
      (needs : ∀ index : Int, index ≠ place →
        next.store.cache.needsJob index = left.store.cache.needsJob index) :
      Recorded place left false next
  /-- The chunk at the place is queued, and slots are given away. -/
  | again {middle : Workshop τ κ ω ρ} {chunk : Chunk τ} (same : middle.scheduler = left.scheduler)
      (order : InOrder middle.store.cache middle.scheduler)
      (needs : middle.store.cache.needsJob = left.store.cache.needsJob)
      (found : middle.store.cache.get place = .ok chunk)
      (waits : chunk.status.needsRender = true) :
      Recorded place left true (middle.admitting ⟨place, .normal⟩).pumped

/-- What the end of a job at a place leads to, from where its slot is free: whether the place is queued
again, and whether the end comes about without a failure. -/
inductive Ends (place : Nat) (left : Workshop τ κ ω ρ) : Bool → Bool → Workshop τ κ ω ρ → Prop where
  /-- A failure comes before any slot is given away. -/
  | lost {next : Workshop τ κ ω ρ} (same : next.scheduler = left.scheduler)
      (order : InOrder next.store.cache next.scheduler) : Ends place left false false next
  | given {middle : Workshop τ κ ω ρ} (same : middle.scheduler = left.scheduler)
      (order : InOrder middle.store.cache middle.scheduler)
      (needs : ∀ index : Int, index ≠ place →
        middle.store.cache.needsJob index = left.store.cache.needsJob index) :
      Ends place left false true middle.pumped
  /-- The chunk at the place is queued, and slots are given away, whatever goes wrong later. -/
  | again {middle : Workshop τ κ ω ρ} {chunk : Chunk τ} (returned : Bool)
      (same : middle.scheduler = left.scheduler)
      (order : InOrder middle.store.cache middle.scheduler)
      (needs : middle.store.cache.needsJob = left.store.cache.needsJob)
      (found : middle.store.cache.get place = .ok chunk)
      (waits : chunk.status.needsRender = true) :
      Ends place left true returned (middle.admitting ⟨place, .normal⟩).pumped

namespace Recorded

variable {place : Nat} {left next : Workshop τ κ ω ρ} {queued : Bool}

/-- What the workers share plays no part. -/
theorem tell (h : Recorded place left queued next) (shared : κ) :
    Recorded place left queued { next with shared } := by
  cases h with
  | plain same order needs => exact .plain same order needs
  | @again middle chunk same order needs found waits =>
    let told : Workshop τ κ ω ρ := { middle with shared }
    have again : Recorded place left true (told.admitting ⟨place, .normal⟩).pumped :=
      .again same order needs found waits
    exact again

/-- A failure to tell of the chunk comes before the slots are given away, if not for the chunk. -/
theorem fails (h : Recorded place left queued next) : Ends place left queued false next := by
  cases h with
  | plain same order => exact .lost same order
  | again same order needs found waits => exact .again false same order needs found waits

theorem pumped (h : Recorded place left queued next) : Ends place left queued true next.pumped := by
  cases h with
  | plain same order needs => exact .given same order needs
  | again same order needs found waits =>
    rw [Workshop.pumped_pumped]
    exact .again true same order needs found waits

end Recorded

namespace WorkshopAction

variable {left : Workshop τ κ ω ρ} {job : Job τ ω ρ}

/-- The place of a job that left its slot is free for another one. -/
theorem queue_again {place : Nat} (middle : Workshop τ κ ω ρ) {chunk : Chunk τ}
    (free : left.scheduler.serves place = false) (same : middle.scheduler = left.scheduler)
    (order : InOrder middle.store.cache middle.scheduler)
    (needs : middle.store.cache.needsJob = left.store.cache.needsJob)
    (found : middle.store.cache.get place = .ok chunk) (waits : chunk.status.needsRender = true) :
    Ensures (queue place .normal) middle (fun _ next => Recorded place left true next)
      (fun _ => False) := by
  refine (queue_cases place .normal middle).mono ?_ fun _ => id
  rintro admitted next (⟨-, served, -⟩ | ⟨-, -, rfl⟩)
  · rw [same, free] at served
    exact absurd served Bool.false_ne_true
  · exact .again same order needs found waits

/-- A chunk that was rendered is recorded, and queued again if it was invalidated meanwhile. -/
theorem finish_records (order : InOrder left.store.cache left.scheduler)
    (free : left.scheduler.serves job.index = false) {chunk : Chunk τ}
    (found : left.store.cache.get job.index = .ok chunk) (path : String)
    (contentHash : Option String) (isComplex : Option Bool) :
    Ensures (do
        let ended ← onCache (CacheAction.finishRender job.index path contentHash isComplex)
        if ended.status = .stale then
          let _ ← queue job.index) left
      (fun _ next => Recorded job.index left (chunk.renderGeneration ≠ some chunk.generation) next)
      (fun next => Ends job.index left false false next) := by
  have away := Scheduler.job_index_ne free
  rw [ensures_bind, ensures_onCache]
  refine ((CacheAction.finishRender_spec _ _ _ _ _).and
    (CacheAction.finishRender_returns _ _ _ _ _)).mono ?_ ?_
  · rintro ended store ⟨ends, -, old, found', busy, outdated, serial, -, put⟩
    obtain rfl := Except.ok.inj (found.symm.trans found')
    have order' : InOrder store.cache left.scheduler := order.concludes ends away
    have here : store.cache.get job.index = .ok ended := put ▸ Cache.get_put found serial
    split
    · next stale =>
      -- The chunk was invalidated while it was rendered, so that it waits and is admitted.
      have needs : store.cache.needsJob = left.store.cache.needsJob := by
        funext index
        by_cases same : index = job.index
        · rw [same, Cache.needsJob_of_get here, Cache.needsJob_of_get found, stale, busy]
          rfl
        · exact ends.needsJob_of_ne order.chunks same
      rw [ensures_bind, decide_eq_true (outdated.mp stale)]
      exact (queue_again { left with store } free rfl order' needs here (by rw [stale]; rfl)).mono
        (fun _ _ => id) fun _ => False.elim
    · next current =>
      rw [decide_eq_false fun other => current (outdated.mpr other)]
      exact .plain rfl order' fun index => ends.needsJob_of_ne order.chunks
  · rintro store ⟨ends, -⟩
    exact .lost rfl (order.concludes ends away)

/-- What a job did is recorded, and its chunk is queued again if it was invalidated meanwhile. -/
theorem record_records (order : InOrder left.store.cache left.scheduler)
    (free : left.scheduler.serves job.index = false) {chunk : Chunk τ}
    (found : left.store.cache.get job.index = .ok chunk) (own : chunk.serial = job.chunk.serial)
    (outcome : RenderOutcome) :
    Ensures (record job.index outcome) left
      (fun _ next => Recorded job.index left (left.queuesAgain job outcome) next)
      (fun next => Ends job.index left (left.queuesAgain job outcome) false next) := by
  have away := Scheduler.job_index_ne free
  have again : left.queuesAgain job outcome = (outcome.isRendered &&
      decide (chunk.renderGeneration ≠ some chunk.generation) &&
        succeeds (record job.index outcome) left) := by
    simp only [Workshop.queuesAgain, found, if_pos own]
  rw [again]
  suffices records : Ensures (record job.index outcome) left
      (fun _ next => Recorded job.index left (outcome.isRendered &&
        decide (chunk.renderGeneration ≠ some chunk.generation)) next)
      (fun next => Ends job.index left false false next) by
    refine records.known.mono ?_ ?_
    · rintro - next ⟨returned, recorded⟩
      rwa [returned, Bool.and_true]
    · rintro next ⟨failed, ends⟩
      rwa [failed, Bool.and_false]
  unfold record RenderOutcome.isRendered
  split
  · next cancelled =>
    rw [cancelled]
    exact .plain rfl order fun _ _ => rfl
  · next real =>
    rw [Bool.eq_false_iff.mpr real]
    dsimp only
    split
    · next path success written =>
      rw [success, written]
      exact finish_records order free found path outcome.contentHash outcome.isComplex
    · next unfinished =>
      have never : (outcome.success && (outcome.outputPath.filter (· ≠ "")).isSome) = false := by
        cases success : outcome.success with
        | false => rfl
        | true =>
          cases written : outcome.outputPath.filter (· ≠ "") with
          | none => rfl
          | some path => exact absurd written (unfinished path success)
      rw [Bool.not_false, Bool.true_and, never, ensures_bind, ensures_onCache]
      refine (CacheAction.failRender_spec _ _ _ _).mono ?_ ?_
      · exact fun _ store ends => .plain rfl (order.concludes ends away)
          fun index => ends.needsJob_of_ne order.chunks
      · exact fun store ends => .lost rfl (order.concludes ends away)

/-- A file is removed, and the chunk that has the place now is queued if it waits for a render. -/
theorem discard_records (order : InOrder left.store.cache left.scheduler)
    (free : left.scheduler.serves job.index = false) (outcome : RenderOutcome)
    (dropped : (left.store.cache.get job.index).toOption.map (·.serial) ≠ some job.chunk.serial) :
    Ensures (discard outcome (left.store.cache.get job.index).toOption) left
      (fun _ next => Recorded job.index left (left.queuesAgain job outcome) next)
      (fun next => Ends job.index left (left.queuesAgain job outcome) false next) := by
  unfold discard
  rw [ensures_bind]
  refine (removeOutput_spec outcome left).known.mono ?_ ?_
  · rintro - _ ⟨removes, disk, rfl⟩
    let removed : Workshop τ κ ω ρ := { left with store := { left.store with disk } }
    unfold queueNew Workshop.queuesAgain
    cases found : left.store.cache.get job.index with
    | error cause => exact .plain rfl order fun _ _ => rfl
    | ok chunk =>
      have other : chunk.serial ≠ job.chunk.serial := fun same =>
        dropped (by rw [found, ← same]; rfl)
      dsimp only [Except.toOption]
      rw [if_neg other, removes, Bool.and_true]
      split
      · next waits =>
        rw [ensures_bind, order.chunks.index_of_get found, waits]
        exact (queue_again removed free rfl order rfl found waits).mono (fun _ _ => id)
          fun _ => False.elim
      · next settled =>
        rw [Bool.eq_false_iff.mpr settled]
        exact .plain rfl order fun _ _ => rfl
  · rintro next ⟨stuck, same⟩
    have never : left.queuesAgain job outcome = false := by
      unfold Workshop.queuesAgain
      split
      · rfl
      · next chunk found =>
        have other : chunk.serial ≠ job.chunk.serial := fun same =>
          dropped (by rw [found, ← same]; rfl)
        rw [if_neg other, stuck, Bool.and_false]
    rw [never]
    exact .lost (same ▸ rfl) (same ▸ order)

/-- However the end of a job goes, it is one of the ways of `Ends`. -/
theorem complete_ends {shop : Workshop τ κ ω ρ}
    (order : InOrder shop.store.cache shop.scheduler) (hjob : job ∈ shop.scheduler.active)
    (worker : Worker τ κ ω ρ) (outcome : RenderOutcome) :
    let again := (shop.without job).queuesAgain job outcome
    Ensures (complete worker job outcome) shop
      (fun _ next => Ends job.index (shop.without job) again true next)
      (fun next => Ends job.index (shop.without job) again false next) := by
  intro again
  have order' : InOrder (shop.without job).store.cache (shop.without job).scheduler :=
    order.release (shop.scheduler.dropJob_sublist job.id)
  have free : (shop.without job).scheduler.serves job.index = false :=
    order.jobs.free_of_dropJob hjob
  unfold complete conclude
  rw [ensures_bind, ensures_scheduler, ensures_bind, ensures_setScheduler, ensures_bind, ensures_get]
  dsimp only
  -- The chunk of the job still stands at its place, or another one does and the render is of no use.
  split
  · next own =>
    obtain ⟨chunk, found, own⟩ := Option.map_eq_some_iff.mp own
    have found : (shop.without job).store.cache.get job.index = .ok chunk := by
      change (shop.store.cache.get job.index).toOption = some chunk at found
      change shop.store.cache.get job.index = .ok chunk
      cases held : shop.store.cache.get job.index with
      | error cause => simp [held, Except.toOption] at found
      | ok other => rw [held] at found; exact congrArg _ (Option.some.inj found)
    rw [ensures_bind]
    refine (record_records order' free found own outcome).mono ?_ fun _ => id
    intro _ recorded hrecorded
    rw [ensures_bind, ensures_get]
    split
    · next chunk _ =>
      have told := hrecorded.tell (worker.notify chunk recorded.shared)
      rw [ensures_bind]
      refine (tell_spec worker chunk recorded).mono ?_ ?_
      · rintro - _ rfl
        exact told.pumped
      · rintro _ rfl
        exact told.fails
    · exact hrecorded.pumped
  · next dropped =>
    rw [ensures_bind]
    exact (discard_records order' free outcome dropped).mono (fun _ _ hnext => hnext.pumped)
      fun _ => id

end WorkshopAction

end Ends

/-! ### The step of a job -/

section Works

variable [Scalar τ]

/-- A job, if its worker comes to its end in its next step. -/
def Workshop.endsOf (worker : Worker τ κ ω ρ) (job : Job τ ω ρ) (shop : Workshop τ κ ω ρ) :
    Option (Job τ ω ρ) :=
  match WorkshopAction.report? worker job shop with
  | .ok (some _) _ => some job
  | _ => none

/-- The job whose worker comes to its end when what is due first is done. -/
def Workshop.endsNext (worker : Worker τ κ ω ρ) (shop : Workshop τ κ ω ρ) :
    Option (Job τ ω ρ) :=
  match shop.scheduler.agenda with
  | [] => none
  | id :: rest => (shop.scheduler.job? id).bind fun job => (shop.redated rest).endsOf worker job

/-- Whether the place of a job is queued again in its next step. -/
def Workshop.againOf (worker : Worker τ κ ω ρ) (job : Job τ ω ρ) (shop : Workshop τ κ ω ρ) : Bool :=
  match WorkshopAction.report? worker job shop with
  | .ok (some outcome) middle => (middle.without job).queuesAgain job outcome
  | _ => false

/-- Whether the place of a job is queued again when what is due first is done. -/
def Workshop.againNext (worker : Worker τ κ ω ρ) (shop : Workshop τ κ ω ρ) : Bool :=
  match shop.scheduler.agenda with
  | [] => false
  | id :: rest => (shop.scheduler.job? id).any fun job => (shop.redated rest).againOf worker job

/-- What doing what is due first leads to, by the job whose worker comes to its end, by whether its place
is queued again, and by whether its end comes about without a failure. -/
inductive Works (shop : Workshop τ κ ω ρ) :
    Option (Job τ ω ρ) → Bool → Bool → Workshop τ κ ω ρ → Prop where
  /-- Nothing was due but what no job is to do. -/
  | rests {next : Workshop τ κ ω ρ}
      (settled : ∀ job ∈ shop.scheduler.active, shop.scheduler.agenda.head? = some job.id →
        job.isDue = false)
      (scheduler : next.scheduler =
        { shop.scheduler with agenda := shop.scheduler.agenda.tail })
      (cache : next.store.cache = shop.store.cache) : Works shop none false true next
  | advances {next : Workshop τ κ ω ρ} {job after : Job τ ω ρ}
      (hjob : job ∈ shop.scheduler.active) (first : shop.scheduler.agenda.head? = some job.id)
      (advances : job.Advances after)
      (scheduler : next.scheduler =
        { shop.scheduler.putJob after with agenda := shop.scheduler.agenda.tail })
      (cache : next.store.cache = shop.store.cache) : Works shop none false true next
  | ends {middle next : Workshop τ κ ω ρ} {job : Job τ ω ρ} {again returned : Bool}
      (hjob : job ∈ shop.scheduler.active) (first : shop.scheduler.agenda.head? = some job.id)
      (scheduler : middle.scheduler =
        { shop.scheduler with agenda := shop.scheduler.agenda.tail })
      (cache : middle.store.cache = shop.store.cache)
      (ends : Ends job.index (middle.without job) again returned next) :
      Works shop (some job) again returned next

namespace WorkshopAction

variable {worker : Worker τ κ ω ρ} {shop : Workshop τ κ ω ρ} {job : Job τ ω ρ}

theorem runJob_works (tame : worker.LeavesCache) (order : InOrder shop.store.cache shop.scheduler)
    (hjob : job ∈ shop.scheduler.active) (first : shop.scheduler.agenda.head? = some job.id) :
    let due := shop.redated shop.scheduler.agenda.tail
    let works := Works shop (due.endsOf worker job) (due.againOf worker job)
      (succeeds (attempt worker job) due)
    Ensures (runJob worker job) due (fun _ => works) works := by
  intro due works
  obtain ⟨outcome, middle, hrun, hcache, hstep⟩ := (report?_spec tame job due).exists_ok
  have ended : due.endsOf worker job = if outcome.isSome then some job else none := by
    unfold Workshop.endsOf
    rw [hrun]
    cases outcome <;> rfl
  have again : due.againOf worker job = outcome.any ((middle.without job).queuesAgain job ·) := by
    unfold Workshop.againOf
    rw [hrun]
    cases outcome <;> rfl
  have attempted : succeeds (attempt worker job) due = succeeds (match outcome with
      | some outcome => complete worker job outcome
      | none => pure ()) middle := by
    unfold attempt
    rw [succeeds_bind_of_ok hrun]
    cases outcome <;> rfl
  rw [runJob_eq, ensures_bind, ensures_of_ok hrun]
  cases outcome with
  | none =>
    have silent : works = Works shop none false true := by
      simp only [works, ended, again, attempted]
      rfl
    rw [silent]
    rcases hstep with ⟨same, settled⟩ | ⟨after, advances, put⟩
    · refine .rests (fun other hother first' => ?_) same hcache
      have id := Option.some.inj (first'.symm.trans first)
      rw [order.jobs.eq_of_id hother hjob id, settled]
    · exact .advances hjob first advances put hcache
  | some outcome =>
    have ends : works = Works shop (some job) ((middle.without job).queuesAgain job outcome)
        (succeeds (complete worker job outcome) middle) := by
      simp only [works, ended, again, attempted]
      rfl
    have order' : InOrder middle.store.cache middle.scheduler := by
      rw [hcache, hstep.1]
      exact order.of_eq rfl rfl rfl
    have hjob' : job ∈ middle.scheduler.active := hstep.1 ▸ hjob
    rw [ends]
    -- `known` keeps which way it went, since a failure is caught and does not show any more.
    apply Ensures.tryCatch
    refine (complete_ends order' hjob' worker outcome).known.mono ?_ ?_
    · rintro - next ⟨returned, hends⟩
      rw [returned]
      exact .ends hjob first hstep.1 hcache hends
    · rintro next ⟨failed, hends⟩ -
      rw [failed]
      exact Works.ends hjob first hstep.1 hcache hends

/-- Doing what is due first is one of the ways of `Works`. -/
theorem runNext_works (tame : worker.LeavesCache)
    (order : InOrder shop.store.cache shop.scheduler) :
    Works shop (shop.endsNext worker) (shop.againNext worker) (succeeds (attemptNext worker) shop)
      (leaves (runNext worker) shop) := by
  let works := Works shop (shop.endsNext worker) (shop.againNext worker)
    (succeeds (attemptNext worker) shop)
  have runs : Ensures (runNext worker) shop (fun _ => works) works := by
    have reads : scheduler shop = .ok shop.scheduler shop := rfl
    unfold works runNext attemptNext Workshop.endsNext Workshop.againNext
    rw [ensures_bind, ensures_of_ok reads, succeeds_bind_of_ok reads]
    cases agenda : shop.scheduler.agenda with
    | nil =>
      refine .rests (fun job _ first => ?_) ?_ rfl
      · rw [agenda] at first
        exact absurd first (by simp)
      · rw [agenda, List.tail_nil, ← agenda]
    | cons id rest =>
      have redated : setScheduler { shop.scheduler with agenda := rest } shop =
        .ok () (shop.redated rest) := rfl
      have tail : rest = shop.scheduler.agenda.tail := by rw [agenda, List.tail_cons]
      dsimp only
      rw [ensures_bind, ensures_of_ok redated, succeeds_bind_of_ok redated]
      cases found : shop.scheduler.job? id with
      | none =>
        -- The job that was due has left its slot since.
        refine .rests (fun job hjob first => ?_) (by rw [← tail]; rfl) rfl
        have absent := List.find?_eq_none.mp found job hjob
        rw [agenda, List.head?_cons] at first
        exact absurd (Option.some.inj first).symm (by simpa using absent)
      | some job =>
        have hjob := List.mem_of_find?_eq_some found
        have here : job.id = id := by simpa using List.find?_some found
        have first : shop.scheduler.agenda.head? = some job.id := by
          rw [agenda, List.head?_cons, here]
        subst tail
        exact runJob_works tame order hjob first
  exact runs.leaves

end WorkshopAction

end Works

/-! ### Events with an account of them -/

namespace Annals.Reaches

variable {α : Type} [Scalar τ] {worker : Worker τ κ ω ρ}
  {enter : ShopEvent τ ρ → Workshop τ κ ω ρ → α → α} {first annals : Annals (Workshop τ κ ω ρ) α}

/-- The jobs of every workshop that events lead to are in order and have slots. -/
theorem staffed (reached : Reaches worker enter first annals) (new : first.state.IsNew)
    (tame : worker.LeavesCache) :
    ∃ diary, annals.state.Staffed first.state.scheduler.limit diary := by
  obtain ⟨diary, reached⟩ := leads_of_leads reached (ShopEvent.note worker) []
  have shifted : Shift.Reaches worker ⟨first.state, []⟩ ⟨annals.state, diary⟩ := reached
  exact ⟨diary, (shifted.disciplined new.disciplined tame).staffed⟩

/-- What every event keeps in a workshop in order holds of every workshop that events lead to, and of its
account. -/
theorem keeps {holds : Annals (Workshop τ κ ω ρ) α → Prop}
    (reached : Reaches worker enter first annals) (new : first.state.IsNew)
    (tame : worker.LeavesCache) (h : holds first)
    (step : ∀ (annals : Annals (Workshop τ κ ω ρ) α) diary event,
      annals.state.Staffed first.state.scheduler.limit diary → holds annals →
      holds (annals.next (fun event => leaves (event.action worker)) enter event)) : holds annals := by
  refine Leads.keeps holds reached h fun annals event before _ h => ?_
  obtain ⟨diary, staffed⟩ := staffed before new tame
  exact step annals diary event staffed h

end Annals.Reaches

end Montage
