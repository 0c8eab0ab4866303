import Montage.Proofs.Chunk.Change
import Montage.Proofs.Runs
import Montage.Proofs.Schedule.Conclusion
import Montage.Proofs.Schedule.Refusal
import Montage.Proofs.Schedule.Steering

/-!
# One job for a place, and no more jobs than slots

A workshop changes by events in any order: chunks are queued, moved in the queue and cancelled, the
cache is cut anew or invalidated, and jobs go on. A diary notes when workers begin and end.

## Main definitions

* `ShopEvent` — what can happen, each with its action and with what the workers do in it
* `Annals.Reaches` — the workshops that events lead to, with an account of any kind
* `Shift.Reaches` — the workshops that events lead to, with their diaries
* `Separated` — no worker begins for a place before the others that began for it have ended

## Main results

* `Shift.Disciplined.next` — every event keeps the invariant
* `beginEach_eq_fill` — giving away slots begins renders, and none of them is refused
* `Shift.Reaches.exclusive` — what holds of the slots, the queue and the workers in every workshop
-/

namespace Montage

variable {τ κ ω ρ : Type}

/-! ### Diaries -/

/-- What the worker of a job does: it begins for a place, or it ends. -/
inductive WorkerNote where
  | begins (job place : Nat)
  | ends (job : Nat)
  deriving DecidableEq

/-- A worker that begins for a place finds those that began for it before at their end. -/
def Separated (diary : List WorkerNote) : Prop :=
  ∀ earlier between later job other place,
    diary = (earlier ++ .begins job place :: between) ++ .begins other place :: later →
    .ends job ∈ between

/-- The worker of a job has begun for a place, and has not ended since. -/
def AtWork (diary : List WorkerNote) (job place : Nat) : Prop :=
  ∃ earlier later, diary = earlier ++ .begins job place :: later ∧ .ends job ∉ later

section Diary

variable {diary : List WorkerNote} {job place : Nat}

theorem AtWork.of_begins {job' place' : Nat}
    (h : AtWork (diary ++ [.begins job place]) job' place') :
    (job' = job ∧ place' = place) ∨ AtWork diary job' place' := by
  obtain ⟨earlier, later, split, open'⟩ := h
  rcases split_of_append_singleton split with ⟨-, -, same⟩ | ⟨rest, rfl, before⟩
  · cases same
    exact .inl ⟨rfl, rfl⟩
  · refine .inr ⟨earlier, rest, before, fun ended => open' ?_⟩
    exact List.mem_append_left _ ended

theorem AtWork.of_ends {job' place' : Nat} (h : AtWork (diary ++ [.ends job]) job' place') :
    AtWork diary job' place' ∧ job' ≠ job := by
  obtain ⟨earlier, later, split, open'⟩ := h
  rcases split_of_append_singleton split with ⟨-, -, same⟩ | ⟨rest, rfl, before⟩
  · exact absurd same (by simp)
  · refine ⟨⟨earlier, rest, before, fun ended => open' (List.mem_append_left _ ended)⟩, ?_⟩
    rintro rfl
    exact open' (List.mem_append_right _ List.mem_cons_self)

theorem Separated.ends (h : Separated diary) : Separated (diary ++ [.ends job]) := by
  intro earlier between later first second place split
  rcases split_of_append_singleton split with ⟨-, -, same⟩ | ⟨rest, -, before⟩
  · exact absurd same (by simp)
  · exact h earlier between rest first second place before

/-- A worker may begin for a place for which nobody is at work. -/
theorem Separated.begins (h : Separated diary) (free : ∀ other, ¬AtWork diary other place) :
    Separated (diary ++ [.begins job place]) := by
  intro earlier between later first second place' split
  rcases split_of_append_singleton split with ⟨-, rfl, same⟩ | ⟨rest, -, before⟩
  · cases same
    by_contra unended
    exact free first ⟨earlier, between, rfl, unended⟩
  · exact h earlier between rest first second place' before

end Diary

/-! ### Events -/

/-- What can happen in a workshop. -/
inductive ShopEvent (τ ρ : Type) where
  | queue (index : Int) (urgency : Urgency)
  | queueEach (indices : List Int) (urgency : Urgency)
  | setUrgency (index : Int) (urgency : Urgency)
  /-- A chunk is taken off the queue, or its job is told to stop. -/
  | cancel (index : Int)
  /-- The queue is emptied, and all jobs are told to stop. -/
  | stopAll
  /-- Those who waited for jobs to stop go on. -/
  | finishCancel
  | edit (change : CacheChange τ)
  /-- What a job waits for is there. -/
  | answer (job : Nat) (answer : ρ)
  /-- Something that is due gets ahead of all else. -/
  | hurry (place : Nat)
  /-- What is due first is done. -/
  | work

section Events

variable [Scalar τ]

namespace ShopEvent

/-- What an event does. -/
def action (worker : Worker τ κ ω ρ) : ShopEvent τ ρ → WorkshopAction τ κ ω ρ Unit
  | .queue index urgency => do let _ ← WorkshopAction.queue index urgency
  | .queueEach indices urgency => do let _ ← WorkshopAction.queueEach indices urgency
  | .setUrgency index urgency => do let _ ← WorkshopAction.setUrgency index urgency
  | .cancel index => do let _ ← WorkshopAction.requestCancel index
  | .stopAll => do let _ ← WorkshopAction.requestStopAll
  | .finishCancel => WorkshopAction.finishCancel
  | .edit change => WorkshopAction.onCache change.action
  | .answer job reply => WorkshopAction.deliver job reply
  | .hurry place => WorkshopAction.hurry place
  | .work => WorkshopAction.runNext worker

end ShopEvent

/-- What the diary notes of a job before its worker does what is due. -/
def Job.beginning (job : Job τ ω ρ) : List WorkerNote :=
  match job.phase with
  | .due false => [.begins job.id job.index]
  | _ => []

/-- What the worker of a job does in its next step. -/
def Workshop.notes (worker : Worker τ κ ω ρ) (job : Job τ ω ρ) (shop : Workshop τ κ ω ρ) :
    List WorkerNote :=
  job.beginning ++
    match WorkshopAction.report? worker job shop with
    | .ok (some _) _ => [.ends job.id]
    | _ => []

/-- What the workers do in an event. -/
def ShopEvent.notes (worker : Worker τ κ ω ρ) (event : ShopEvent τ ρ)
    (shop : Workshop τ κ ω ρ) : List WorkerNote :=
  match event, shop.scheduler.agenda with
  | .work, id :: rest =>
    match shop.scheduler.job? id with
    | some job => { shop with scheduler := { shop.scheduler with agenda := rest } }.notes worker job
    | none => []
  | _, _ => []

/-- The diary, with what the workers do in an event. -/
def ShopEvent.note (worker : Worker τ κ ω ρ) (event : ShopEvent τ ρ) (shop : Workshop τ κ ω ρ)
    (diary : List WorkerNote) : List WorkerNote :=
  diary ++ event.notes worker shop

/-- Events in any order lead from one workshop to another, and are entered in an account. -/
def Annals.Reaches {α : Type} (worker : Worker τ κ ω ρ)
    (enter : ShopEvent τ ρ → Workshop τ κ ω ρ → α → α) :
    Annals (Workshop τ κ ω ρ) α → Annals (Workshop τ κ ω ρ) α → Prop :=
  Leads (Annals.next (fun event => leaves (event.action worker)) enter) fun _ => True

/-- A workshop and what its workers have done so far. -/
abbrev Shift (τ κ ω ρ : Type) := Annals (Workshop τ κ ω ρ) (List WorkerNote)

namespace Shift

/-- What an event leads to. -/
abbrev next (worker : Worker τ κ ω ρ) (shift : Shift τ κ ω ρ) (event : ShopEvent τ ρ) :
    Shift τ κ ω ρ :=
  Annals.next (fun event => leaves (event.action worker)) (ShopEvent.note worker) shift event

/-- Events in any order lead from one workshop to another, with their diaries. -/
abbrev Reaches (worker : Worker τ κ ω ρ) : Shift τ κ ω ρ → Shift τ κ ω ρ → Prop :=
  Annals.Reaches worker (ShopEvent.note worker)

end Shift

end Events

/-! ### The invariant -/

/-- No more jobs than slots, and a job for every worker that is at work. -/
structure Slots (slots : Nat) (diary : List WorkerNote) (scheduler : Scheduler τ ω ρ)
    (_ : Cache τ) : Prop where
  limit : scheduler.limit = slots
  length : scheduler.active.length ≤ slots
  working : ∀ job place, AtWork diary job place →
    ∃ held ∈ scheduler.active, held.id = job ∧ held.index = place ∧ held.kept? ≠ none

/-- A workshop whose jobs are in order and have slots. -/
structure Workshop.Staffed (slots : Nat) (diary : List WorkerNote) (shop : Workshop τ κ ω ρ) :
    Prop where
  order : InOrder shop.store.cache shop.scheduler
  slots : Slots slots diary shop.scheduler shop.store.cache

/-- A workshop whose jobs are in order and have slots, and whose workers never met at a place. -/
structure Shift.Disciplined (slots : Nat) (shift : Shift τ κ ω ρ) : Prop where
  staffed : shift.state.Staffed slots shift.account
  separated : Separated shift.account

section Invariant

variable {slots : Nat} {diary : List WorkerNote} {shop : Workshop τ κ ω ρ}

/-- A new job has a slot, and its worker has not begun. -/
theorem Slots.admits : Admits (Slots (τ := τ) (ω := ω) (ρ := ρ) slots diary) where
  idle _ _ _ h := ⟨h.limit, h.length, h.working⟩
  skip _ _ _ _ _ _ h _ := ⟨h.limit, h.length, h.working⟩
  enqueue _ _ _ h := ⟨h.limit, h.length, h.working⟩
  begin _ _ scheduler _ chunk _ _ room h _ _ := by
    refine ⟨h.limit, ?_, fun job place atWork => ?_⟩
    · have := h.limit
      simp only [Scheduler.addJob, List.length_append, List.length_singleton]
      omega
    · obtain ⟨held, hheld, known⟩ := h.working job place atWork
      exact ⟨held, List.mem_append_left _ hheld, known⟩

/-- Jobs that go on or leave, as long as those whose workers have begun stay. -/
theorem Slots.of_active {scheduler other : Scheduler τ ω ρ} {cache after : Cache τ}
    (h : Slots slots diary scheduler cache) (limit : other.limit = scheduler.limit)
    (length : other.active.length ≤ scheduler.active.length)
    (found : ∀ held ∈ scheduler.active, held.kept? ≠ none → ∃ held' ∈ other.active,
      held'.id = held.id ∧ held'.index = held.index ∧ held'.kept? ≠ none) :
    Slots slots diary other after := by
  refine ⟨limit.trans h.limit, Nat.le_trans length h.length, fun job place atWork => ?_⟩
  obtain ⟨held, hheld, rfl, rfl, begun⟩ := h.working job place atWork
  exact found held hheld begun

theorem Slots.of_cache {scheduler : Scheduler τ ω ρ} {cache after : Cache τ}
    (h : Slots slots diary scheduler cache) : Slots slots diary scheduler after :=
  ⟨h.limit, h.length, h.working⟩

theorem Workshop.Staffed.indifferent :
    Indifferent (Workshop.Staffed (τ := τ) (κ := κ) (ω := ω) (ρ := ρ) slots diary) where
  order _ h := h.order
  dequeue _ _ sub h := ⟨h.order.dequeue sub,
    h.slots.of_active rfl (Nat.le_refl _) fun held hheld begun => ⟨held, hheld, rfl, rfl, begun⟩⟩
  map shop next agenda same h := by
    constructor
    · exact (h.order.map fun job hjob => ⟨(same job hjob).id, (same job hjob).chunk⟩).of_eq rfl rfl rfl
    · refine h.slots.of_active rfl (Nat.le_of_eq (List.length_map _)) fun held hheld begun => ?_
      refine ⟨next held, List.mem_map_of_mem hheld, (same held hheld).id, ?_, ?_⟩
      · exact congrArg Chunk.index (same held hheld).chunk
      · rwa [(same held hheld).kept]
  release _ _ sub left h := ⟨h.order.release sub,
    h.slots.of_active rfl sub.length_le fun held hheld begun =>
      ⟨held, left held hheld begun, rfl, rfl, begun⟩⟩

section Keeps

variable [Scalar τ]

theorem Workshop.Staffed.keeps_pump :
    Keeps (Workshop.Staffed (τ := τ) (κ := κ) (ω := ω) (ρ := ρ) slots diary)
      WorkshopAction.pump := by
  intro shop h
  exact (Slots.admits.pump shop h.order h.slots).mono
    (fun _ _ hnext => ⟨hnext.1, hnext.2.1⟩) fun _ => False.elim

theorem Workshop.Staffed.keeps_queue (index : Int) (urgency : Urgency) :
    Keeps (Workshop.Staffed (τ := τ) (κ := κ) (ω := ω) (ρ := ρ) slots diary)
      (WorkshopAction.queue index urgency) := by
  intro shop h
  exact (Slots.admits.queue index urgency shop h.order h.slots).mono
    (fun _ _ hnext => ⟨hnext.1, hnext.2.1⟩) fun _ => False.elim

theorem Workshop.Staffed.keeps_setUrgency (index : Int) (urgency : Urgency) :
    Keeps (Workshop.Staffed (τ := τ) (κ := κ) (ω := ω) (ρ := ρ) slots diary)
      (WorkshopAction.setUrgency index urgency) := by
  intro shop h
  exact (Slots.admits.setUrgency index urgency (fun _ _ h => ⟨h.limit, h.length, h.working⟩) shop
    h.order h.slots).mono (fun _ _ hnext => ⟨hnext.1, hnext.2.1⟩) fun _ => False.elim

/-- Whatever is done to a cache, jobs that still have their chunks find them rendering. -/
theorem CacheChange.keeps_inOrder (change : CacheChange τ) (scheduler : Scheduler τ ω ρ) :
    Keeps (fun state => InOrder state.cache scheduler) change.action := by
  intro state h
  have kept {next : CacheState τ}
      (recut : ∃ settings, { state.cache with settings }.Recut next.cache) :
      InOrder next.cache scheduler := by
    obtain ⟨settings, recut⟩ := recut
    -- The settings are no part of what a job relies on.
    have changed : InOrder { state.cache with settings } scheduler := h.of_cache rfl rfl
    exact changed.recut recut
  exact (change.recuts state).mono (fun _ _ => kept) fun _ => kept

end Keeps

/-! ### Steps of jobs -/

section Step

variable {job : Job τ ω ρ}

/-- A worker begins where nobody is at work. -/
theorem Workshop.Staffed.beginning (h : shop.Staffed slots diary) (separated : Separated diary)
    (hjob : job ∈ shop.scheduler.active) :
    Separated (diary ++ job.beginning) ∧
      ∀ other place, AtWork (diary ++ job.beginning) other place →
        AtWork diary other place ∨ job.phase = .due false ∧ other = job.id ∧ place = job.index := by
  unfold Job.beginning
  split
  · next due =>
    constructor
    · -- Whoever is at work for this place has a job there, and this is the only one.
      apply separated.begins
      intro other atWork
      obtain ⟨held, hheld, -, place, begun⟩ := h.slots.working other job.index atWork
      obtain rfl := h.order.jobs.eq_of_index hheld hjob place
      exact begun (by simp [Job.kept?, due])
    · intro other place atWork
      rcases atWork.of_begins with new | old
      · exact .inr ⟨due, new⟩
      · exact .inl old
  · rw [List.append_nil]
    exact ⟨separated, fun other place => .inl⟩

/-- A job goes on. -/
theorem Workshop.Staffed.advance (h : shop.Staffed slots diary) (separated : Separated diary)
    (hjob : job ∈ shop.scheduler.active) {after : Job τ ω ρ} (advances : job.Advances after) :
    Slots slots (diary ++ job.beginning) (shop.scheduler.putJob after) shop.store.cache := by
  have length : (shop.scheduler.putJob after).active.length ≤ slots :=
    Nat.le_trans (Nat.le_of_eq (List.length_map _)) h.slots.length
  refine ⟨h.slots.limit, length, fun other place atWork => ?_⟩
  rcases (h.beginning separated hjob).2 other place atWork with old | ⟨due, rfl, rfl⟩
  · -- A worker that was at work before has another job, since this one had not begun.
    obtain ⟨held, hheld, id, index, begun⟩ := h.slots.working other place old
    have differ : held.id ≠ after.id := by
      intro same
      obtain rfl := h.order.jobs.eq_of_id hheld hjob (same.trans advances.same.1)
      exact begun advances.due
    exact ⟨held, List.mem_map.mpr ⟨held, hheld, if_neg differ⟩, id, index, begun⟩
  · refine ⟨after, List.mem_map.mpr ⟨job, hjob, if_pos advances.same.1.symm⟩, advances.same.1,
      congrArg Chunk.index advances.same.2, ?_⟩
    cases advances with
    | ended stopped => exact absurd (due.symm.trans stopped) (by simp)
    | waits _ kept => exact Option.some_ne_none kept

/-- A job ends and leaves its slot. -/
theorem Workshop.Staffed.leave (h : shop.Staffed slots diary) (separated : Separated diary)
    (hjob : job ∈ shop.scheduler.active) :
    Slots slots (diary ++ job.beginning ++ [.ends job.id]) (shop.scheduler.dropJob job.id)
      shop.store.cache := by
  refine ⟨h.slots.limit, ?_, fun other place atWork => ?_⟩
  · exact Nat.le_trans (shop.scheduler.dropJob_sublist job.id).length_le h.slots.length
  · obtain ⟨before, differ⟩ := atWork.of_ends
    rcases (h.beginning separated hjob).2 other place before with old | ⟨-, same, -⟩
    · obtain ⟨held, hheld, rfl, known⟩ := h.slots.working other place old
      exact ⟨held, List.mem_filter.mpr ⟨hheld, by simpa using differ⟩, rfl, known⟩
    · exact absurd same differ

variable [Scalar τ] {worker : Worker τ κ ω ρ}

/-- A job does what is due, and all that its worker does is noted. -/
theorem Workshop.Staffed.runJob (h : shop.Staffed slots diary) (separated : Separated diary)
    (tame : worker.LeavesCache) (hjob : job ∈ shop.scheduler.active) :
    Separated (diary ++ shop.notes worker job) ∧
      Ensures (WorkshopAction.runJob worker job) shop
        (fun _ next => next.Staffed slots (diary ++ shop.notes worker job))
        (fun next => next.Staffed slots (diary ++ shop.notes worker job)) := by
  have apart := (h.beginning separated hjob).1
  obtain ⟨outcome, middle, hrun, hcache, hstep⟩ :=
    (WorkshopAction.report?_spec tame job shop).exists_ok
  rw [WorkshopAction.runJob_eq, ensures_bind, ensures_of_ok hrun]
  unfold notes
  rw [hrun]
  cases outcome with
  | none =>
    dsimp only
    rw [List.append_nil]
    refine ⟨apart, ?_⟩
    rcases hstep with ⟨same, notDue⟩ | ⟨after, advances, put⟩
    · -- Nothing was due, so nothing is noted.
      have idle : job.beginning = [] := by
        unfold Job.beginning
        split
        · next due => exact absurd notDue (by simp [Job.isDue, due])
        · rfl
      rw [idle, List.append_nil]
      exact ⟨hcache ▸ same ▸ h.order, hcache ▸ same ▸ h.slots⟩
    · constructor
      · rw [hcache, put]
        exact h.order.putJob hjob advances.same.1 advances.same.2
      · rw [hcache, put]
        exact h.advance separated hjob advances
  | some outcome =>
    dsimp only
    rw [← List.append_assoc]
    refine ⟨apart.ends, ?_⟩
    -- The worker ends before its slot can be given to another one.
    have gone := h.leave separated hjob
    have left : Workshop.Under middle.shared
        (Slots slots (diary ++ job.beginning ++ [.ends job.id]))
        { middle with scheduler := middle.scheduler.dropJob job.id } := by
      refine ⟨rfl, ?_, ?_⟩
      · rw [hcache, hstep.1]
        exact h.order.release (shop.scheduler.dropJob_sublist job.id)
      · rw [hcache, hstep.1]
        exact gone
    have free : ∀ other ∈ (middle.scheduler.dropJob job.id).active, other.index ≠ job.index := by
      rw [hstep.1]
      exact fun other => h.order.jobs.index_ne_of_dropJob hjob
    -- Whatever is recorded, jobs and slots do not depend on it.
    have records : Records (Slots slots (diary ++ job.beginning ++ [.ends job.id]))
        (middle.scheduler.dropJob job.id) middle.store.cache job.index outcome :=
      ⟨fun _ _ _ _ => left.holds.of_cache, fun _ _ _ => left.holds.of_cache⟩
    apply Ensures.tryCatch
    refine (Slots.admits.ending (fun _ => True) (fun _ _ _ => trivial) trivial left free
      fun _ => records).mono ?_ ?_
    · rintro - next ⟨shared, -, hnext⟩
      exact ⟨hnext.order, hnext.holds⟩
    · rintro next ⟨shared, -, hnext⟩ -
      exact ⟨hnext.order, hnext.holds⟩

end Step

/-! ### All events -/

section Next

variable [Scalar τ] {worker : Worker τ κ ω ρ} {first shift : Shift τ κ ω ρ}

/-- Nothing but a step of a job makes workers begin or end, and all else keeps jobs in order. -/
theorem ShopEvent.keeps_staffed (event : ShopEvent τ ρ) (pause : event ≠ .work) :
    Keeps (Workshop.Staffed slots diary) (event.action worker) := by
  have dropped {α : Type} {action : WorkshopAction τ κ ω ρ α}
      (keeps : Keeps (Workshop.Staffed slots diary) action) :
      Keeps (Workshop.Staffed slots diary) (do let _ ← action) :=
    keeps.bind fun _ => Keeps.pure
  have indifferent : Indifferent fun shop : Workshop τ κ ω ρ => shop.Staffed slots diary :=
    Workshop.Staffed.indifferent
  cases event with
  | queue index urgency => exact dropped (Workshop.Staffed.keeps_queue index urgency)
  | queueEach indices urgency =>
    exact dropped (Keeps.filterM indices fun index _ => Workshop.Staffed.keeps_queue index urgency)
  | setUrgency index urgency => exact dropped (Workshop.Staffed.keeps_setUrgency index urgency)
  | cancel index => exact dropped (indifferent.keeps_requestCancel Workshop.Staffed.keeps_pump index)
  | stopAll => exact dropped indifferent.keeps_requestStopAll
  | finishCancel => exact indifferent.keeps_finishCancel Workshop.Staffed.keeps_pump
  | edit change =>
    intro shop h
    apply WorkshopAction.ensures_onCache.mpr
    exact (change.keeps_inOrder shop.scheduler shop.store h.order).mono
      (fun _ _ order => ⟨order, h.slots.of_cache⟩) fun _ order => ⟨order, h.slots.of_cache⟩
  | answer job reply => exact indifferent.keeps_deliver job reply
  | hurry place => exact indifferent.keeps_hurry place
  | work => exact absurd rfl pause

/-- What is due first is done, and all that its worker does is noted. -/
theorem Workshop.Staffed.runNext (h : shop.Staffed slots diary) (separated : Separated diary)
    (tame : worker.LeavesCache) :
    Separated (diary ++ ShopEvent.work.notes worker shop) ∧
      Ensures (WorkshopAction.runNext worker) shop
        (fun _ next => next.Staffed slots (diary ++ ShopEvent.work.notes worker shop))
        (fun next => next.Staffed slots (diary ++ ShopEvent.work.notes worker shop)) := by
  unfold WorkshopAction.runNext ShopEvent.notes
  rw [ensures_bind, WorkshopAction.ensures_scheduler]
  cases shop.scheduler.agenda with
  | nil =>
    dsimp only
    rw [List.append_nil]
    exact ⟨separated, h⟩
  | cons id rest =>
    dsimp only
    rw [ensures_bind, WorkshopAction.ensures_setScheduler]
    have waiting := Workshop.Staffed.indifferent.redate rest h
    cases hjob : shop.scheduler.job? id with
    | none =>
      dsimp only
      rw [List.append_nil]
      exact ⟨separated, waiting⟩
    | some job => exact waiting.runJob separated tame (List.mem_of_find?_eq_some hjob)

/-- Every event keeps a workshop in order, its jobs in slots and its workers apart. -/
theorem Shift.Disciplined.next (h : shift.Disciplined slots) (tame : worker.LeavesCache)
    (event : ShopEvent τ ρ) : (shift.next worker event).Disciplined slots := by
  by_cases pause : event = .work
  · subst pause
    obtain ⟨separated, staffed⟩ := h.staffed.runNext h.separated tame
    exact ⟨staffed.leaves, separated⟩
  · -- Without a step of a job no worker begins or ends.
    have silent : event.notes worker shift.state = [] := by
      unfold ShopEvent.notes
      split
      · exact absurd rfl pause
      · rfl
    unfold Shift.next Annals.next ShopEvent.note
    rw [silent, List.append_nil]
    exact ⟨(event.keeps_staffed pause).leaves h.staffed, h.separated⟩

/-- A workshop before its first event: its chunks stand at their places, and nothing is rendered or
waits for it. -/
structure Workshop.IsNew (shop : Workshop τ κ ω ρ) : Prop where
  chunks : shop.store.cache.Orderly
  queue : shop.scheduler.queue = []
  active : shop.scheduler.active = []

omit [Scalar τ] in
theorem Workshop.IsNew.disciplined (new : shop.IsNew) :
    Shift.Disciplined shop.scheduler.limit ⟨shop, []⟩ := by
  have noJob {job : Job τ ω ρ} (hjob : job ∈ shop.scheduler.active) : False := by
    simp [new.active] at hjob
  have nothing {earlier later : List WorkerNote} {note : WorkerNote} :
      [] ≠ earlier ++ note :: later := by simp
  refine ⟨⟨⟨new.chunks, ⟨?_, fun _ h => (noJob h).elim, ?_, ?_, fun _ h => (noJob h).elim⟩,
    fun _ h => (noJob h).elim, fun _ h => (noJob h).elim, fun _ h => (noJob h).elim⟩,
    rfl, ?_, ?_⟩, ?_⟩
  · simp [new.active]
  · simp [new.active]
  · simp [new.queue]
  · simp [new.active]
  · rintro job place ⟨earlier, later, split, -⟩
    exact absurd split nothing
  · intro earlier between later job other place split
    exact absurd split nothing

theorem Shift.Reaches.disciplined (reached : Shift.Reaches worker first shift)
    (h : first.Disciplined slots) (tame : worker.LeavesCache) : shift.Disciplined slots :=
  Leads.keeps (Shift.Disciplined slots) reached h fun _ event _ _ h => h.next tame event

/-- In every workshop that events lead to there are no more jobs than slots, no place is twice in the
queue or among the jobs, no worker has begun for a place while another was at work for it, and a job
that still has its chunk finds it rendering. So no chunk is refused the status that it is to have,
neither when a slot is given away nor in the step of a job. -/
theorem Shift.Reaches.exclusive (tame : worker.LeavesCache) (new : shop.IsNew)
    (reached : Shift.Reaches worker ⟨shop, []⟩ shift) :
    shift.state.scheduler.active.length ≤ shop.scheduler.limit ∧
    (shift.state.scheduler.queue.map (·.index) ++
      shift.state.scheduler.active.map fun job => (job.index : Int)).Nodup ∧
    Separated shift.account ∧
    (∀ job ∈ shift.state.scheduler.active, ∀ chunk ∈ shift.state.store.cache.chunks,
      chunk.serial = job.chunk.serial → chunk.status = .rendering) ∧
    (∀ job ∈ shift.state.scheduler.active, ∀ agenda,
      FailsOnly (WorkshopAction.attempt worker job)
        { shift.state with scheduler := { shift.state.scheduler with agenda } }
        fun failure => ¬failure.IsRefusal) ∧
    ∀ other : Workshop τ κ ω ρ, Ensures (WorkshopAction.beginEach other.scheduler.queue) other
      (fun _ next => (next.scheduler, next.store.cache) =
        Scheduler.fill other.scheduler.queue other.scheduler other.store.cache)
      (fun _ => False) := by
  obtain ⟨⟨order, slots⟩, separated⟩ := reached.disciplined new.disciplined tame
  have owned (job : Job τ ω ρ) (hjob : job ∈ shift.state.scheduler.active) (chunk : Chunk τ)
      (hchunk : chunk ∈ shift.state.store.cache.chunks) (same : chunk.serial = job.chunk.serial) :
      chunk.status = .rendering := (order.owned job hjob chunk hchunk same).1
  have places : (shift.state.scheduler.queue.map (·.index) ++
      shift.state.scheduler.active.map fun job => (job.index : Int)).Nodup := by
    refine List.nodup_append.mpr ⟨order.jobs.entries, ?_, ?_⟩
    · have injective : Function.Injective fun place : Nat => (place : Int) :=
        fun _ _ same => Int.ofNat.inj same
      have distinct := order.jobs.slots.map injective
      rwa [List.map_map] at distinct
    · intro place queued place' held
      obtain ⟨entry, hentry, rfl⟩ := List.mem_map.mp queued
      obtain ⟨job, hjob, rfl⟩ := List.mem_map.mp held
      exact order.jobs.apart job hjob entry hentry
  refine ⟨slots.length, places, separated, owned, fun job hjob agenda => ?_, fun other => ?_⟩
  · exact WorkshopAction.attempt_refuses_nothing tame (owned job hjob)
  · exact WorkshopAction.beginEach_eq_fill other.scheduler.queue other

end Next

end Invariant

/-! ### Two places and one slot -/

namespace TwoPlaces

/-- A chunk of one second. -/
def chunk (index : Nat) : Chunk Double where
  serial := index
  index := index
  start := Scalar.whole index
  stop := Scalar.whole (index + 1)

def day : Timestamp := { year := 2024, month := 1, day := 1, hour := 0, minute := 0, second := 0 }

/-- Two chunks that are rendered one by one. -/
def shop : Workshop Double Unit Unit Bool where
  store := {
    cache := {
      folder := Path.ofText "cache", chunkDuration := Scalar.whole 1, settings := {}
      totalDuration := Scalar.whole 2, chunks := [chunk 0, chunk 1], nextSerial := 2
      createdAt := day }
    disk := { now := day } }
  scheduler := { limit := 1 }
  shared := ()

theorem shop_isNew : shop.IsNew where
  chunks := by
    constructor
    · intro i chunk hchunk
      match i with
      | 0 => exact (congrArg Chunk.index (Option.some.inj hchunk)).symm
      | 1 => exact (congrArg Chunk.index (Option.some.inj hchunk)).symm
      | _ + 2 => exact absurd hchunk (by simp [shop])
    · decide
    · decide
    · intro chunk hchunk g begun
      have idle : ∀ chunk ∈ shop.store.cache.chunks, chunk.renderGeneration = none := by decide
      exact absurd begun (by simp [idle chunk hchunk])
  queue := rfl
  active := rfl

/-- A worker that waits to be told whether it succeeds. -/
def worker : Worker Double Unit Unit Bool where
  begin _ := return .waits ()
  resume _ _ success := return { success, outputPath := some "cache/out.mp4" }

theorem worker_leavesCache : worker.LeavesCache :=
  ⟨fun _ _ => Keeps.pure, fun _ _ _ _ => Keeps.pure⟩

/-- Both chunks are queued, the first is rendered, and the second begins. -/
def events : List (ShopEvent Double Bool) :=
  [.queueEach [0, 1] .normal, .work, .answer 0 true, .work, .work]

end TwoPlaces

/-- Two places take turns when there is one slot. -/
theorem two_places_take_turns :
    ∃ shift : Shift Double Unit Unit Bool,
      Shift.Reaches TwoPlaces.worker ⟨TwoPlaces.shop, []⟩ shift ∧
      shift.account = [.begins 0 0, .ends 0, .begins 1 1] ∧ Separated shift.account ∧
      shift.state.scheduler.active.map (·.id) = [1] ∧ shift.state.scheduler.active.length ≤ 1 := by
  have reached : Shift.Reaches TwoPlaces.worker _ _ :=
    Leads.any TwoPlaces.events ⟨TwoPlaces.shop, []⟩
  obtain ⟨length, -, separated, -⟩ :=
    reached.exclusive TwoPlaces.worker_leavesCache TwoPlaces.shop_isNew
  exact ⟨_, reached, by decide +kernel, separated, by decide +kernel, length⟩

end Montage
