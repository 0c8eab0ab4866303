import Montage.Proofs.Schedule.Turn
import Montage.Schedule.Run

/-!
# Waiting for jobs to stop

Whatever a job is to do is on the agenda, and what is on the agenda is done from the front. So a job
that was told to stop has ended when as many things were done as were due when it was told, and waiting
for it comes to an end.

## Main definitions

* `Scheduler.Dated` — the jobs that have something to do are on the agenda
* `Scheduler.Ebbs` — the jobs that were told to stop will have ended after a number of steps

## Main results

* `Shift.Reaches.dated` — every workshop that events lead to is dated
* `Scheduler.Ebbs.work` — every step of a job brings the end nearer
* `WorkshopAction.stopAll_returns` — all jobs that were told to stop come to their end
-/

namespace Montage

variable {τ κ ω ρ : Type}

/-- A job takes the place of the one that it was. -/
theorem Scheduler.mem_putJob {scheduler : Scheduler τ ω ρ} {job other : Job τ ω ρ}
    (h : other ∈ (scheduler.putJob job).active) :
    other = job ∨ other ∈ scheduler.active ∧ other.id ≠ job.id := by
  obtain ⟨before, hbefore, rfl⟩ := List.mem_map.mp h
  split
  · exact .inl rfl
  · next differ => exact .inr ⟨hbefore, differ⟩

/-! ### The agenda -/

/-- Every job that has something to do is on the agenda. -/
def Scheduler.Dated (scheduler : Scheduler τ ω ρ) : Prop :=
  ∀ job ∈ scheduler.active, job.isDue = true → job.id ∈ scheduler.agenda

namespace Scheduler.Dated

variable {scheduler other : Scheduler τ ω ρ}

/-- Fewer jobs, and more on the agenda. -/
theorem mono (h : scheduler.Dated) (active : other.active ⊆ scheduler.active)
    (agenda : scheduler.agenda ⊆ other.agenda) : other.Dated :=
  fun job hjob due => agenda (h job (active hjob) due)

theorem admits : Admits fun (scheduler : Scheduler τ ω ρ) (_ : Cache τ) => scheduler.Dated where
  idle _ _ _ h := h
  skip _ _ _ _ _ _ h _ := h
  enqueue _ _ _ h := h
  begin _ _ _ _ _ _ _ _ h _ _ := by
    intro job hjob due
    rcases mem_addJob.mp hjob with hjob | rfl
    · exact List.mem_append_left _ (h job hjob due)
    · exact List.mem_append_right _ List.mem_cons_self

/-- A job that stops has something to do unless it has ended before, and then it is on the agenda. -/
theorem stop (h : scheduler.Dated) {job : Job τ ω ρ} (hjob : job ∈ scheduler.active)
    (due : job.stop.1.isDue = true) :
    job.id ∈ scheduler.agenda ∨ job.stop.2 = true := by
  cases hphase : job.phase with
  | waiting kept => exact .inr (by simp [Job.stop, hphase])
  | ended => exact absurd due (by simp [Job.stop, Job.isDue, hphase])
  | due stop => exact .inl (h job hjob (by simp [Job.isDue, hphase]))
  | answered kept answer => exact .inl (h job hjob (by simp [Job.isDue, hphase]))
  | stopping kept => exact .inl (h job hjob (by simp [Job.isDue, hphase]))

/-- Jobs that are told to stop are put on the agenda, unless they are there. -/
theorem stopJobs (h : scheduler.Dated) : scheduler.stopJobs.Dated := by
  intro stopped hstopped due
  obtain ⟨job, hjob, rfl⟩ := List.mem_map.mp hstopped
  rw [job.same_stop.id]
  rcases h.stop hjob due with there | new
  · exact List.mem_append_left _ there
  · exact List.mem_append_right _ (List.mem_map_of_mem (List.mem_filter.mpr ⟨hjob, new⟩))

theorem stopJob (h : scheduler.Dated) {job : Job τ ω ρ} (hjob : job ∈ scheduler.active) :
    (scheduler.stopJob job).Dated := by
  intro other hother due
  have place : other = job.stop.1 ∨ other ∈ scheduler.active ∧ other.id ≠ job.stop.1.id :=
    mem_putJob hother
  rcases place with rfl | ⟨hother, -⟩
  · rw [job.same_stop.id]
    rcases h.stop hjob due with there | new
    · exact List.mem_append_left _ there
    · have called : job.id ∈ if job.stop.2 then [job.id] else [] := by
        rw [if_pos new]
        exact List.mem_cons_self
      exact List.mem_append_right _ called
  · exact List.mem_append_left _ (h other hother due)

/-- An answer puts the job that gets it on the agenda. -/
theorem answer (h : scheduler.Dated) {meets : Job τ ω ρ → Bool} {answer : ρ}
    (answered : scheduler.answer? meets answer = some other) : other.Dated := by
  unfold Scheduler.answer? at answered
  obtain ⟨job, -, step⟩ := Option.bind_eq_some_iff.mp answered
  split at step
  · obtain rfl := Option.some.inj step
    intro next hnext due
    rcases mem_putJob hnext with rfl | ⟨hnext, -⟩
    · exact List.mem_append_right _ List.mem_cons_self
    · exact List.mem_append_left _ (h next hnext due)
  · exact absurd step (by simp)

end Scheduler.Dated

/-- What stands on the agenda behind what is done first. -/
theorem mem_tail_of_ne {agenda : List Nat} {id : Nat} (h : id ∈ agenda)
    (behind : agenda.head? ≠ some id) : id ∈ agenda.tail := by
  cases agenda with
  | nil => exact absurd h List.not_mem_nil
  | cons first rest =>
    exact (List.mem_cons.mp h).resolve_left fun same => behind (same ▸ rfl)

theorem mem_take_tail_of_ne {agenda : List Nat} {id steps : Nat}
    (h : id ∈ agenda.take (steps + 1)) (behind : agenda.head? ≠ some id) :
    id ∈ agenda.tail.take steps := by
  cases agenda with
  | nil => exact absurd h List.not_mem_nil
  | cons first rest =>
    exact (List.mem_cons.mp h).resolve_left fun same => behind (same ▸ rfl)

section Events

variable [Scalar τ] {worker : Worker τ κ ω ρ} {shop : Workshop τ κ ω ρ} {slots : Nat}
  {diary : List WorkerNote}

/-- What holds when the slot of a job is free, and survives admission, holds after its end. -/
theorem Ends.admits {holds : Scheduler τ ω ρ → Cache τ → Prop} (admits : Admits holds)
    {place : Nat} {left next : Workshop τ κ ω ρ} {again returned : Bool}
    (ends : Ends place left again returned next) (free : left.scheduler.serves place = false)
    (h : ∀ cache, holds left.scheduler cache) : holds next.scheduler next.store.cache := by
  cases ends with
  | lost same order => exact same ▸ h _
  | given same order => exact (admits.toPumps.pumped order (same ▸ h _)).2
  | @again middle chunk _ same order _ _ _ =>
    refine (admits.toPumps.pumped (order.admitting (same ▸ free)) ?_).2
    exact admits.idle _ _ _ (admits.enqueue _ _ _ (same ▸ h _))

namespace Workshop

/-- The step of a job keeps all others on the agenda that have something to do. -/
theorem dated_work (h : shop.scheduler.Dated) (order : InOrder shop.store.cache shop.scheduler)
    (tame : worker.LeavesCache) : (leaves (WorkshopAction.runNext worker) shop).scheduler.Dated := by
  have works := WorkshopAction.runNext_works tame order
  revert works
  generalize leaves (WorkshopAction.runNext worker) shop = next
  generalize shop.endsNext worker = ended
  generalize shop.againNext worker = again
  generalize succeeds (WorkshopAction.attemptNext worker) shop = returned
  rintro (⟨settled, scheduler, -⟩ | @⟨_, before, after, hjob, first, advances, scheduler, -⟩ |
    @⟨middle, _, job, _, _, hjob, first, scheduler, -, ends⟩)
  · intro job hjob due
    rw [scheduler] at hjob ⊢
    refine mem_tail_of_ne (h job hjob due) fun first => ?_
    exact absurd due (by simp [settled job hjob first])
  · intro job hjob due
    rw [scheduler] at hjob ⊢
    rcases Scheduler.mem_putJob hjob with rfl | ⟨hjob, differ⟩
    · cases advances <;> exact absurd due Bool.false_ne_true
    · refine mem_tail_of_ne (h job hjob due) fun first' => differ ?_
      exact (Option.some.inj (first'.symm.trans first)).trans advances.same.1.symm
  · have left : (middle.without job).scheduler.Dated := by
      rw [without, scheduler]
      intro other hother due
      obtain ⟨hother, differ⟩ := List.mem_filter.mp hother
      refine mem_tail_of_ne (h other hother due) fun first' => ?_
      exact absurd (Option.some.inj (first'.symm.trans first)) (by simpa using differ)
    refine ends.admits Scheduler.Dated.admits ?_ fun _ => left
    rw [without, scheduler]
    exact order.jobs.free_of_dropJob hjob

/-- Every event keeps the jobs on the agenda that have something to do. -/
theorem dated_next (h : shop.scheduler.Dated) (staffed : shop.Staffed slots diary)
    (tame : worker.LeavesCache) (event : ShopEvent τ ρ) :
    (leaves (event.action worker) shop).scheduler.Dated := by
  have under : shop.Under shop.shared fun scheduler _ => scheduler.Dated :=
    ⟨rfl, staffed.order, h⟩
  cases event with
  | queue index urgency =>
    rw [ShopEvent.action, leaves_discard]
    exact (Scheduler.Dated.admits.keeps_queue.leaves under).holds
  | queueEach indices urgency =>
    rw [ShopEvent.action, leaves_discard]
    exact ((Keeps.filterM indices fun _ _ => Scheduler.Dated.admits.keeps_queue).leaves under).holds
  | setUrgency index urgency =>
    rw [ShopEvent.action, leaves_discard]
    obtain ⟨_, -, -, dated, -⟩ := (Scheduler.Dated.admits.toPumps.setUrgency index urgency
      (fun _ _ h => h) shop staffed.order h).exists_value
    exact dated
  | cancel index =>
    obtain ⟨step, -, ways⟩ := (WorkshopAction.requestCancel_cases index shop).exists_value
    rw [ShopEvent.action, leaves_discard]
    rcases ways with ⟨-, -, same⟩ | ⟨-, ⟨-, same⟩ | ⟨job, hjob, -, same⟩⟩
    · let dropped : Workshop τ κ ω ρ := { shop with scheduler := { shop.scheduler with
        queue := shop.scheduler.queue.drop index } }
      have order : InOrder dropped.store.cache dropped.scheduler :=
        staffed.order.dequeue (RenderQueue.drop_sublist shop.scheduler.queue index)
      rw [same]
      exact (Scheduler.Dated.admits.toPumps.pumped order h).2
    · rw [same]
      exact h
    · rw [same]
      exact h.stopJob hjob
  | stopAll => exact h.stopJobs
  | finishCancel =>
    let released : Workshop τ κ ω ρ := { shop with scheduler := shop.scheduler.forgetEnded }
    have order : InOrder released.store.cache released.scheduler :=
      staffed.order.release List.filter_sublist
    have dated : released.scheduler.Dated :=
      h.mono (List.filter_sublist.subset) (List.Subset.refl _)
    exact (Scheduler.Dated.admits.toPumps.pumped order dated).2
  | edit change =>
    rw [ShopEvent.action, WorkshopAction.scheduler_onCache]
    exact h
  | answer job reply =>
    let dated (next : Workshop τ κ ω ρ) := next.scheduler.Dated
    have answered : Ensures (WorkshopAction.deliver job reply) shop (fun _ => dated) dated := by
      unfold WorkshopAction.deliver
      rw [ensures_bind, WorkshopAction.ensures_scheduler]
      split
      · next answered => exact h.answer answered
      · exact h
    exact answered.leaves
  | hurry place =>
    refine h.mono (List.Subset.refl _) fun id there => ?_
    obtain ⟨i, here⟩ := List.mem_iff_getElem?.mp there
    by_cases ahead : i = place
    · have first : id ∈ shop.scheduler.agenda[place]?.toList := by
        rw [← ahead, here]
        exact List.mem_cons_self
      exact List.mem_append_left _ first
    · exact List.mem_append_right _ (List.mem_eraseIdx_iff_getElem?.mpr ⟨i, ahead, here⟩)
  | work => exact dated_work h staffed.order tame

end Workshop

/-- Every workshop that events lead to is dated. -/
theorem Shift.Reaches.dated {shift : Shift τ κ ω ρ}
    (reached : Shift.Reaches worker ⟨shop, []⟩ shift) (new : shop.IsNew)
    (tame : worker.LeavesCache) : shift.state.scheduler.Dated := by
  let dated (shift : Shift τ κ ω ρ) := shift.state.scheduler.Dated
  refine Leads.keeps dated reached (fun job hjob => ?_) fun shift event before _ dated => ?_
  · rw [new.active] at hjob
    exact absurd hjob List.not_mem_nil
  · exact Workshop.dated_next dated (Reaches.disciplined before new.disciplined tame).staffed tame event

end Events

/-! ### Jobs that were told to stop -/

/-- A job that was told to stop. -/
def Job.stops (job : Job τ ω ρ) : Bool :=
  match job.phase with
  | .due true | .stopping _ | .ended => true
  | .due false | .waiting _ | .answered _ _ => false

theorem Job.stops_stop (job : Job τ ω ρ) : job.stop.1.stops = true := by
  cases hphase : job.phase <;> simp [stop, stops, hphase]

/-- A job that was told to stop has something to do until it has ended. -/
theorem Job.isDue_of_stops {job : Job τ ω ρ} (stops : job.stops = true)
    (going : job.isEnded = false) : job.isDue = true := by
  unfold Job.stops at stops
  unfold isEnded at going
  unfold isDue
  split at stops <;> simp_all

/-- Some jobs were told to stop, and what is still to be done until they have ended is due within a
number of steps. -/
structure Scheduler.Ebbs (asked : List Nat) (steps : Nat) (scheduler : Scheduler τ ω ρ) : Prop where
  made : ∀ id ∈ asked, id < scheduler.nextJob
  stops : ∀ job ∈ scheduler.active, job.id ∈ asked → job.stops = true
  soon : ∀ job ∈ scheduler.active, job.id ∈ asked → job.isEnded = false →
    job.id ∈ scheduler.agenda.take steps

namespace Scheduler.Ebbs

variable {asked : List Nat} {steps : Nat} {scheduler : Scheduler τ ω ρ}

/-- New jobs are none of those that were told to stop, and are due after them. -/
theorem admits : Admits fun (scheduler : Scheduler τ ω ρ) (_ : Cache τ) =>
    scheduler.Ebbs asked steps where
  idle _ _ _ h := ⟨h.made, h.stops, h.soon⟩
  skip _ _ _ _ _ _ h _ := ⟨h.made, h.stops, h.soon⟩
  enqueue _ _ _ h := ⟨h.made, h.stops, h.soon⟩
  begin _ _ scheduler _ chunk _ _ _ h _ _ := by
    -- The number of the new job was not given out when jobs were told to stop.
    have old {job : Job τ ω ρ} (hjob : job ∈ (scheduler.addJob chunk).active)
        (known : job.id ∈ asked) : job ∈ scheduler.active := by
      refine (mem_addJob.mp hjob).resolve_right ?_
      rintro rfl
      exact absurd (h.made _ known) (Nat.lt_irrefl _)
    refine ⟨fun id known => Nat.lt_succ_of_lt (h.made id known),
      fun job hjob known => h.stops job (old hjob known) known, fun job hjob known going => ?_⟩
    change job.id ∈ (scheduler.agenda ++ [scheduler.nextJob]).take steps
    rw [List.take_append]
    exact List.mem_append_left _ (h.soon job (old hjob known) known going)

/-- When nothing is left to be done, all jobs that were told to stop have ended. -/
theorem ended (h : scheduler.Ebbs asked steps) (done : scheduler.agenda.take steps = [])
    {job : Job τ ω ρ} (hjob : job ∈ scheduler.active) (known : job.id ∈ asked) :
    job.isEnded = true := by
  by_contra going
  have soon := h.soon job hjob known (Bool.eq_false_iff.mpr going)
  rw [done] at soon
  exact absurd soon List.not_mem_nil

theorem mono (h : scheduler.Ebbs asked steps) {more : Nat} (le : steps ≤ more) :
    scheduler.Ebbs asked more :=
  ⟨h.made, h.stops, fun job hjob known going =>
    (List.take_prefix_take_left le).subset (h.soon job hjob known going)⟩

theorem hasEnded_iff (jobs : scheduler.Orderly) {id : Nat} :
    WorkshopAction.hasEnded scheduler id = true ↔
      ∀ job ∈ scheduler.active, job.id = id → job.isEnded = true := by
  unfold WorkshopAction.hasEnded
  cases found : scheduler.job? id with
  | none =>
    refine iff_of_true rfl fun job hjob here => ?_
    exact absurd here (by simpa using List.find?_eq_none.mp found job hjob)
  | some job =>
    have hjob := List.mem_of_find?_eq_some found
    have here : job.id = id := by simpa using List.find?_some found
    constructor
    · intro ended other hother same
      rwa [jobs.eq_of_id hother hjob (same.trans here.symm)]
    · exact fun ended => ended job hjob here

/-- When all jobs that were told to stop have ended, or nothing is due that could end them, no more
steps are needed. -/
theorem zero (h : scheduler.Ebbs asked steps) (jobs : scheduler.Orderly)
    (done : asked.all (WorkshopAction.hasEnded scheduler) = true ∨
      scheduler.agenda.take steps = []) : scheduler.Ebbs asked 0 := by
  refine ⟨h.made, h.stops, fun job hjob known going => absurd going ?_⟩
  rw [Bool.not_eq_false]
  rcases done with ended | done
  · exact (hasEnded_iff jobs).mp (List.all_eq_true.mp ended job.id known) job hjob rfl
  · exact h.ended done hjob known

variable [Scalar τ] {worker : Worker τ κ ω ρ} {shop : Workshop τ κ ω ρ}

/-- Every step of a job brings the end of those that were told to stop nearer. -/
theorem work (h : shop.scheduler.Ebbs asked (steps + 1))
    (order : InOrder shop.store.cache shop.scheduler) (tame : worker.LeavesCache) :
    (leaves (WorkshopAction.runNext worker) shop).scheduler.Ebbs asked steps := by
  have works := WorkshopAction.runNext_works tame order
  revert works
  generalize leaves (WorkshopAction.runNext worker) shop = next
  generalize shop.endsNext worker = ended
  generalize shop.againNext worker = again
  generalize succeeds (WorkshopAction.attemptNext worker) shop = returned
  rintro (⟨settled, scheduler, -⟩ | @⟨_, before, after, hjob, first, advances, scheduler, -⟩ |
    @⟨middle, _, job, _, _, hjob, first, scheduler, -, ends⟩)
  · rw [scheduler]
    refine ⟨h.made, h.stops, fun job hjob known going => ?_⟩
    refine mem_take_tail_of_ne (h.soon job hjob known going) fun first => ?_
    have due := Job.isDue_of_stops (h.stops job hjob known) going
    exact absurd due (by simp [settled job hjob first])
  · rw [scheduler]
    -- A job that was told to stop before its worker began has ended now.
    have finished (known : after.id ∈ asked) : after.stops = true ∧ after.isEnded = true := by
      have stopping := h.stops before hjob (advances.same.1 ▸ known)
      cases advances with
      | ended due => exact ⟨rfl, rfl⟩
      | waits due kept => exact absurd stopping (by simp [Job.stops, due])
    refine ⟨h.made, fun other hother known => ?_, fun other hother known going => ?_⟩
    · rcases mem_putJob hother with rfl | ⟨hother, -⟩
      · exact (finished known).1
      · exact h.stops other hother known
    · rcases mem_putJob hother with rfl | ⟨hother, differ⟩
      · exact absurd (finished known).2 (by simp [going])
      · refine mem_take_tail_of_ne (h.soon other hother known going) fun first' => differ ?_
        exact (Option.some.inj (first'.symm.trans first)).trans advances.same.1.symm
  · have left : (middle.without job).scheduler.Ebbs asked steps := by
      rw [Workshop.without, scheduler]
      refine ⟨h.made, fun other hother known => ?_, fun other hother known going => ?_⟩
      · exact h.stops other (List.mem_filter.mp hother).1 known
      · obtain ⟨hother, differ⟩ := List.mem_filter.mp hother
        refine mem_take_tail_of_ne (h.soon other hother known going) fun first' => ?_
        exact absurd (Option.some.inj (first'.symm.trans first)) (by simpa using differ)
    refine ends.admits admits ?_ fun _ => left
    rw [Workshop.without, scheduler]
    exact order.jobs.free_of_dropJob hjob

end Scheduler.Ebbs

/-- When all jobs are told to stop, they will have ended after as many steps as things are due. -/
theorem Scheduler.Dated.ebbs {scheduler : Scheduler τ ω ρ} (h : scheduler.Dated)
    (jobs : scheduler.Orderly) :
    Scheduler.Ebbs (scheduler.active.map (·.id)) scheduler.stopJobs.agenda.length
      { scheduler.stopJobs with queue := [] } := by
  constructor
  · intro id known
    obtain ⟨job, hjob, rfl⟩ := List.mem_map.mp known
    exact jobs.numbered job hjob
  · intro stopped hstopped _
    obtain ⟨job, -, rfl⟩ := List.mem_map.mp hstopped
    exact job.stops_stop
  · intro stopped hstopped _ going
    rw [List.take_length]
    refine h.stopJobs stopped hstopped (Job.isDue_of_stops ?_ going)
    obtain ⟨job, -, rfl⟩ := List.mem_map.mp hstopped
    exact job.stops_stop

/-! ### The wait -/

section Wait

variable [Scalar τ] {worker : Worker τ κ ω ρ} {shift : Shift τ κ ω ρ} {slots : Nat}
  {asked : List Nat} {steps fuel : Nat}

/-- A shift after a number of steps of jobs. -/
def Shift.working (worker : Worker τ κ ω ρ) (count : Nat) (shift : Shift τ κ ω ρ) :
    Shift τ κ ω ρ :=
  (List.replicate count .work).foldl (Shift.next worker) shift

theorem Shift.working_add (worker : Worker τ κ ω ρ) (first second : Nat) (shift : Shift τ κ ω ρ) :
    shift.working worker (first + second) = (shift.working worker first).working worker second := by
  unfold working
  rw [List.replicate_add, List.foldl_append]

theorem Shift.Disciplined.working (h : shift.Disciplined slots) (tame : worker.LeavesCache)
    (count : Nat) : (shift.working worker count).Disciplined slots :=
  Reaches.disciplined (Leads.any _ shift) h tame

namespace WorkshopAction

/-- A failure of a job is not one of those who do what is due. -/
theorem runNext_returns (tame : worker.LeavesCache) (shop : Workshop τ κ ω ρ) :
    runNext worker shop = .ok () (leaves (runNext worker) shop) := by
  have returns : Ensures (runNext worker) shop (fun _ _ => True) (fun _ => False) := by
    unfold runNext
    rw [ensures_bind, ensures_scheduler]
    split
    · trivial
    · next id rest _ =>
      rw [ensures_bind, ensures_setScheduler]
      split
      · next job _ =>
        rw [runJob_eq, ensures_bind]
        refine (report?_spec tame job _).mono ?_ fun _ => False.elim
        intro outcome next _
        cases outcome with
        | none => trivial
        | some outcome =>
          refine Ensures.tryCatch ?_
          exact ensures_leaves.mono (fun _ _ _ => trivial) fun _ _ _ => trivial
      · trivial
  exact returns.eq_ok

theorem runSome_returns (tame : worker.LeavesCache) (count : Nat) (shift : Shift τ κ ω ρ) :
    runSome worker count shift.state = .ok () (shift.working worker count).state := by
  induction count generalizing shift with
  | zero => rfl
  | succ count ih =>
    unfold runSome
    rw [bind_of_ok (runNext_returns tame shift.state)]
    exact ih (shift.next worker .work)

/-- The jobs that were told to stop have ended after as many steps as it takes, and are not brought
back by those that follow. -/
theorem ebbs_working (tame : worker.LeavesCache) (disciplined : shift.Disciplined slots)
    (ebbs : shift.state.scheduler.Ebbs asked 0) (count : Nat) :
    (shift.working worker count).state.scheduler.Ebbs asked 0 := by
  induction count generalizing shift with
  | zero => exact ebbs
  | succ count ih =>
    have next : (shift.next worker .work).state.scheduler.Ebbs asked 0 :=
      (ebbs.mono (Nat.zero_le 1)).work disciplined.staffed.order tame
    exact ih (disciplined.next tame .work) next

/-- Waiting for jobs that were told to stop comes to an end when they have ended. -/
theorem awaitEnds_returns (tame : worker.LeavesCache) (disciplined : shift.Disciplined slots)
    (ebbs : shift.state.scheduler.Ebbs asked steps) (enough : steps ≤ fuel) :
    ∃ count, awaitEnds worker asked fuel shift.state = .ok () (shift.working worker count).state ∧
      (shift.working worker count).state.scheduler.Ebbs asked 0 := by
  -- Each step leaves one less to be done, so that there is fuel for those that remain.
  induction fuel generalizing shift steps with
  | zero =>
    obtain rfl := Nat.le_zero.mp enough
    exact ⟨0, rfl, ebbs⟩
  | succ fuel ih =>
    have reads : scheduler shift.state = .ok shift.state.scheduler shift.state := rfl
    unfold awaitEnds
    rw [bind_of_ok reads]
    split
    · next done =>
      refine ⟨0, rfl, ebbs.zero disciplined.staffed.order.jobs ?_⟩
      refine (Bool.or_eq_true_iff.mp done).imp_right fun empty => ?_
      rw [List.isEmpty_iff.mp empty, List.take_nil]
    · rw [bind_of_ok (runNext_returns tame shift.state)]
      have nearer : (shift.next worker .work).state.scheduler.Ebbs asked (steps - 1) :=
        (ebbs.mono (by omega)).work disciplined.staffed.order tame
      obtain ⟨count, waited, ebbs⟩ :=
        ih (disciplined.next tame .work) nearer (by omega)
      exact ⟨count + 1, waited, ebbs⟩

/-- Stopping all jobs comes to an end: a number of steps are done before those who wait go on, and all
jobs that were told to stop have ended by then. -/
theorem stopAll_returns (tame : worker.LeavesCache) (disciplined : shift.Disciplined slots)
    (dated : shift.state.scheduler.Dated)
    (enough : shift.state.scheduler.agenda.length + shift.state.scheduler.active.length ≤ fuel) :
    ∃ count,
      let paused := (shift.next worker .stopAll).working worker count
      stopAll worker fuel shift.state = .ok () (paused.next worker .finishCancel).state ∧
      ∀ job ∈ shift.state.scheduler.active, hasEnded paused.state.scheduler job.id = true := by
  let asked := shift.state.scheduler.active.map (·.id)
  let stopped := shift.next worker .stopAll
  have disciplined' : stopped.Disciplined slots := disciplined.next tame .stopAll
  have ebbs : stopped.state.scheduler.Ebbs asked shift.state.scheduler.stopJobs.agenda.length :=
    dated.ebbs disciplined.staffed.order.jobs
  have length : shift.state.scheduler.stopJobs.agenda.length ≤ fuel := by
    refine Nat.le_trans ?_ enough
    simp only [Scheduler.stopJobs, List.length_append, List.length_map]
    have := List.length_filter_le (·.stop.2) shift.state.scheduler.active
    omega
  have requested : requestStopAll shift.state = .ok asked stopped.state := rfl
  have finished (paused : Shift τ κ ω ρ) :
      finishCancel paused.state = .ok () (paused.next worker .finishCancel).state := rfl
  have due (paused : Shift τ κ ω ρ) : runDue worker paused.state =
      .ok () (paused.working worker paused.state.scheduler.agenda.length).state :=
    runSome_returns tame paused.state.scheduler.agenda.length paused
  unfold stopAll awaitStops
  rw [bind_of_ok requested]
  by_cases nobody : asked.isEmpty
  · refine ⟨0, ?_, fun job hjob => ?_⟩
    · rw [if_pos nobody]
      exact finished stopped
    · exact absurd (List.mem_map_of_mem hjob) (List.isEmpty_iff.mp nobody ▸ List.not_mem_nil)
  · -- What is due when the jobs have ended is done twice more before those who wait notice it.
    obtain ⟨first, waited, ebbs⟩ := awaitEnds_returns tame disciplined' ebbs length
    let awaited := stopped.working worker first
    let noticed := awaited.working worker awaited.state.scheduler.agenda.length
    let paused := noticed.working worker noticed.state.scheduler.agenda.length
    have whole : stopped.working worker (first + awaited.state.scheduler.agenda.length +
        noticed.state.scheduler.agenda.length) = paused := by
      rw [Shift.working_add, Shift.working_add]
    refine ⟨first + awaited.state.scheduler.agenda.length + noticed.state.scheduler.agenda.length, ?_⟩
    dsimp only
    rw [whole]
    refine ⟨?_, fun job hjob => ?_⟩
    · rw [if_neg nobody, bind_of_ok waited, bind_of_ok (due awaited), bind_of_ok (due noticed)]
      exact finished paused
    · have disciplined'' := (disciplined'.working tame first).working tame
        awaited.state.scheduler.agenda.length
      have last := ebbs_working tame disciplined'' (ebbs_working tame
        (disciplined'.working tame first) ebbs _) noticed.state.scheduler.agenda.length
      refine (Scheduler.Ebbs.hasEnded_iff (disciplined''.working tame _).staffed.order.jobs).mpr ?_
      exact fun other hother same =>
        last.ended List.take_zero hother (same ▸ List.mem_map_of_mem hjob)

end WorkshopAction

end Wait

end Montage
