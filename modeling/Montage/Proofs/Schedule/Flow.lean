import Montage.Proofs.Schedule.Lines

/-!
# When the queue stalls

A job leaves its slot before its end is recorded, and the free slots are given away afterwards. A
failure in between — the manifest cannot be written, a file cannot be removed, or somebody who is told
of the chunk breaks down — skips that: the slot stays free though others wait for it, or those who wait
for the end of all work are not told of it. Such a slot is owed until slots are given away again.

## Main definitions

* `Scheduler.Flows` — nobody waits for a free slot, and the end of all work is noticed
* `Dues` — how many requests to cancel wait for jobs, and whether a slot is owed
* `ShopEvent.gives`, `ShopEvent.settle` — what an event gives, and what is owed after it

## Main results

* `Dues.Right.next` — what every event keeps
* `Annals.Reaches.flows_iff` — when no request waits, work flows exactly if no slot is owed to anybody
* `two_places_stall` — a chunk waits for ever for a slot that nobody has
-/

namespace Montage

variable {τ κ ω ρ : Type}

/-- While anybody waits all slots are taken, and all work is at its end exactly if nothing is left. -/
structure Scheduler.Flows (scheduler : Scheduler τ ω ρ) : Prop where
  full : scheduler.queue ≠ [] → scheduler.active.length = scheduler.limit
  idle : scheduler.idle = true ↔ scheduler.queue = [] ∧ scheduler.active = []

/-- Whoever waits for the end of all work is not told of it too early. -/
def Scheduler.Rests (scheduler : Scheduler τ ω ρ) : Prop :=
  scheduler.idle = true → scheduler.queue = [] ∧ scheduler.active = []

/-- No more jobs than slots, also when slots are given away. -/
theorem Scheduler.within_pumps (limit : Nat) :
    Pumps fun (scheduler : Scheduler τ ω ρ) (_ : Cache τ) =>
      scheduler.limit = limit ∧ scheduler.active.length ≤ limit where
  idle _ _ _ h := h
  skip _ _ _ _ _ _ h _ := h
  begin _ _ scheduler _ chunk _ _ room h _ _ := by
    refine ⟨h.1, ?_⟩
    rw [addJob, List.length_append, List.length_singleton, ← h.1]
    exact room

/-! ### Work flows once slots were given away -/

section Pumped

variable [Scalar τ] {shop : Workshop τ κ ω ρ}

/-- Work flows when slots have been given away. -/
theorem Workshop.pumped_flows (order : InOrder shop.store.cache shop.scheduler)
    (rests : shop.scheduler.Rests)
    (within : shop.scheduler.active.length ≤ shop.scheduler.limit) :
    shop.pumped.scheduler.Flows := by
  obtain ⟨limit, length⟩ :=
    ((Scheduler.within_pumps shop.scheduler.limit).pumped order ⟨rfl, within⟩).2
  constructor
  · intro waits
    have full := shop.pumped_settled.resolve_left waits
    omega
  · rw [shop.pumped_idle]
    refine ⟨fun idle => idle.elim (fun before => ?_) id, .inr⟩
    obtain ⟨queue, active⟩ := rests before
    rw [shop.pumped_of_settled (.inl queue)]
    exact ⟨queue, active⟩

end Pumped

/-! ### What is owed -/

/-- How many requests to cancel wait for jobs to stop, and whether a slot is owed to those who wait. -/
structure Dues where
  waiting : Nat := 0
  owed : Bool := false

/-- What is right of a scheduler and of what is owed in it. -/
structure Dues.Right (dues : Dues) (scheduler : Scheduler τ ω ρ) : Prop where
  rests : scheduler.Rests
  flows : dues.waiting = 0 → dues.owed = false → scheduler.Flows
  /-- A slot that is owed is free, and the end of all work is not noticed before it is given away. -/
  stalls : dues.owed = true → scheduler.active.length < scheduler.limit ∧ scheduler.idle = false

/-- The same queue, and as many jobs. -/
structure Scheduler.Alike (before after : Scheduler τ ω ρ) : Prop where
  limit : after.limit = before.limit
  queue : after.queue = before.queue
  length : after.active.length = before.active.length
  idle : after.idle = before.idle

protected theorem Scheduler.Alike.refl (scheduler : Scheduler τ ω ρ) : scheduler.Alike scheduler :=
  ⟨rfl, rfl, rfl, rfl⟩

theorem Scheduler.Alike.active_eq_nil {before after : Scheduler τ ω ρ} (alike : before.Alike after) :
    after.active = [] ↔ before.active = [] := by
  rw [← List.length_eq_zero_iff, ← List.length_eq_zero_iff, alike.length]

namespace Dues.Right

variable {dues : Dues} {before after : Scheduler τ ω ρ}

/-- As long as the queue and the number of jobs stay, the same is right. -/
theorem of_alike (h : dues.Right before) (alike : before.Alike after) : dues.Right after where
  rests idle := by
    obtain ⟨queue, active⟩ := h.rests (alike.idle ▸ idle)
    exact ⟨alike.queue.trans queue, alike.active_eq_nil.mpr active⟩
  flows waiting owed := by
    obtain ⟨full, idle⟩ := h.flows waiting owed
    constructor
    · rw [alike.queue, alike.length, alike.limit]
      exact full
    · rw [alike.idle, alike.queue, alike.active_eq_nil]
      exact idle
  stalls owed := by
    rw [alike.length, alike.limit, alike.idle]
    exact h.stalls owed

/-- While a request waits for jobs to stop, the queue may be empty before its time. -/
theorem wait (h : dues.Right before) (limit : after.limit = before.limit)
    (length : after.active.length = before.active.length) (idle : after.idle = before.idle)
    (queue : before.queue = [] → after.queue = []) :
    Dues.Right { dues with waiting := dues.waiting + 1 } after where
  rests h' := by
    obtain ⟨empty, active⟩ := h.rests (idle ▸ h')
    exact ⟨queue empty, List.length_eq_zero_iff.mp (by rw [length, active]; rfl)⟩
  flows waiting := absurd waiting (Nat.succ_ne_zero _)
  stalls owed := by
    rw [length, limit, idle]
    exact h.stalls owed

/-- When work flows nothing is owed. -/
theorem paid (flows : after.Flows) (waiting : Nat) : Dues.Right ⟨waiting, false⟩ after where
  rests := flows.idle.mp
  flows _ _ := flows
  stalls owed := absurd owed Bool.false_ne_true

/-- As long as there is a job, nobody is told of the end of all work. -/
theorem busy {scheduler : Scheduler τ ω ρ} {job : Job τ ω ρ} (h : dues.Right scheduler)
    (hjob : job ∈ scheduler.active) : scheduler.idle = false := by
  refine Bool.eq_false_iff.mpr fun idle => ?_
  rw [(h.rests idle).2] at hjob
  exact List.not_mem_nil hjob

/-- The end of a job that cannot be recorded leaves a free slot that is owed. -/
theorem lose {scheduler : Scheduler τ ω ρ} {job : Job τ ω ρ} (h : dues.Right scheduler)
    (within : scheduler.active.length ≤ scheduler.limit) (hjob : job ∈ scheduler.active)
    (waiting : Nat) : Dues.Right ⟨waiting, true⟩ (scheduler.dropJob job.id) := by
  have fewer : (scheduler.dropJob job.id).active.length < scheduler.active.length :=
    List.length_filter_lt_length_iff_exists.mpr ⟨job, hjob, by simp⟩
  refine ⟨fun idle => ?_, fun _ owed => ?_, fun _ => ⟨Nat.lt_of_lt_of_le fewer within, h.busy hjob⟩⟩
  · exact absurd ((h.busy hjob).symm.trans idle) Bool.false_ne_true
  · exact absurd owed.symm Bool.false_ne_true

/-- A free slot that is owed keeps work from flowing, unless nobody waits for it and another job will
give it away at its end. -/
theorem unowed_iff {scheduler : Scheduler τ ω ρ} (h : dues.Right scheduler)
    (none : dues.waiting = 0) :
    scheduler.Flows ↔ (dues.owed = true → scheduler.queue = [] ∧ scheduler.active ≠ []) := by
  constructor
  · intro flows owed
    obtain ⟨free, busy⟩ := h.stalls owed
    have nobody : scheduler.queue = [] := by
      by_contra waits
      exact absurd (flows.full waits) (Nat.ne_of_lt free)
    refine ⟨nobody, fun none => ?_⟩
    exact absurd (busy.symm.trans (flows.idle.mpr ⟨nobody, none⟩)) Bool.false_ne_true
  · intro spared
    -- If a slot is owed that nobody waits for, the end of all work is not noticed and not due either.
    cases howed : dues.owed with
    | false => exact h.flows none howed
    | true =>
      obtain ⟨nobody, others⟩ := spared howed
      refine ⟨fun waits => absurd nobody waits, fun idle => ?_, fun both => absurd both.2 others⟩
      exact absurd ((h.stalls howed).2.symm.trans idle) Bool.false_ne_true

end Dues.Right

section Events

variable [Scalar τ] {worker : Worker τ κ ω ρ} {shop : Workshop τ κ ω ρ} {dues : Dues}
  {slots : Nat} {diary : List WorkerNote}

namespace ShopEvent

/-- Whether an event gives slots away: somebody is admitted, an entry is taken off the queue, those who
waited for jobs to stop go on, or the end of a job comes about without a failure. -/
def gives (worker : Worker τ κ ω ρ) (event : ShopEvent τ ρ) (shop : Workshop τ κ ω ρ) : Bool :=
  !(event.admitted worker shop).isEmpty ||
    match event with
    | .cancel index =>
      match value? (WorkshopAction.requestCancel index) shop with
      | some (.answers found) => found
      | _ => false
    | .finishCancel => true
    | .work => (shop.endsNext worker).isSome && succeeds (WorkshopAction.attemptNext worker) shop
    | _ => false

/-- Whether an event is a request to cancel that waits for jobs to stop. -/
def awaits (event : ShopEvent τ ρ) (shop : Workshop τ κ ω ρ) : Bool :=
  match event with
  | .cancel index =>
    match value? (WorkshopAction.requestCancel index) shop with
    | some (.awaits _) => true
    | _ => false
  | .stopAll => true
  | _ => false

/-- Whether the end of a job cannot be recorded. -/
def loses (worker : Worker τ κ ω ρ) (event : ShopEvent τ ρ) (shop : Workshop τ κ ω ρ) : Bool :=
  match event with
  | .work => !succeeds (WorkshopAction.attemptNext worker) shop
  | _ => false

/-- What is due after an event. -/
def settle (worker : Worker τ κ ω ρ) (event : ShopEvent τ ρ) (shop : Workshop τ κ ω ρ)
    (dues : Dues) : Dues where
  waiting := match event with
    | .finishCancel => dues.waiting - 1
    | _ => if event.awaits shop then dues.waiting + 1 else dues.waiting
  owed := !event.gives worker shop && (dues.owed || event.loses worker shop)

end ShopEvent

namespace Workshop.Staffed

/-- Slots are given away in a workshop that differs from one with jobs in slots only in its queue. -/
theorem pumped_flows {next : Workshop τ κ ω ρ} (h : shop.Staffed slots diary)
    (order : InOrder next.store.cache next.scheduler) (rests : next.scheduler.Rests)
    (limit : next.scheduler.limit = shop.scheduler.limit)
    (length : next.scheduler.active.length ≤ shop.scheduler.active.length) :
    next.pumped.scheduler.Flows := by
  refine Workshop.pumped_flows order rests ?_
  have := h.slots.length
  have := h.slots.limit
  omega

/-- Work flows when somebody has been admitted. -/
theorem admitting_flows (h : shop.Staffed slots diary) {entry : QueueEntry}
    (free : shop.scheduler.serves entry.index = false) :
    (shop.admitting entry).pumped.scheduler.Flows :=
  h.pumped_flows (h.order.admitting free) nofun rfl (Nat.le_refl _)

/-- Work flows when any of several chunks has been admitted. -/
theorem queueEach_flows (h : shop.Staffed slots diary) (indices : List Int) (urgency : Urgency) :
    Ensures (WorkshopAction.queueEach indices urgency) shop
      (fun admitted next => (admitted = [] → next = shop) ∧
        (admitted ≠ [] → next.scheduler.Flows))
      (fun _ => False) := by
  let holds (admitted : List Int) (next : Workshop τ κ ω ρ) : Prop :=
    next.Staffed slots diary ∧ (admitted = [] → next = shop) ∧
      (admitted ≠ [] → next.scheduler.Flows)
  have first : holds [] shop := ⟨h, fun _ => rfl, fun some => absurd rfl some⟩
  have each (admitted : List Int) (index : Int) (middle : Workshop τ κ ω ρ)
      (hmiddle : holds admitted middle) :
      Ensures (WorkshopAction.queue index urgency) middle
        (fun met next => holds (if met then admitted ++ [index] else admitted) next)
        (fun _ => False) := by
    refine ((WorkshopAction.queue_cases index urgency middle).and
      (keeps_queue index urgency middle hmiddle.1)).mono ?_ fun _ h => h.1
    rintro met next ⟨⟨rfl, -, rfl⟩ | ⟨rfl, free, rfl⟩, staffed⟩
    · exact hmiddle
    · exact ⟨staffed, fun none => absurd none (by simp), fun _ => hmiddle.1.admitting_flows free⟩
  exact (Ensures.filterM each indices first).mono (fun _ _ hnext => hnext.2) fun _ => id

end Workshop.Staffed

namespace Dues.Right

variable {event : ShopEvent τ ρ} {after : Scheduler τ ω ρ}

/-- Whatever was owed is paid by an event that gives slots away. -/
theorem of_gives (gives : event.gives worker shop = true) (flows : after.Flows) :
    (event.settle worker shop dues).Right after := by
  unfold ShopEvent.settle
  rw [gives]
  exact paid flows _

/-- An event that gives nothing, waits for nothing and loses nothing. -/
theorem of_stays (h : dues.Right shop.scheduler) (gives : event.gives worker shop = false)
    (awaits : event.awaits shop = false) (loses : event.loses worker shop = false)
    (alike : shop.scheduler.Alike after) : (event.settle worker shop dues).Right after := by
  have same : event.settle worker shop dues = dues := by
    unfold ShopEvent.settle
    rw [gives, loses, Bool.or_false, Bool.not_false, Bool.true_and]
    cases event with
    | finishCancel => exact absurd gives (by simp [ShopEvent.gives])
    | _ => simp [awaits]
  rw [same]
  exact h.of_alike alike

/-- An event in which nothing happens. -/
theorem of_same {next : Workshop τ κ ω ρ} (h : dues.Right shop.scheduler) (same : next = shop)
    (gives : event.gives worker shop = false) (awaits : event.awaits shop = false)
    (loses : event.loses worker shop = false) :
    (event.settle worker shop dues).Right next.scheduler :=
  h.of_stays gives awaits loses (same ▸ .refl shop.scheduler)

/-- A request that waits for jobs to stop. -/
theorem of_awaits (h : dues.Right shop.scheduler) (gives : event.gives worker shop = false)
    (awaits : event.awaits shop = true) (limit : after.limit = shop.scheduler.limit)
    (length : after.active.length = shop.scheduler.active.length)
    (idle : after.idle = shop.scheduler.idle)
    (queue : shop.scheduler.queue = [] → after.queue = []) :
    (event.settle worker shop dues).Right after := by
  have same : event.settle worker shop dues = { dues with waiting := dues.waiting + 1 } := by
    unfold ShopEvent.settle
    rw [gives]
    cases event with
    | cancel index => simp [awaits, ShopEvent.loses]
    | stopAll => simp [awaits, ShopEvent.loses]
    | _ => exact absurd awaits Bool.false_ne_true
  rw [same]
  exact h.wait limit length idle queue

/-- The step of a job leaves what is right of what is owed. -/
theorem work (h : dues.Right shop.scheduler) (staffed : shop.Staffed slots diary)
    (tame : worker.LeavesCache) :
    (ShopEvent.work.settle worker shop dues).Right
      (leaves (WorkshopAction.runNext worker) shop).scheduler := by
  have works := WorkshopAction.runNext_works tame staffed.order
  have order := staffed.order
  -- Only what is admitted depends on where the step leads.
  have gives : ShopEvent.work.gives worker shop =
      (!(ShopEvent.work.admitted worker shop).isEmpty ||
        ((shop.endsNext worker).isSome && succeeds (WorkshopAction.attemptNext worker) shop)) := rfl
  have loses : ShopEvent.work.loses worker shop =
      !succeeds (WorkshopAction.attemptNext worker) shop := rfl
  have admitted : ShopEvent.work.admitted worker shop =
      (shop.endsNext worker).elim [] fun job =>
        if (leaves (WorkshopAction.runNext worker) shop).scheduler.serves job.index then
          [⟨job.index, .normal⟩]
        else [] := by
    unfold ShopEvent.admitted
    cases shop.endsNext worker <;> rfl
  revert works gives loses admitted
  generalize leaves (WorkshopAction.runNext worker) shop = next
  generalize shop.endsNext worker = ended
  generalize shop.againNext worker = again
  generalize succeeds (WorkshopAction.attemptNext worker) shop = returned
  rintro (⟨-, scheduler, -⟩ | ⟨-, -, -, scheduler, -⟩ |
      @⟨middle, _, job, _, _, hjob, -, scheduler, -, ends⟩) gives loses admitted
  · refine h.of_stays (by simp [gives, admitted]) rfl loses ?_
    rw [scheduler]
    exact ⟨rfl, rfl, rfl, rfl⟩
  · refine h.of_stays (by simp [gives, admitted]) rfl loses ?_
    rw [scheduler]
    exact ⟨rfl, rfl, List.length_map _, rfl⟩
  · have left : (middle.without job).scheduler =
        { shop.scheduler.dropJob job.id with agenda := shop.scheduler.agenda.tail } := by
      rw [Workshop.without, scheduler]
      rfl
    have free : (middle.without job).scheduler.serves job.index = false :=
      left ▸ order.jobs.free_of_dropJob hjob
    have length := (shop.scheduler.dropJob_sublist job.id).length_le
    have busy : (middle.without job).scheduler.idle = false := left ▸ h.busy hjob
    have limit : (middle.without job).scheduler.limit = shop.scheduler.limit := left ▸ rfl
    have fewer : (middle.without job).scheduler.active.length ≤ shop.scheduler.active.length :=
      left ▸ length
    cases ends with
    | lost same order =>
      -- The slot of the job is free, and nobody has got it.
      have within : shop.scheduler.active.length ≤ shop.scheduler.limit :=
        staffed.slots.limit ▸ staffed.slots.length
      have nothing : ShopEvent.work.gives worker shop = false := by
        simp [gives, admitted, same, free]
      unfold ShopEvent.settle
      rw [nothing, loses, same, left]
      simp only [Bool.not_false, Bool.or_true, Bool.and_self]
      exact (h.lose within hjob _).of_alike ⟨rfl, rfl, rfl, rfl⟩
    | @given middle same order =>
      refine of_gives (by simp [gives]) (staffed.pumped_flows order ?_ ?_ ?_)
      · rw [same]
        exact fun idle => absurd (busy.symm.trans idle) Bool.false_ne_true
      · rw [same, limit]
      · rw [same]
        exact fewer
    | @again middle chunk _ same order _ found waits =>
      have served := middle.again_serves order (same ▸ free) found waits
      refine of_gives (by simp [gives, admitted, served]) (staffed.pumped_flows
        (order.admitting (same ▸ free)) (fun idle => absurd idle Bool.false_ne_true) ?_ ?_)
      · exact (congrArg (·.limit) same).trans limit
      · exact Nat.le_trans (Nat.le_of_eq (congrArg (·.active.length) same)) fewer

end Dues.Right

/-- Every event leaves what is right of what is owed. -/
theorem Dues.Right.next (h : dues.Right shop.scheduler) (staffed : shop.Staffed slots diary)
    (tame : worker.LeavesCache) (event : ShopEvent τ ρ) :
    (event.settle worker shop dues).Right (leaves (event.action worker) shop).scheduler := by
  cases event with
  | queue index urgency =>
    obtain ⟨admitted, value, ways⟩ := (WorkshopAction.queue_cases index urgency shop).exists_value
    rw [ShopEvent.action, leaves_discard]
    rcases ways with ⟨rfl, -, same⟩ | ⟨rfl, free, same⟩
    · refine h.of_same same ?_ rfl rfl
      simp [ShopEvent.gives, ShopEvent.admitted, value]
    · refine of_gives ?_ (same ▸ staffed.admitting_flows free)
      simp [ShopEvent.gives, ShopEvent.admitted, value]
  | queueEach indices urgency =>
    obtain ⟨admitted, value, stays, flows⟩ :=
      (staffed.queueEach_flows indices urgency).exists_value
    rw [ShopEvent.action, leaves_discard]
    by_cases none : admitted = []
    · refine h.of_same (stays none) ?_ rfl rfl
      simp [ShopEvent.gives, ShopEvent.admitted, value, none]
    · refine of_gives ?_ (flows none)
      simp [ShopEvent.gives, ShopEvent.admitted, value, none]
  | setUrgency index urgency =>
    obtain ⟨moved, value, ways⟩ :=
      (WorkshopAction.setUrgency_cases index urgency staffed.order).exists_value
    rw [ShopEvent.action, leaves_discard]
    rcases ways with ⟨rfl, same, -⟩ | ⟨rfl, -, free, same⟩
    · refine h.of_same same ?_ rfl rfl
      simp [ShopEvent.gives, ShopEvent.admitted, value]
    · have withdrawn : (shop.withdrawing index).Staffed slots diary := by
        have dropped := RenderQueue.drop_sublist shop.scheduler.queue index
        have slots := staffed.slots
        exact ⟨(staffed.order.dequeue dropped).of_eq rfl rfl rfl, slots.limit, slots.length,
          slots.working⟩
      refine of_gives ?_ (same ▸ withdrawn.admitting_flows free)
      simp [ShopEvent.gives, ShopEvent.admitted, value]
  | cancel index =>
    obtain ⟨step, value, ways⟩ := (WorkshopAction.requestCancel_cases index shop).exists_value
    rw [ShopEvent.action, leaves_discard]
    rcases ways with ⟨-, rfl, same⟩ | ⟨-, ⟨rfl, same⟩ | ⟨job, hjob, rfl, same⟩⟩
    · rw [same]
      refine of_gives ?_ (staffed.pumped_flows (staffed.order.dequeue
        (RenderQueue.drop_sublist shop.scheduler.queue index)) ?_ rfl (Nat.le_refl _))
      · simp [ShopEvent.gives, value]
      · intro idle
        obtain ⟨queue, active⟩ := h.rests idle
        exact ⟨List.sublist_nil.mp (queue ▸ RenderQueue.drop_sublist _ index), active⟩
    · refine h.of_same same ?_ ?_ rfl
      · simp [ShopEvent.gives, ShopEvent.admitted, value]
      · simp [ShopEvent.awaits, value]
    · refine h.of_awaits ?_ ?_ (same ▸ rfl) ?_ (same ▸ rfl) (same ▸ id)
      · simp [ShopEvent.gives, ShopEvent.admitted, value]
      · simp [ShopEvent.awaits, value]
      · rw [same]
        exact List.length_map _
  | stopAll => exact h.of_awaits rfl rfl rfl (List.length_map _) rfl fun _ => rfl
  | finishCancel =>
    refine of_gives (by simp [ShopEvent.gives]) (staffed.pumped_flows
      (staffed.order.release List.filter_sublist) ?_ rfl (List.length_filter_le _ _))
    intro idle
    obtain ⟨queue, active⟩ := h.rests idle
    exact ⟨queue, List.filter_eq_nil_iff.mpr fun job hjob => absurd hjob (active ▸ List.not_mem_nil)⟩
  | edit change =>
    rw [ShopEvent.action, WorkshopAction.scheduler_onCache]
    exact h.of_stays rfl rfl rfl (.refl _)
  | answer job reply =>
    refine h.of_stays rfl rfl rfl ?_
    rw [ShopEvent.action]
    rcases WorkshopAction.leaves_deliver job reply shop with same | ⟨_, _, _, _, _, same⟩
    · rw [same]
      exact .refl _
    · rw [same]
      exact ⟨rfl, rfl, List.length_map _, rfl⟩
  | hurry place => exact h.of_stays rfl rfl rfl ⟨rfl, rfl, rfl, rfl⟩
  | work => exact h.work staffed tame

/-- When no request to cancel waits, all slots are taken while anybody waits, and all work is at its
end exactly if nothing is left — unless the end of a job could not be recorded and no slot was given
away since, and either somebody waits for the slot or no other job is left to give it away. -/
theorem Annals.Reaches.flows_iff {annals : Annals (Workshop τ κ ω ρ) Dues} (tame : worker.LeavesCache)
    (new : shop.IsNew) (idle : shop.scheduler.idle = true)
    (reached : Annals.Reaches worker (ShopEvent.settle worker) ⟨shop, {}⟩ annals)
    (none : annals.account.waiting = 0) :
    let scheduler := annals.state.scheduler
    ((scheduler.queue ≠ [] → scheduler.active.length = scheduler.limit) ∧
      (scheduler.idle = true ↔ scheduler.queue = [] ∧ scheduler.active = [])) ↔
    (annals.account.owed = true → scheduler.queue = [] ∧ scheduler.active ≠ []) := by
  intro scheduler
  let right (annals : Annals (Workshop τ κ ω ρ) Dues) := annals.account.Right annals.state.scheduler
  have first : right ⟨shop, {}⟩ := by
    refine Dues.Right.paid ⟨fun waits => absurd new.queue waits, fun _ => ?_, fun _ => idle⟩ 0
    exact ⟨new.queue, new.active⟩
  have h : right annals := reached.keeps new tame first
    fun annals diary event staffed h => h.next staffed tame event
  rw [← h.unowed_iff none]
  exact ⟨fun flows => ⟨flows.1, flows.2⟩, fun flows => ⟨flows.full, flows.idle⟩⟩

end Events

/-! ### A slot that is lost -/

/-- The second of two places waits while the first is rendered; then a folder stands where the draft of
the manifest is to be written, and the end of the first render cannot be recorded. -/
def TwoPlaces.loss : List (ShopEvent Double Bool) :=
  [.queueEach [0, 1] .normal, .work,
    .edit (.setFiles ⟨[(["cache"], .folder), (["cache", "manifest.json.tmp"], .folder)]⟩),
    .answer 0 true, .work]

/-- The second place waits for ever: no slot is taken, and no job is left that could give it one. -/
theorem two_places_stall :
    ∃ annals : Annals (Workshop Double Unit Unit Bool) Dues,
      Annals.Reaches TwoPlaces.worker (ShopEvent.settle TwoPlaces.worker) ⟨TwoPlaces.shop, {}⟩
        annals ∧
      annals.account.waiting = 0 ∧ annals.state.scheduler.agenda = [] ∧
      ¬((annals.state.scheduler.queue ≠ [] →
          annals.state.scheduler.active.length = annals.state.scheduler.limit) ∧
        (annals.state.scheduler.idle = true ↔
          annals.state.scheduler.queue = [] ∧ annals.state.scheduler.active = [])) := by
  have reached : Annals.Reaches TwoPlaces.worker (ShopEvent.settle TwoPlaces.worker) _ _ :=
    Leads.any TwoPlaces.loss ⟨TwoPlaces.shop, {}⟩
  exact ⟨_, reached, by decide +kernel, by decide +kernel, by decide +kernel⟩

/-- When the place that waits moves up, the slot is given to it, and work flows again. -/
theorem two_places_flow_again :
    ∃ annals : Annals (Workshop Double Unit Unit Bool) Dues,
      Annals.Reaches TwoPlaces.worker (ShopEvent.settle TwoPlaces.worker) ⟨TwoPlaces.shop, {}⟩
        annals ∧
      annals.account.waiting = 0 ∧ annals.state.scheduler.active.map (·.index) = [1] ∧
      (annals.state.scheduler.queue ≠ [] →
        annals.state.scheduler.active.length = annals.state.scheduler.limit) ∧
      (annals.state.scheduler.idle = true ↔
        annals.state.scheduler.queue = [] ∧ annals.state.scheduler.active = []) := by
  have reached : Annals.Reaches TwoPlaces.worker (ShopEvent.settle TwoPlaces.worker) _ _ :=
    Leads.any (TwoPlaces.loss ++ [.setUrgency 1 .high]) ⟨TwoPlaces.shop, {}⟩
  have flows := (reached.flows_iff TwoPlaces.worker_leavesCache TwoPlaces.shop_isNew rfl
    (by decide +kernel)).mpr (by decide +kernel)
  exact ⟨_, reached, by decide +kernel, by decide +kernel, flows⟩

end Montage
