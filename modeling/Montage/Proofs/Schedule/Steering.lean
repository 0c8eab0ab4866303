import Montage.Proofs.Schedule.Admission

/-!
# Steering jobs from outside

Jobs are told to stop, get answers, and what is due is put in another order. None of this changes
what a worker keeps. A property that does not depend on anything else of how jobs stand is called
indifferent, and survives all of it.
-/

namespace Montage

variable {τ κ ω ρ : Type}

/-- A job that goes on with what its worker keeps. -/
structure Job.Same (before after : Job τ ω ρ) : Prop where
  id : after.id = before.id
  chunk : after.chunk = before.chunk
  kept : after.kept? = before.kept?

protected theorem Job.Same.refl (job : Job τ ω ρ) : job.Same job := ⟨rfl, rfl, rfl⟩

theorem Job.same_stop (job : Job τ ω ρ) : job.Same job.stop.1 := by
  unfold stop
  cases hphase : job.phase <;> constructor <;> simp [kept?, hphase]

/-- Jobs that ended before they began keep nothing. -/
theorem Job.mem_filter_isEnded {active : List (Job τ ω ρ)} {job : Job τ ω ρ} (hjob : job ∈ active)
    (begun : job.kept? ≠ none) : job ∈ active.filter (!·.isEnded) := by
  refine List.mem_filter.mpr ⟨hjob, ?_⟩
  unfold kept? at begun
  unfold isEnded
  split <;> simp_all

/-- An answer changes nothing but what the job that waits for it is to do. -/
theorem Scheduler.answer?_eq_some {scheduler answered : Scheduler τ ω ρ} {meets : Job τ ω ρ → Bool}
    {answer : ρ} (h : scheduler.answer? meets answer = some answered) :
    ∃ job ∈ scheduler.active, ∃ kept agenda, job.phase = .waiting kept ∧
      answered = { scheduler.putJob { job with phase := .answered kept answer } with agenda } := by
  unfold answer? at h
  obtain ⟨job, found, hstep⟩ := Option.bind_eq_some_iff.mp h
  split at hstep
  · next kept waiting =>
    obtain rfl := Option.some.inj hstep
    exact ⟨job, List.mem_of_find?_eq_some found, kept, _, waiting, rfl⟩
  · exact absurd hstep (by simp)

namespace WorkshopAction

/-- The job of a number gets the answer that it waits for. -/
def deliver (id : Nat) (answer : ρ) : WorkshopAction τ κ ω ρ Unit := do
  if let some answered := (← scheduler).answer? (·.id = id) answer then setScheduler answered

/-- Something that is due gets ahead of all else. -/
def hurry (place : Nat) : WorkshopAction τ κ ω ρ Unit := do
  let scheduler ← scheduler
  setScheduler { scheduler with
    agenda := scheduler.agenda[place]?.toList ++ scheduler.agenda.eraseIdx place }

/-- Where an answer can lead: to a job that is to go on, or nowhere. -/
theorem deliver_cases {shop : Workshop τ κ ω ρ} {leads : Workshop τ κ ω ρ → Prop} (id : Nat)
    (answer : ρ) (stays : leads shop)
    (answered : ∀ job ∈ shop.scheduler.active, ∀ kept agenda, job.phase = .waiting kept →
      leads { shop with scheduler := { shop.scheduler.putJob
        { job with phase := .answered kept answer } with agenda } }) :
    Ensures (deliver id answer) shop (fun _ => leads) leads := by
  unfold deliver
  rw [ensures_bind, ensures_scheduler]
  split
  · next scheduler hanswer =>
    rw [ensures_setScheduler]
    obtain ⟨job, hjob, kept, agenda, waiting, rfl⟩ := Scheduler.answer?_eq_some hanswer
    exact answered job hjob kept agenda waiting
  · exact stays

/-- After an answer, the job that waited for it is to go on, or nothing has changed. -/
theorem leaves_deliver (id : Nat) (answer : ρ) (shop : Workshop τ κ ω ρ) :
    leaves (deliver id answer) shop = shop ∨
      ∃ job ∈ shop.scheduler.active, ∃ kept agenda, job.phase = .waiting kept ∧
        leaves (deliver id answer) shop = { shop with scheduler := { shop.scheduler.putJob
          { job with phase := .answered kept answer } with agenda } } := by
  let leads (next : Workshop τ κ ω ρ) : Prop := next = shop ∨
    ∃ job ∈ shop.scheduler.active, ∃ kept agenda, job.phase = .waiting kept ∧
      next = { shop with scheduler := { shop.scheduler.putJob
        { job with phase := .answered kept answer } with agenda } }
  have led : Ensures (deliver id answer) shop (fun _ => leads) leads :=
    deliver_cases id answer (.inl rfl) fun job hjob kept agenda waiting =>
      .inr ⟨job, hjob, kept, agenda, waiting, rfl⟩
  exact led.leaves

end WorkshopAction

/-- A property of workshops that depends on no more of a job than its number, its chunk and what its
worker keeps, and that nothing which leaves the queue or the list of jobs takes away. -/
structure Indifferent (holds : Workshop τ κ ω ρ → Prop) : Prop where
  order : ∀ shop, holds shop → InOrder shop.store.cache shop.scheduler
  dequeue : ∀ shop queue, queue.Sublist shop.scheduler.queue → holds shop →
    holds { shop with scheduler := { shop.scheduler with queue } }
  map : ∀ shop (next : Job τ ω ρ → Job τ ω ρ) agenda,
    (∀ job ∈ shop.scheduler.active, job.Same (next job)) → holds shop →
    holds { shop with scheduler := { shop.scheduler with
      active := shop.scheduler.active.map next, agenda } }
  release : ∀ shop active, active.Sublist shop.scheduler.active →
    (∀ job ∈ shop.scheduler.active, job.kept? ≠ none → job ∈ active) → holds shop →
    holds { shop with scheduler := { shop.scheduler with active } }

namespace Indifferent

variable {holds : Workshop τ κ ω ρ → Prop} {shop : Workshop τ κ ω ρ}

/-- A job that goes on. -/
theorem putJob (indifferent : Indifferent holds) {job next : Job τ ω ρ}
    (hjob : job ∈ shop.scheduler.active) (same : job.Same next) (agenda : List Nat)
    (h : holds shop) :
    holds { shop with scheduler := { shop.scheduler.putJob next with agenda } } := by
  refine indifferent.map shop _ agenda (fun other hother => ?_) h
  by_cases hid : other.id = next.id
  · have order := indifferent.order shop h
    obtain rfl := order.jobs.eq_of_id hother hjob (hid.trans same.id)
    rw [if_pos hid]
    exact same
  · rw [if_neg hid]
    exact .refl other

/-- What is due is put in another order. -/
theorem redate (indifferent : Indifferent holds) (agenda : List Nat) (h : holds shop) :
    holds { shop with scheduler := { shop.scheduler with agenda } } := by
  have same := indifferent.map shop id agenda (fun job _ => .refl job) h
  rwa [List.map_id] at same

theorem keeps_deliver (indifferent : Indifferent holds) (id : Nat) (answer : ρ) :
    Keeps holds (WorkshopAction.deliver id answer) := by
  intro shop h
  refine WorkshopAction.deliver_cases id answer h fun job hjob kept agenda waiting => ?_
  have same : job.Same { job with phase := .answered kept answer } :=
    ⟨rfl, rfl, by simp [Job.kept?, waiting]⟩
  exact indifferent.putJob hjob same agenda h

theorem keeps_hurry (indifferent : Indifferent holds) (place : Nat) :
    Keeps holds (WorkshopAction.hurry place) :=
  fun _ h => indifferent.redate _ h

/-- Telling all jobs to stop. -/
theorem keeps_requestStopAll (indifferent : Indifferent holds) :
    Keeps holds WorkshopAction.requestStopAll := by
  intro shop h
  unfold WorkshopAction.requestStopAll
  rw [ensures_bind, WorkshopAction.ensures_scheduler, ensures_bind,
    WorkshopAction.ensures_setScheduler]
  have stopped := indifferent.map shop (·.stop.1)
    (shop.scheduler.agenda ++ (shop.scheduler.active.filter (·.stop.2)).map (·.id))
    (fun job _ => job.same_stop) h
  exact indifferent.dequeue _ [] (List.nil_sublist _) stopped

variable [Scalar τ]

/-- Taking a chunk off the queue, or telling its job to stop. -/
theorem keeps_requestCancel (indifferent : Indifferent holds)
    (pumps : Keeps holds WorkshopAction.pump) (index : Int) :
    Keeps holds (WorkshopAction.requestCancel index) := by
  intro shop h
  unfold WorkshopAction.requestCancel
  rw [ensures_bind, WorkshopAction.ensures_scheduler]
  split
  · rw [ensures_bind, WorkshopAction.ensures_setScheduler, ensures_bind]
    exact pumps _ (indifferent.dequeue shop _ (RenderQueue.drop_sublist _ index) h)
  · split
    · exact h
    · next job found =>
      exact indifferent.putJob (List.mem_of_find?_eq_some found) job.same_stop _ h

/-- Jobs that ended before they began give up their slots. -/
theorem keeps_finishCancel (indifferent : Indifferent holds)
    (pumps : Keeps holds WorkshopAction.pump) :
    Keeps holds WorkshopAction.finishCancel := by
  intro shop h
  unfold WorkshopAction.finishCancel
  rw [ensures_bind, WorkshopAction.ensures_scheduler, ensures_bind,
    WorkshopAction.ensures_setScheduler]
  exact pumps _ (indifferent.release shop _ List.filter_sublist
    (fun _ hjob begun => Job.mem_filter_isEnded hjob begun) h)

end Indifferent

end Montage
