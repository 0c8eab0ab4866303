import Montage.Proofs.Preview.GivenUp
import Montage.Proofs.Schedule.Exclusion

/-!
# What a workshop keeps, a session keeps

A session adds to its workshop what is edited. An edit reaches the jobs and the queue only where it
queues chunks. So what the events of a workshop keep, and what stays so when chunks are queued, is kept
by the events of a session.

## Main definitions

* `Scheduler.Survives` — what is kept in a workshop
* `Studio.Ordered` — a session in order whose jobs and queue have a property

## Main results

* `Scheduler.Survives.next` — every event of a session keeps what is kept in a workshop
* `Ledger.Reaches.ordered` — it holds in every session
-/

namespace Montage

open SessionAction

/-- What is kept in a workshop, of its jobs and its queue. -/
structure Scheduler.Survives (holds : Scheduler Double ChunkRender EncoderReply → Prop) : Prop where
  admits : Admits fun scheduler _ => holds scheduler
  requeue : ∀ index urgency scheduler, holds scheduler →
    holds { scheduler with queue := (scheduler.queue.drop index).enqueue ⟨index, urgency⟩ }
  events : ∀ (studio : Studio) (event : ShopEvent Double EncoderReply),
    InOrder studio.store.cache studio.scheduler → holds studio.scheduler →
    holds (leaves (event.action ChunkRender.worker) studio).scheduler

/-- A session in order whose jobs and queue have a property. -/
structure Studio.Ordered (holds : Scheduler Double ChunkRender EncoderReply → Prop) (studio : Studio) :
    Prop where
  order : InOrder studio.store.cache studio.scheduler
  holds : holds studio.scheduler

namespace Scheduler.Survives

variable {holds : Scheduler Double ChunkRender EncoderReply → Prop} (survives : Survives holds)
  {studio : Studio}

/-- The jobs and the queue have nothing to do with what is shown. -/
theorem edits : SurvivesEdits (Studio.Ordered holds) where
  session _ _ h := ⟨h.order, h.holds⟩
  recut studio _ settings recut h := by
    have changed : InOrder { studio.store.cache with settings } studio.scheduler :=
      h.order.of_cache rfl rfl
    exact ⟨changed.recut recut, h.holds⟩

include survives

theorem requeues : Requeues (Studio.Ordered holds) (Studio.Ordered holds) where
  edits := edits
  queues _ urgency retry h :=
    (queueWaiting_attends survives.admits urgency retry h.order h.holds).mono
      (fun _ _ hnext => ⟨hnext.1, hnext.2.1⟩) fun _ => id

theorem keeps_queue (index : Int) (urgency : Urgency) :
    Keeps (Studio.Ordered holds) (WorkshopAction.queue index urgency) := fun studio h =>
  (survives.admits.queue index urgency studio h.order h.holds).mono
    (fun _ _ hnext => ⟨hnext.1, hnext.2.1⟩) fun _ => False.elim

theorem keeps_setUrgency (index : Int) (urgency : Urgency) :
    Keeps (Studio.Ordered holds) (WorkshopAction.setUrgency index urgency) := fun studio h =>
  (survives.admits.setUrgency index urgency (fun scheduler _ => survives.requeue index urgency scheduler)
    studio h.order h.holds).mono (fun _ _ hnext => ⟨hnext.1, hnext.2.1⟩) fun _ => False.elim

/-- Every event of a session keeps what is kept in a workshop. -/
theorem next (h : studio.Ordered holds) (event : SessionEvent) :
    holds (leaves event.action studio).scheduler := by
  have shop (event : ShopEvent Double EncoderReply) :
      holds (leaves (event.action ChunkRender.worker) studio).scheduler :=
    survives.events studio event h.order h.holds
  cases event with
  | openProject timeline media path time =>
    exact (survives.requeues.openProject h timeline media path time).leaves.holds
  | update timeline media settings =>
    exact (survives.requeues.update h timeline media settings).dropped.leaves.holds
  | invalidate start stop => exact (survives.requeues.invalidate h start stop).dropped.leaves.holds
  | prioritize t radius =>
    have moved := keeps_prioritizeNear survives.keeps_queue survives.keeps_setUrgency t radius studio h
    exact moved.dropped.leaves.holds
  | cancel index => exact shop (.cancel index)
  | stopAll => exact shop .stopAll
  | finishCancel => exact shop .finishCancel
  | wipe => exact shop (.edit .wipe)
  | answer id reply =>
    rw [SessionEvent.answer_eq]
    exact shop (.answer id reply)
  | hurry place => exact shop (.hurry place)
  | work => exact shop .work

end Scheduler.Survives

/-- What is kept in a workshop holds in every session, if it holds at first. -/
theorem Ledger.Reaches.ordered {holds : Scheduler Double ChunkRender EncoderReply → Prop}
    (survives : Scheduler.Survives holds) {first : Studio} {ledger : Ledger} (new : first.IsNew)
    (h : holds first.scheduler) (reached : Ledger.Reaches ⟨first, []⟩ ledger) :
    ledger.state.Ordered holds := by
  have first : Studio.Ordered holds first := ⟨new.gaveUp.order, h⟩
  let ordered (ledger : Ledger) := ledger.state.Ordered holds
  refine Leads.keeps ordered reached first fun ledger event before _ h => ?_
  have gaveUp := Ledger.Reaches.gaveUp (before.tail ⟨event, trivial, rfl⟩) new.gaveUp
  exact ⟨gaveUp.order, survives.next h event⟩

end Montage
