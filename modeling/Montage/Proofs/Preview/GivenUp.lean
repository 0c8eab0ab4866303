import Montage.Proofs.Preview.Attendance
import Montage.Proofs.Schedule.GivenUp

/-!
# Cancelled chunks come back

A chunk whose render was cancelled stays as one that renders, and nobody renders it until a call
that shows or invalidates something queues it again. A call does so only with what was given up
before it comes back. A job that was told to stop keeps its place until it ends; if a call comes in
between, the chunk still counts as one that has a job, and stays behind when the job is gone.

## Main definitions

* `Ledger` — a session, and the chunks that were given up in it since a call last came back
* `Ledger.Reaches` — the sessions that events in any order lead to, with their ledgers

## Main results

* `Workshop.GaveUp.requeues` — a call that comes back leaves nothing behind
* `Workshop.GaveUp.next` — the ledger is right after every event
* `Ledger.Reaches.none_left` — a call that comes back when no job is stopping brings all back
* `Ledger.Reaches.rendering_iff_given` — with nothing left to do, the chunks that render are those
  in the ledger
* `exists_left_rendering` — an edit that comes while a job is stopping does not bring its chunk back
-/

namespace Montage

open SessionAction

/-! ### Ledgers -/

/-- A call that shows or invalidates something. -/
def SessionEvent.isCall : SessionEvent → Bool
  | .openProject .. | .update .. | .invalidate .. => true
  | _ => false

/-- What is given up in an event: what is taken off the queue after it was left behind before, and
what a job leaves that was told to stop. -/
def SessionEvent.givesUp (event : SessionEvent) (studio : Studio) : List Nat :=
  match event with
  | .cancel index => studio.givesUpAt index
  | .stopAll => studio.rendersAmong studio.scheduler.queue
  | .finishCancel => studio.givesUpEnded
  | .work => studio.givesUpNext ChunkRender.worker
  | _ => []

/-- The chunks that were given up since a call last came back, with those of an event. -/
def SessionEvent.giveUp (event : SessionEvent) (studio : Studio) (given : List Nat) : List Nat :=
  if event.isCall && succeeds event.action studio then [] else given ++ event.givesUp studio

/-- A session, and the numbers of the chunks that were given up since a call last came back. -/
abbrev Ledger := Annals Studio (List Nat)

namespace Ledger

/-- What an event leads to. -/
abbrev next (ledger : Ledger) (event : SessionEvent) : Ledger :=
  Annals.next (fun event => leaves event.action) SessionEvent.giveUp ledger event

/-- Events in any order lead from one session to another. -/
def Reaches : Ledger → Ledger → Prop := Leads next fun _ => True

end Ledger

/-! ### Calls -/

/-- Where no chunk is forgotten, none is left behind. -/
theorem GivenUp.of_attends {scheduler : Scheduler Double ChunkRender EncoderReply}
    {cache : Cache Double} (attends : Attends Nowhere scheduler cache) :
    GivenUp [] scheduler cache where
  made := nofun
  left chunk hchunk := by
    refine iff_of_false List.not_mem_nil ?_
    rintro ⟨busy, unserved⟩
    rcases attends chunk hchunk id with valid | failed | served
    · exact absurd (valid.symm.trans busy) (by decide)
    · exact absurd (failed.symm.trans busy) (by decide)
    · exact unserved served

namespace Workshop.GaveUp

variable {given : List Nat} {studio : Studio}

/-- Edits alone neither give up chunks nor bring them back. -/
theorem survivesEdits : SurvivesEdits (Workshop.GaveUp given) where
  session _ _ h := h.of_same rfl rfl
  recut studio _ settings recut h := by
    have order : InOrder { studio.store.cache with settings } studio.scheduler :=
      h.order.of_cache rfl rfl
    have given : GivenUp given studio.scheduler { studio.store.cache with settings } :=
      ⟨h.given.made, h.given.left⟩
    exact ⟨order.recut recut, given.recut recut⟩

/-- When all that waits was queued, nothing is left behind. -/
theorem requeues : Requeues (Workshop.GaveUp given) (Workshop.GaveUp []) where
  edits := survivesEdits
  queues studio urgency retry h :=
    (queueWaiting_attends (Admits.length studio.store.cache.chunks.length) urgency retry h.order
      rfl).mono (fun _ _ hnext => ⟨hnext.1, .of_attends hnext.2.2⟩) fun _ => id

/-- What is brought to the front was not given up, since it waits for a render or has failed. -/
theorem prioritizeNear (h : studio.GaveUp given) (t : Double) (radius : Option Int) :
    Ensures (SessionAction.prioritizeNear t radius) studio (fun _ => Workshop.GaveUp given)
      (Workshop.GaveUp given) := by
  let places (place : Nat) : Prop := ∃ chunk ∈ studio.store.cache.chunks, chunk.index = place ∧
    (chunk.status.needsRender = true ∨ chunk.status = .error)
  have spared : Spares given places studio.store.cache := by
    rintro chunk hchunk ⟨other, hother, same, waits⟩
    obtain rfl := h.order.chunks.eq_of_index hother hchunk same
    refine h.given.not_mem_of_idle hchunk fun busy => ?_
    simp [busy, ChunkState.needsRender] at waits
  -- Some of them may render when their turn comes, but then they have a job.
  let holds (next : Studio) : Prop := next.GaveUp given ∧ Spares given places next.store.cache
  have each (chunk : Chunk Double) (hchunk : chunk ∈ studio.store.cache.chunks)
      (waits : chunk.status.needsRender = true ∨ chunk.status = .error) :
      Keeps holds (WorkshopAction.queue chunk.index .high) ∧
        Keeps holds (WorkshopAction.setUrgency chunk.index .high) := by
    have here (place : Nat) (same : (place : Int) = chunk.index) : places place :=
      ⟨chunk, hchunk, (Int.ofNat.inj same).symm, waits⟩
    constructor
    · intro state hstate
      exact (hstate.1.queueSpared hstate.2 here .high).mono (fun _ _ => id) fun _ => False.elim
    · intro state hstate
      exact (hstate.1.setUrgency hstate.2 here .high).mono (fun _ _ => id) fun _ => False.elim
  have first : holds studio := ⟨h, spared⟩
  exact (prioritizeNear_spec first each t radius).mono (fun _ _ hnext => hnext.1)
    fun _ hnext => hnext.1

end Workshop.GaveUp

/-! ### All runs -/

/-- What is left behind after every event is what was given up since a call last came back. -/
theorem Workshop.GaveUp.next {studio : Studio} {given : List Nat} (h : studio.GaveUp given)
    (event : SessionEvent) : Workshop.GaveUp (event.giveUp studio given) (leaves event.action studio) := by
  unfold SessionEvent.giveUp
  -- A call clears the ledger if it comes back, and leaves it as it is if it fails.
  have called (call : event.isCall = true) (nothing : event.givesUp studio = [])
      (spec : Ensures event.action studio (fun _ => Workshop.GaveUp []) (Workshop.GaveUp given)) :
      Workshop.GaveUp (if event.isCall && succeeds event.action studio then []
        else given ++ event.givesUp studio) (leaves event.action studio) := by
    rw [call, Bool.true_and, nothing, List.append_nil]
    rcases spec.ends with ⟨returned, hnext⟩ | ⟨failed, hnext⟩
    · rw [if_pos returned]
      exact hnext
    · rw [if_neg (by simp [failed])]
      exact hnext
  have steps (call : event.isCall = false)
      (spec : Ensures event.action studio (fun _ => Workshop.GaveUp (given ++ event.givesUp studio))
        (fun next => next.GaveUp (given ++ event.givesUp studio))) :
      Workshop.GaveUp (if event.isCall && succeeds event.action studio then []
        else given ++ event.givesUp studio) (leaves event.action studio) := by
    rw [call, Bool.false_and, if_neg (by simp)]
    exact spec.leaves
  have quiet (call : event.isCall = false) (nothing : event.givesUp studio = [])
      (spec : Ensures event.action studio (fun _ => Workshop.GaveUp given) (Workshop.GaveUp given)) :
      Workshop.GaveUp (if event.isCall && succeeds event.action studio then []
        else given ++ event.givesUp studio) (leaves event.action studio) :=
    steps call (by rwa [nothing, List.append_nil])
  cases event with
  | openProject timeline media path time =>
    exact called rfl rfl (Workshop.GaveUp.requeues.openProject h timeline media path time)
  | update timeline media settings =>
    exact called rfl rfl (Workshop.GaveUp.requeues.update h timeline media settings).dropped
  | invalidate start stop =>
    exact called rfl rfl (Workshop.GaveUp.requeues.invalidate h start stop).dropped
  | prioritize t radius => exact quiet rfl rfl (h.prioritizeNear t radius).dropped
  | cancel index =>
    exact steps rfl ((h.requestCancel index).mono (fun _ _ => id) fun _ => False.elim).dropped
  | stopAll => exact steps rfl (h.requestStopAll.mono (fun _ _ => id) fun _ => False.elim).dropped
  | finishCancel => exact steps rfl (h.finishCancel.mono (fun _ _ => id) fun _ => False.elim)
  | wipe =>
    refine quiet rfl rfl (Workshop.GaveUp.survivesEdits.keeps_onCache (fun state => ?_) _ h)
    exact (CacheAction.wipe_spec state).mono
      (fun _ _ demotes => ⟨state.cache.settings, demotes.toRecut⟩)
      fun _ demotes => ⟨state.cache.settings, demotes.toRecut⟩
  | answer id reply =>
    refine quiet rfl rfl ?_
    rw [SessionEvent.answer_eq]
    refine WorkshopAction.deliver_cases id reply h fun job hjob kept agenda _ => ?_
    let answered : RenderJob := { job with phase := .answered kept reply }
    have same : answered.id = job.id ∧ answered.chunk = job.chunk := ⟨rfl, rfl⟩
    exact (h.putJob hjob same.1 same.2).redate agenda
  | hurry place => exact quiet rfl rfl (h.redate _)
  | work => exact steps rfl (h.runNext ChunkRender.worker_leavesCache)

theorem Studio.IsNew.gaveUp {first : Studio} (new : first.IsNew) : first.GaveUp [] where
  order :=
    have coherent : first.Coherent (fun _ => false) {} := new.coherent
    coherent.order
  given := .of_attends fun chunk hchunk => absurd hchunk (by simp [new.chunks])

theorem Ledger.Reaches.gaveUp {first ledger : Ledger} (reached : Ledger.Reaches first ledger)
    (h : first.state.GaveUp first.account) : ledger.state.GaveUp ledger.account :=
  Leads.keeps (fun ledger : Ledger => ledger.state.GaveUp ledger.account) reached h
    fun _ event _ _ h => h.next event

/-- With nothing queued and no job, whatever renders is left behind. -/
theorem Workshop.GaveUp.rendering_iff {studio : Studio} {given : List Nat} (h : studio.GaveUp given)
    (queue : studio.scheduler.queue = []) (active : studio.scheduler.active = [])
    {chunk : Chunk Double} (hchunk : chunk ∈ studio.store.cache.chunks) :
    chunk.status = .rendering ↔ chunk.serial ∈ given := by
  rw [h.given.left chunk hchunk]
  refine ⟨fun busy => ⟨busy, ?_⟩, LeftBehind.rendering⟩
  simp [Served, queue, active]

/-- A job that goes on gives up nothing. -/
theorem Workshop.givesUpNext_of_goesOn {studio : Studio}
    (jobs : ∀ job ∈ studio.scheduler.active, job.GoesOn) :
    studio.givesUpNext ChunkRender.worker = [] := by
  unfold givesUpNext
  split
  · rfl
  · next id rest _ =>
    split
    · next job found =>
      obtain ⟨outcome, next, ran, real⟩ :=
        (report?_cancels_nothing (jobs job (List.mem_of_find?_eq_some found))).exists_ok
      unfold givesUp
      rw [ran]
      cases outcome with
      | none => rfl
      | some outcome => simp [RenderOutcome.givesUp, real outcome rfl]
    · rfl

/-- While all jobs go on, nothing but a request to cancel gives up a chunk. -/
theorem SessionEvent.givesUp_of_goesOn {studio : Studio} {event : SessionEvent}
    (goesOn : event.GoesOn) (jobs : ∀ job ∈ studio.scheduler.active, job.GoesOn) :
    event.givesUp studio = [] := by
  cases event with
  | work => exact Workshop.givesUpNext_of_goesOn jobs
  | cancel index => exact goesOn.elim
  | stopAll => exact goesOn.elim
  | finishCancel => exact goesOn.elim
  | _ => rfl

/-- While all jobs go on and nothing is cancelled, nothing is given up. -/
theorem Ledger.given_of_goesOn {ledger : Ledger} (watched : ledger.state.Watched true)
    (empty : ledger.account = []) {events : List SessionEvent}
    (goOn : ∀ event ∈ events, event.GoesOn) : (events.foldl next ledger).account = [] := by
  induction events generalizing ledger with
  | nil => exact empty
  | cons event rest ih =>
    obtain ⟨goesOn, others⟩ := List.forall_mem_cons.mp goOn
    refine ih (watched.next event goesOn).lose ?_ others
    rw [Annals.next_account, SessionEvent.giveUp, empty, SessionEvent.givesUp_of_goesOn goesOn watched.jobs]
    exact ite_self _

/-- A call that comes back when no job is stopping brings back all that was cancelled: as long as
nothing is cancelled after it, nothing is left that renders when nothing is queued and no job is
left. -/
theorem Ledger.Reaches.none_left {first : Studio} {before : Ledger} (new : first.IsNew)
    (reached : Ledger.Reaches ⟨first, []⟩ before)
    (jobs : ∀ job ∈ before.state.scheduler.active, job.GoesOn) {call : SessionEvent}
    (isCall : call.isCall = true) (returned : succeeds call.action before.state = true)
    {rest : List SessionEvent} (goOn : ∀ event ∈ rest, event.GoesOn) :
    let after := (call :: rest).foldl next before
    after.state.scheduler.queue = [] → after.state.scheduler.active = [] →
      ∀ chunk ∈ after.state.store.cache.chunks, chunk.status ≠ .rendering := by
  intro after queue active chunk hchunk busy
  have gaveUp := reached.gaveUp new.gaveUp
  have goesOn : call.GoesOn := by cases call <;> trivial
  have watched : before.state.Watched true := ⟨gaveUp.order, jobs, nofun⟩
  have emptied : (before.next call).account = [] := by
    rw [Annals.next_account, SessionEvent.giveUp, isCall, returned]
    rfl
  -- The call has emptied the ledger, and it stays empty as all jobs go on from then on.
  have none : after.account = [] :=
    Ledger.given_of_goesOn (watched.next call goesOn).lose emptied goOn
  have still : after.state.GaveUp after.account :=
    Ledger.Reaches.gaveUp (Leads.any (call :: rest) before) gaveUp
  have left := (still.rendering_iff queue active hchunk).mp busy
  rw [none] at left
  exact absurd left List.not_mem_nil

/-- Whatever is called, cancelled and done in any order: with nothing queued and no job left, a
chunk stays as one that renders exactly if it was given up since a call last came back. -/
theorem Ledger.Reaches.rendering_iff_given {first : Studio} {ledger : Ledger} (new : first.IsNew)
    (reached : Ledger.Reaches ⟨first, []⟩ ledger) (queue : ledger.state.scheduler.queue = [])
    (active : ledger.state.scheduler.active = []) {chunk : Chunk Double}
    (hchunk : chunk ∈ ledger.state.store.cache.chunks) :
    chunk.status = .rendering ↔ chunk.serial ∈ ledger.account :=
  (reached.gaveUp new.gaveUp).rendering_iff queue active hchunk

/-! ### A clip that is cancelled -/

namespace OneClip

/-- The clip is opened and its chunk begins to be rendered, and then other things happen. -/
def ledger (events : List SessionEvent) : Ledger :=
  (rendering.take 2 ++ events).foldl Ledger.next ⟨opened, []⟩

theorem reaches_ledger (events : List SessionEvent) : Ledger.Reaches ⟨opened, []⟩ (ledger events) :=
  Leads.any _ _

/-- All is cancelled, and the job comes to its end. -/
def cancelling : List SessionEvent := [.stopAll, .work, .finishCancel]

/-- The clip is shown again as it is. -/
def touched : SessionEvent := .update (timeline [clip]) none none

/-- The second job for the clip is answered by the encoder, and its end is recorded. -/
def rerendering : List SessionEvent := [
  .work,
  .answer 1 { result := .ok { success := true, exitCode := some 0 }, content := some [1] },
  .work]

end OneClip

/-- A clip that is cancelled is left behind, and comes back when it is shown again. -/
theorem cancelled_clip_comes_back :
    ∃ before after chunk, Ledger.Reaches ⟨OneClip.opened, []⟩ before ∧
      before.state.scheduler.queue = [] ∧ before.state.scheduler.active = [] ∧
      chunk ∈ before.state.store.cache.chunks ∧ chunk.status = .rendering ∧
      Ledger.Reaches before after ∧
      after.state.scheduler.queue = [] ∧ after.state.scheduler.active = [] ∧
      ∀ chunk ∈ after.state.store.cache.chunks, chunk.status ≠ .rendering := by
  let before := OneClip.ledger OneClip.cancelling
  let after := (OneClip.touched :: OneClip.rerendering).foldl Ledger.next before
  have reached : Ledger.Reaches ⟨OneClip.opened, []⟩ before := OneClip.reaches_ledger _
  have onwards : Ledger.Reaches before after := Leads.any _ _
  have left : (OneClip.isIdle before.state && (before.state.store.cache.chunks.any fun chunk =>
      before.account.contains chunk.serial) && OneClip.isIdle after.state && after.account.isEmpty) =
      true := by decide +kernel
  simp only [OneClip.isIdle, Bool.and_eq_true, List.isEmpty_iff, List.any_eq_true,
    List.contains_iff_mem] at left
  obtain ⟨⟨⟨⟨queue, active⟩, chunk, hchunk, given⟩, queue', active'⟩, none⟩ := left
  refine ⟨before, after, chunk, reached, queue, active, hchunk, ?_, onwards, queue', active',
    fun other hother busy => ?_⟩
  · exact (reached.rendering_iff_given OneClip.opened_isNew queue active hchunk).mpr given
  · have continued : Ledger.Reaches ⟨OneClip.opened, []⟩ after := reached.trans onwards
    have back := continued.rendering_iff_given OneClip.opened_isNew queue' active' hother
    exact absurd (back.mp busy) (by simp [none])

/-- When a clip is shown again after all was cancelled, but before its job has come to its end, the
call comes back, and the chunk stays as one that renders with nothing queued and no job left. -/
theorem exists_left_rendering :
    ∃ begun stopping after chunk, Ledger.Reaches ⟨OneClip.opened, []⟩ begun ∧
      stopping = begun.next .stopAll ∧
      succeeds OneClip.touched.action stopping.state = true ∧
      after = [OneClip.touched, .work, .finishCancel].foldl Ledger.next stopping ∧
      after.state.scheduler.queue = [] ∧ after.state.scheduler.active = [] ∧
      chunk ∈ after.state.store.cache.chunks ∧ chunk.status = .rendering := by
  let begun := OneClip.ledger []
  let stopping := begun.next .stopAll
  let after := [OneClip.touched, .work, .finishCancel].foldl Ledger.next stopping
  have reached : Ledger.Reaches ⟨OneClip.opened, []⟩ begun := OneClip.reaches_ledger _
  have left : (succeeds OneClip.touched.action stopping.state && OneClip.isIdle after.state &&
      after.state.store.cache.chunks.any fun chunk => chunk.status = .rendering) = true := by
    decide +kernel
  simp only [OneClip.isIdle, Bool.and_eq_true, List.isEmpty_iff, List.any_eq_true,
    decide_eq_true_eq] at left
  obtain ⟨⟨returned, queue, active⟩, chunk, hchunk, busy⟩ := left
  exact ⟨begun, stopping, after, chunk, reached, rfl, returned, rfl, queue, active, hchunk, busy⟩

end Montage
