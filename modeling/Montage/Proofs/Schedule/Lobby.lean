import Montage.Proofs.Schedule.Lines

/-!
# A lobby with three lines

In a lobby places stand in three lines, one for each urgency, and whoever comes joins the end of its
line. When there is room for one more, the first of the first line that is not empty is called, and has
a slot from then on unless it needs none. Nobody else leaves a line, but who is withdrawn, and who moves
to the end of another line.

A lobby knows neither where entries are inserted nor how jobs are done. But every event does the same
to it as to a workshop, `Lobby.Mirrors.next`, so that its lines are the queue of the workshop, and those
with a slot are the places of the jobs.

## Main definitions

* `Lobby` — three lines, those that have got a slot, and who joined so far
* `ShopEvent.usher` — what an event does to a lobby
* `Lobby.Mirrors` — the queue and the jobs of a workshop are those of a lobby

## Main results

* `Scheduler.fill_call` — slots are given away as the places of a lobby are called
* `Lobby.Mirrors.next` — what an event does to a workshop and to its lobby
* `Annals.Reaches.in_lines` — the queue of every workshop that events lead to
-/

namespace Montage

variable {τ κ ω ρ : Type}

/-- Places in three lines, and those that have got a slot. -/
structure Lobby where
  high : List Int := []
  normal : List Int := []
  low : List Int := []
  /-- The places with a slot, in the order in which they got it. -/
  served : List Int := []
  /-- Who joined a line so far, and which. -/
  arrivals : List QueueEntry := []

namespace Lobby

variable (room : Nat) (needs : Int → Bool) (lobby : Lobby)

def line : Urgency → List Int
  | .high => lobby.high
  | .normal => lobby.normal
  | .low => lobby.low

/-- Those that wait, one line behind the other. -/
def waiting : RenderQueue :=
  lobby.high.map (⟨·, .high⟩) ++ (lobby.normal.map (⟨·, .normal⟩) ++ lobby.low.map (⟨·, .low⟩))

def waits (index : Int) : Bool := lobby.waiting.any (·.index = index)

/-- A place joins the end of a line. -/
def join (index : Int) (urgency : Urgency) : Lobby :=
  let arrivals := lobby.arrivals ++ [⟨index, urgency⟩]
  match urgency with
  | .high => { lobby with high := lobby.high ++ [index], arrivals }
  | .normal => { lobby with normal := lobby.normal ++ [index], arrivals }
  | .low => { lobby with low := lobby.low ++ [index], arrivals }

/-- A place leaves its line. -/
def leave (index : Int) : Lobby :=
  { lobby with
    high := lobby.high.filter (· ≠ index)
    normal := lobby.normal.filter (· ≠ index)
    low := lobby.low.filter (· ≠ index) }

/-- If there is room, a place leaves its line, and has a slot from then on if it needs one. -/
def callOne (index : Int) : Lobby :=
  if room ≤ lobby.served.length then lobby
  else if needs index then { lobby.leave index with served := lobby.served ++ [index] }
  else lobby.leave index

/-- Those that wait are called one after the other. -/
def call : Lobby := (lobby.waiting.map (·.index)).foldl (callOne room needs) lobby

/-- A place that neither waits nor has a slot joins a line. -/
def receive (urgency : Urgency) (index : Int) : Lobby :=
  if lobby.served.contains index || lobby.waits index then lobby
  else (lobby.join index urgency).call room needs

/-- A place that waits moves to the end of another line. -/
def move (index : Int) (urgency : Urgency) : Lobby :=
  if lobby.waiting.any fun entry => entry.index = index && entry.urgency ≠ urgency then
    ((lobby.leave index).join index urgency).call room needs
  else lobby

/-- A place that waits leaves its line for good. -/
def withdraw (index : Int) : Lobby :=
  if lobby.waits index then (lobby.leave index).call room needs else lobby

/-- All that wait leave their lines. -/
def clear : Lobby := { lobby with high := [], normal := [], low := [] }

/-- Places give back their slots. -/
def release (ended : Int → Bool) : Lobby :=
  { lobby with served := lobby.served.filter (!ended ·) }

end Lobby

/-- What an event does to a lobby. Of the workshop it is taken how many slots there are, which places
need one, and how the jobs stand. -/
def ShopEvent.usher [Scalar τ] (worker : Worker τ κ ω ρ) (event : ShopEvent τ ρ)
    (shop : Workshop τ κ ω ρ) (lobby : Lobby) : Lobby :=
  let room := shop.scheduler.limit
  let needs := shop.store.cache.needsJob
  match event with
  | .queue index urgency => lobby.receive room needs urgency index
  | .queueEach indices urgency => indices.foldl (Lobby.receive room needs · urgency) lobby
  | .setUrgency index urgency => lobby.move room needs index urgency
  | .cancel index => lobby.withdraw room needs index
  | .stopAll => lobby.clear
  | .finishCancel =>
    let ended (index : Int) := shop.scheduler.active.any fun job => job.isEnded && job.index = index
    (lobby.release ended).call room needs
  | .work =>
    match shop.endsNext worker with
    | none => lobby
    | some job =>
      let left := lobby.release (· = job.index)
      if shop.againNext worker then (left.join job.index .normal).call room needs
      else if succeeds (WorkshopAction.attemptNext worker) shop then left.call room needs
      else left
  | .edit _ | .answer _ _ | .hurry _ => lobby

/-! ### Lines of a lobby -/

/-- An entry that is in the queue once is all that is dropped. -/
theorem RenderQueue.drop_eq_filter {queue : RenderQueue} (entries : (queue.map (·.index)).Nodup)
    (index : Int) : queue.drop index = queue.filter (·.index ≠ index) := by
  induction queue with
  | nil => rfl
  | cons first rest ih =>
    obtain ⟨single, entries⟩ := List.nodup_cons.mp entries
    by_cases here : first.index = index
    · have others : rest.filter (·.index ≠ index) = rest :=
        List.filter_eq_self.mpr fun entry hentry => decide_eq_true fun same =>
          single (List.mem_map.mpr ⟨entry, hentry, same.trans here.symm⟩)
      rw [drop, List.eraseP_cons_of_pos (by simpa using here), List.filter_cons_of_neg (by simpa using here),
        others]
    · rw [drop, List.eraseP_cons_of_neg (by simpa using here), List.filter_cons_of_pos (by simpa using here)]
      exact congrArg (first :: ·) (ih entries)

namespace Lobby

variable {room : Nat} {needs : Int → Bool} {lobby : Lobby}

theorem urgency_of_mem {line : List Int} {urgency : Urgency} :
    ∀ entry ∈ line.map (⟨·, urgency⟩ : Int → QueueEntry), entry.urgency = urgency := by
  intro entry hentry
  obtain ⟨index, -, rfl⟩ := List.mem_map.mp hentry
  rfl

theorem inLines (lobby : Lobby) : lobby.waiting.InLines :=
  RenderQueue.inLines_of_parts urgency_of_mem urgency_of_mem urgency_of_mem

theorem line_waiting (lobby : Lobby) (urgency : Urgency) :
    lobby.waiting.line urgency = (lobby.line urgency).map (⟨·, urgency⟩) := by
  unfold waiting
  rw [RenderQueue.line_append, RenderQueue.line_append, RenderQueue.line_of_forall urgency_of_mem,
    RenderQueue.line_of_forall urgency_of_mem, RenderQueue.line_of_forall urgency_of_mem]
  cases urgency <;> simp [line]

theorem waits_iff {index : Int} :
    lobby.waits index = true ↔ ∃ entry ∈ lobby.waiting, entry.index = index := by
  simp [waits]

/-- Whoever joins comes where the queue inserts it. -/
theorem waiting_join (lobby : Lobby) (index : Int) (urgency : Urgency) :
    (lobby.join index urgency).waiting = lobby.waiting.enqueue ⟨index, urgency⟩ := by
  have lines : (lobby.waiting.enqueue ⟨index, urgency⟩).InLines := lobby.inLines.enqueue _
  unfold RenderQueue.InLines at lines
  rw [lines]
  simp only [lobby.inLines.line_enqueue, line_waiting]
  cases urgency <;> simp [waiting, join, line]

theorem waiting_leave (lobby : Lobby) (index : Int) :
    (lobby.leave index).waiting = lobby.waiting.filter (·.index ≠ index) := by
  simp [waiting, leave, List.filter_map, Function.comp_def]

/-- Each line is in the order in which those that stand there joined it last. -/
def Sorted (lobby : Lobby) : Prop := lobby.waiting.Follows lobby.arrivals

namespace Sorted

theorem join (h : lobby.Sorted) {index : Int} (new : ∀ entry ∈ lobby.waiting, entry.index ≠ index)
    (urgency : Urgency) : (lobby.join index urgency).Sorted := by
  have arrivals : (lobby.join index urgency).arrivals = lobby.arrivals ++ [⟨index, urgency⟩] := by
    cases urgency <;> rfl
  unfold Sorted
  rw [waiting_join, arrivals]
  exact RenderQueue.Follows.enqueue h fun here => new _ here rfl

theorem leave (h : lobby.Sorted) (index : Int) : (lobby.leave index).Sorted := by
  unfold Sorted
  rw [waiting_leave]
  exact RenderQueue.Follows.sublist h List.filter_sublist

theorem callOne (h : lobby.Sorted) (index : Int) : (lobby.callOne room needs index).Sorted := by
  unfold Lobby.callOne
  split
  · exact h
  · split
    · exact h.leave index
    · exact h.leave index

/-- Calling changes nothing in the order of those who are not called. -/
theorem call (h : lobby.Sorted) : (lobby.call room needs).Sorted := by
  unfold Lobby.call
  generalize lobby.waiting.map (·.index) = indices
  induction indices generalizing lobby with
  | nil => exact h
  | cons index rest ih => exact ih (h.callOne index)

end Sorted

/-- Who is called does not depend on those that do not wait. -/
theorem call_congr {needs' : Int → Bool}
    (same : ∀ entry ∈ lobby.waiting, needs entry.index = needs' entry.index) :
    lobby.call room needs = lobby.call room needs' := by
  unfold call
  refine List.foldl_ext _ _ _ fun called index hindex => ?_
  obtain ⟨entry, hentry, rfl⟩ := List.mem_map.mp hindex
  rw [callOne, callOne, same entry hentry]

end Lobby

/-! ### The lobby of a workshop -/

/-- The places of the jobs, in the order in which they got their slots. -/
def Scheduler.places (scheduler : Scheduler τ ω ρ) : List Int :=
  scheduler.active.map fun job => (job.index : Int)

/-- The queue of a workshop is made of the lines of a lobby, and its jobs are for those who got a slot
there. -/
structure Lobby.Mirrors (lobby : Lobby) (scheduler : Scheduler τ ω ρ) : Prop where
  queue : scheduler.queue = lobby.waiting
  slots : scheduler.places = lobby.served
  sorted : lobby.Sorted

namespace Lobby.Mirrors

variable {lobby : Lobby} {scheduler other : Scheduler τ ω ρ}

theorem of_eq (h : lobby.Mirrors scheduler) (queue : other.queue = scheduler.queue)
    (places : other.places = scheduler.places) : lobby.Mirrors other :=
  ⟨queue.trans h.queue, places.trans h.slots, h.sorted⟩

/-- A job that goes on keeps its place. -/
theorem putJob (h : lobby.Mirrors scheduler) (orderly : scheduler.Orderly) {job next : Job τ ω ρ}
    (hjob : job ∈ scheduler.active) (id : next.id = job.id) (chunk : next.chunk = job.chunk) :
    lobby.Mirrors (scheduler.putJob next) := by
  refine h.of_eq rfl ?_
  unfold Scheduler.places Scheduler.putJob
  rw [List.map_map]
  refine List.map_congr_left fun other hother => ?_
  rw [Function.comp_apply]
  split
  · next same =>
    obtain rfl := orderly.eq_of_id hother hjob (same.trans id)
    exact congrArg (fun chunk : Chunk τ => (chunk.index : Int)) chunk
  · rfl

/-- Jobs that end give back their slots. -/
theorem release (h : lobby.Mirrors scheduler) {keeps : Job τ ω ρ → Bool} {ended : Int → Bool}
    (same : ∀ job ∈ scheduler.active, ended job.index = !keeps job) :
    (lobby.release ended).Mirrors { scheduler with active := scheduler.active.filter keeps } := by
  refine ⟨h.queue, ?_, h.sorted⟩
  unfold Scheduler.places Lobby.release
  rw [← h.slots, Scheduler.places, List.filter_map]
  refine congrArg (List.map _) (List.filter_congr fun job hjob => ?_)
  rw [Function.comp_apply, same job hjob, Bool.not_not]

end Lobby.Mirrors

/-- The lobby where those wait that are in the queue. -/
def Scheduler.lobby (scheduler : Scheduler τ ω ρ) : Lobby where
  high := (scheduler.queue.line .high).map (·.index)
  normal := (scheduler.queue.line .normal).map (·.index)
  low := (scheduler.queue.line .low).map (·.index)
  served := scheduler.places
  arrivals := scheduler.queue

/-- A queue that is made of its lines has a lobby, where those that wait could have come in the order in
which they wait. -/
theorem Scheduler.mirrors_lobby {scheduler : Scheduler τ ω ρ} (lines : scheduler.queue.InLines)
    (entries : (scheduler.queue.map (·.index)).Nodup) : scheduler.lobby.Mirrors scheduler := by
  have back (urgency : Urgency) : ((scheduler.queue.line urgency).map (·.index)).map
      (⟨·, urgency⟩ : Int → QueueEntry) = scheduler.queue.line urgency := by
    refine (List.map_map ..).trans ((List.map_congr_left fun entry hentry => ?_).trans (List.map_id _))
    rw [Function.comp_apply, ← RenderQueue.urgency_of_mem_line hentry]
    rfl
  have waiting : scheduler.lobby.waiting = scheduler.queue := by
    refine Eq.trans ?_ lines.symm
    unfold lobby Lobby.waiting
    rw [back, back, back]
  refine ⟨waiting.symm, rfl, ?_⟩
  rw [Lobby.Sorted, waiting]
  refine ⟨lines, fun urgency => ?_⟩
  have once : (scheduler.queue.filter (·.urgency = urgency)).Nodup :=
    (List.Nodup.of_map _ entries).filter _
  rw [lobby, RenderQueue.lastAdmitted, once.dedup]
  exact .refl _

/-- A chunk that begins is not valid before and after. -/
theorem Cache.Orderly.needsJob_begin {cache : Cache τ} (orderly : cache.Orderly) {index : Int}
    {chunk : Chunk τ} (found : cache.get index = .ok chunk) (waits : chunk.status ≠ .valid) :
    (cache.put (Cache.beginRender chunk)).needsJob = cache.needsJob := by
  have serial : (Cache.beginRender chunk).serial = chunk.serial := rfl
  funext other
  by_cases same : other = index
  · rw [same, needsJob_of_get found, needsJob_of_get (get_put found serial)]
    exact (decide_eq_true waits).symm
  · unfold needsJob
    rw [orderly.get_put_of_ne (mem_of_get found) serial]
    rw [orderly.index_of_get found]
    exact Ne.symm same

/-- While slots are given away it stays so how many there are and who needs one. -/
theorem Scheduler.pumps_needs (room : Nat) (needs : Int → Bool) :
    Pumps fun (scheduler : Scheduler τ ω ρ) cache => scheduler.limit = room ∧ cache.needsJob = needs where
  idle _ _ _ h := h
  skip _ _ _ _ _ _ h _ := h
  begin _ _ _ _ _ order _ _ h found waits := ⟨h.1, (order.chunks.needsJob_begin found waits).trans h.2⟩

section Events

variable [Scalar τ]

/-- Slots are given away as the places of a lobby are called. -/
theorem Scheduler.fill_call (queue : RenderQueue) (scheduler : Scheduler τ ω ρ) (cache : Cache τ)
    (orderly : cache.Orderly) (entries : (queue.map (·.index)).Nodup) {lobby : Lobby}
    (waiting : lobby.waiting = queue) (slots : scheduler.places = lobby.served) :
    let called := (queue.map (·.index)).foldl (Lobby.callOne scheduler.limit cache.needsJob) lobby
    (fill queue scheduler cache).1.queue = called.waiting ∧
      (fill queue scheduler cache).1.places = called.served := by
  -- A place that is called leaves the rest of the queue.
  have leaves {entry : QueueEntry} {rest : RenderQueue} {lobby : Lobby}
      (entries : ((entry :: rest).map (·.index)).Nodup) (waiting : lobby.waiting = entry :: rest) :
      (lobby.leave entry.index).waiting = rest := by
    rw [Lobby.waiting_leave, waiting, ← RenderQueue.drop_eq_filter entries, RenderQueue.drop,
      List.eraseP_cons_of_pos (by simp)]
  have length (scheduler : Scheduler τ ω ρ) {lobby : Lobby} (slots : scheduler.places = lobby.served) :
      scheduler.active.length = lobby.served.length := by
    rw [← slots, places, List.length_map]
  -- The cases of `fill`: nobody waits, no slot is left, the first entry has no chunk or a valid one, or it
  -- gets a slot. Each is a case of `callOne`, and the rest of the queue is gone through.
  fun_induction fill queue scheduler cache generalizing lobby with
  | case1 scheduler cache => exact ⟨waiting.symm, slots⟩
  | case2 entry rest scheduler cache full =>
    have stays : ∀ indices : List Int,
        indices.foldl (Lobby.callOne scheduler.limit cache.needsJob) lobby = lobby := by
      intro indices
      induction indices with
      | nil => rfl
      | cons index rest ih =>
        rw [List.foldl_cons, Lobby.callOne, if_pos (length scheduler slots ▸ full), ih]
    dsimp only
    rw [stays]
    exact ⟨waiting.symm, slots⟩
  | case3 entry rest scheduler cache free cause absent ih =>
    have passed : cache.needsJob entry.index = false := by
      rw [Cache.needsJob, absent]
      rfl
    rw [List.map_cons, List.foldl_cons, Lobby.callOne, if_neg (length scheduler slots ▸ free), passed,
      if_neg Bool.false_ne_true]
    exact ih orderly (List.nodup_cons.mp entries).2 (leaves entries waiting) slots
  | case4 entry rest scheduler cache free chunk found valid ih =>
    have passed : cache.needsJob entry.index = false := by
      rw [Cache.needsJob_of_get found, valid]
      rfl
    rw [List.map_cons, List.foldl_cons, Lobby.callOne, if_neg (length scheduler slots ▸ free), passed,
      if_neg Bool.false_ne_true]
    exact ih orderly (List.nodup_cons.mp entries).2 (leaves entries waiting) slots
  | case5 entry rest scheduler cache free chunk found waits ih =>
    have called : cache.needsJob entry.index = true := by
      rw [Cache.needsJob_of_get found, decide_eq_true waits]
    have orderly' : (cache.put (Cache.beginRender chunk)).Orderly :=
      orderly.put (Cache.mem_of_get found) rfl rfl fun g hg => Nat.le_of_eq (Option.some.inj hg).symm
    have slots' : (scheduler.addJob chunk).places = lobby.served ++ [entry.index] := by
      rw [places, addJob, List.map_append, ← orderly.index_of_get found, ← slots]
      rfl
    rw [List.map_cons, List.foldl_cons, Lobby.callOne, if_neg (length scheduler slots ▸ free), called,
      if_pos rfl, ← orderly.needsJob_begin found waits]
    have left : ({ lobby.leave entry.index with served := lobby.served ++ [entry.index] } : Lobby).waiting =
      rest := leaves entries waiting
    exact ih orderly' (List.nodup_cons.mp entries).2 left slots'

/-- A workshop in order with so many slots, of which some places need one, and its lobby. -/
structure Workshop.Lined (room : Nat) (needs : Int → Bool) (lobby : Lobby) (shop : Workshop τ κ ω ρ) :
    Prop where
  order : InOrder shop.store.cache shop.scheduler
  room : shop.scheduler.limit = room
  needs : shop.store.cache.needsJob = needs
  mirrors : lobby.Mirrors shop.scheduler

namespace Workshop.Lined

variable {shop : Workshop τ κ ω ρ} {room : Nat} {needs : Int → Bool} {lobby : Lobby}

/-- Slots are given away, and those that wait are called. -/
theorem pumped (h : shop.Lined room needs lobby) : shop.pumped.Lined room needs (lobby.call room needs) := by
  obtain ⟨order, room', needs'⟩ := (Scheduler.pumps_needs room needs).pumped h.order ⟨h.room, h.needs⟩
  obtain ⟨waiting, slots⟩ := Scheduler.fill_call shop.scheduler.queue shop.scheduler shop.store.cache
    h.order.chunks h.order.jobs.entries h.mirrors.queue.symm h.mirrors.slots
  rw [h.room, h.needs, h.mirrors.queue] at waiting slots
  refine ⟨order, room', needs', ?_, ?_, h.mirrors.sorted.call⟩
  · rw [Lobby.call, ← waiting, ← h.mirrors.queue]
    rfl
  · rw [Lobby.call, ← slots, ← h.mirrors.queue]
    rfl

omit [Scalar τ] in
/-- A place that is admitted joins a line. -/
theorem admitting (h : shop.Lined room needs lobby) {index : Int}
    (free : shop.scheduler.serves index = false) (urgency : Urgency) :
    (shop.admitting ⟨index, urgency⟩).Lined room needs (lobby.join index urgency) := by
  refine ⟨h.order.admitting free, h.room, h.needs, ?_, ?_, ?_⟩
  · rw [Lobby.waiting_join, ← h.mirrors.queue]
    rfl
  · have served : (lobby.join index urgency).served = lobby.served := by cases urgency <;> rfl
    rw [served]
    exact h.mirrors.slots
  · refine h.mirrors.sorted.join (fun entry hentry => ?_) urgency
    exact Scheduler.entry_index_ne free entry (h.mirrors.queue ▸ hentry)

omit [Scalar τ] in
/-- A place that is taken off the queue leaves its line. -/
theorem dropping (h : shop.Lined room needs lobby) (index : Int) (idle : Bool) :
    Workshop.Lined room needs (lobby.leave index) { shop with scheduler := { shop.scheduler with
      queue := shop.scheduler.queue.drop index, idle } } := by
  refine ⟨(h.order.dequeue (RenderQueue.drop_sublist _ index)).of_eq rfl rfl rfl, h.room, h.needs, ?_,
    h.mirrors.slots, h.mirrors.sorted.leave index⟩
  rw [Lobby.waiting_leave, ← h.mirrors.queue, ← RenderQueue.drop_eq_filter h.order.jobs.entries]

omit [Scalar τ] in
/-- A place is served if it has got a slot or waits. -/
theorem serves_eq (h : shop.Lined room needs lobby) (index : Int) :
    shop.scheduler.serves index = (lobby.served.contains index || lobby.waits index) := by
  rw [Bool.eq_iff_iff, Scheduler.serves_iff, Bool.or_eq_true, Lobby.waits_iff, List.contains_iff_mem,
    ← h.mirrors.slots, ← h.mirrors.queue, Scheduler.places, List.mem_map]

theorem queue (h : shop.Lined room needs lobby) (index : Int) (urgency : Urgency) :
    Ensures (WorkshopAction.queue index urgency) shop
      (fun _ next => next.Lined room needs (lobby.receive room needs urgency index)) (fun _ => False) := by
  refine (WorkshopAction.queue_cases index urgency shop).mono ?_ fun _ => id
  unfold Lobby.receive
  rw [← h.serves_eq]
  rintro admitted next (⟨-, served, rfl⟩ | ⟨-, free, rfl⟩)
  · rwa [if_pos served]
  · rw [if_neg (Bool.eq_false_iff.mp free)]
    exact (h.admitting free urgency).pumped

theorem queueEach (h : shop.Lined room needs lobby) (indices : List Int) (urgency : Urgency) :
    Ensures (WorkshopAction.queueEach indices urgency) shop
      (fun _ next => next.Lined room needs (indices.foldl (Lobby.receive room needs · urgency) lobby))
      (fun _ => False) := by
  let lined (tested _ : List Int) (state : Workshop τ κ ω ρ) : Prop :=
    state.Lined room needs (tested.foldl (Lobby.receive room needs · urgency) lobby)
  have each (tested met : List Int) (index : Int) (rest : List Int) (state : Workshop τ κ ω ρ)
      (_ : indices = tested ++ index :: rest) (hstate : lined tested met state) :
      Ensures (WorkshopAction.queue index urgency) state (fun admitted next =>
        lined (tested ++ [index]) (if admitted then met ++ [index] else met) next) fun _ => False := by
    refine (hstate.queue index urgency).mono (fun _ next hnext => ?_) fun _ => id
    unfold lined
    rwa [List.foldl_append]
  exact Ensures.filterM_tested each h

theorem setUrgency (h : shop.Lined room needs lobby) (index : Int) (urgency : Urgency) :
    Ensures (WorkshopAction.setUrgency index urgency) shop
      (fun _ next => next.Lined room needs (lobby.move room needs index urgency)) (fun _ => False) := by
  refine (WorkshopAction.setUrgency_cases index urgency h.order).mono ?_ fun _ => id
  rintro moved next (⟨-, rfl, settled⟩ | ⟨-, ⟨entry, hentry, here, other⟩, free, rfl⟩)
  · have stays : lobby.waiting.any (fun entry => entry.index = index && entry.urgency ≠ urgency) = false := by
      rw [List.any_eq_false]
      intro entry hentry moves
      rw [Bool.and_eq_true, decide_eq_true_eq, decide_eq_true_eq] at moves
      exact moves.2 (settled entry (h.mirrors.queue ▸ hentry) moves.1)
    rwa [Lobby.move, stays, if_neg Bool.false_ne_true]
  · have moves : lobby.waiting.any (fun entry => entry.index = index && entry.urgency ≠ urgency) = true :=
      List.any_eq_true.mpr ⟨entry, h.mirrors.queue ▸ hentry, by simp [here, other]⟩
    rw [Lobby.move, moves, if_pos rfl]
    exact ((h.dropping index false).admitting free urgency).pumped

/-- A place that is cancelled leaves its line; who has a job keeps the slot until the job has ended. -/
theorem requestCancel (h : shop.Lined room needs lobby) (index : Int) :
    Ensures (WorkshopAction.requestCancel index) shop
      (fun _ next => (lobby.withdraw room needs index).Mirrors next.scheduler) (fun _ => False) := by
  have waits : (shop.scheduler.queue.entryOf? index).isSome = lobby.waits index := by
    rw [Bool.eq_iff_iff, RenderQueue.entryOf?_isSome, Lobby.waits_iff, h.mirrors.queue]
  refine (WorkshopAction.requestCancel_cases index shop).mono ?_ fun _ => id
  unfold Lobby.withdraw
  rw [waits]
  rintro step next (⟨here, -, rfl⟩ | ⟨absent, ⟨-, rfl⟩ | ⟨job, hjob, -, rfl⟩⟩)
  · rw [if_pos here]
    exact (h.dropping index shop.scheduler.idle).pumped.mirrors
  · rw [if_neg (Bool.eq_false_iff.mp absent)]
    exact h.mirrors
  · rw [if_neg (Bool.eq_false_iff.mp absent)]
    exact (h.mirrors.putJob h.order.jobs hjob job.same_stop.id job.same_stop.chunk).of_eq rfl rfl

end Workshop.Lined

/-- A job that comes to its end leaves its slot, and its place joins a line if it is queued again. -/
theorem Ends.mirrors {job : Job τ ω ρ} {left next : Workshop τ κ ω ρ} {again returned : Bool}
    {lobby : Lobby} (ends : Ends job.index left again returned next)
    (free : left.scheduler.serves job.index = false) (h : lobby.Mirrors left.scheduler) :
    let room := left.scheduler.limit
    let needs := left.store.cache.needsJob
    (if again then (lobby.join job.index .normal).call room needs
      else if returned then lobby.call room needs else lobby).Mirrors next.scheduler := by
  intro room needs
  cases ends with
  | lost same order => exact same ▸ h
  | @given middle same order away =>
    have lined : middle.Lined room middle.store.cache.needsJob lobby :=
      ⟨order, congrArg (·.limit) same, rfl, same ▸ h⟩
    -- Only the chunk of the job has changed, and nobody waits for its place.
    have called : lobby.call room needs = lobby.call room middle.store.cache.needsJob :=
      Lobby.call_congr fun entry hentry =>
        (away entry.index (Scheduler.entry_index_ne free entry (h.queue ▸ hentry))).symm
    rw [if_neg Bool.false_ne_true, if_pos rfl, called]
    exact lined.pumped.mirrors
  | @again middle chunk _ same order unchanged _ _ =>
    have lined : middle.Lined room needs lobby :=
      ⟨order, congrArg (·.limit) same, unchanged, same ▸ h⟩
    rw [if_pos rfl]
    exact (lined.admitting (same ▸ free) .normal).pumped.mirrors

/-- The step of a job does the same to a workshop and to its lobby. -/
theorem Lobby.Mirrors.work {worker : Worker τ κ ω ρ} {shop : Workshop τ κ ω ρ} {lobby : Lobby}
    (h : lobby.Mirrors shop.scheduler) (order : InOrder shop.store.cache shop.scheduler)
    (tame : worker.LeavesCache) :
    (ShopEvent.work.usher worker shop lobby).Mirrors
      (leaves (WorkshopAction.runNext worker) shop).scheduler := by
  have works := WorkshopAction.runNext_works tame order
  unfold ShopEvent.usher
  revert works
  generalize leaves (WorkshopAction.runNext worker) shop = next
  generalize shop.endsNext worker = ended
  generalize shop.againNext worker = again
  generalize succeeds (WorkshopAction.attemptNext worker) shop = returned
  -- Nothing was due but what no job is to do, a job goes on, or it leaves its slot.
  rintro (⟨-, scheduler, -⟩ | @⟨_, before, after, hjob, -, advances, scheduler, -⟩ |
    @⟨middle, _, job, _, _, hjob, -, scheduler, cache, ends⟩)
  · exact h.of_eq (by rw [scheduler]) (by rw [scheduler]; rfl)
  · have put := h.putJob order.jobs hjob advances.same.1 advances.same.2
    exact put.of_eq (by rw [scheduler]) (by rw [scheduler]; rfl)
  · have left : (middle.without job).scheduler =
        { shop.scheduler.dropJob job.id with agenda := shop.scheduler.agenda.tail } := by
      rw [Workshop.without, scheduler]
      rfl
    have free : (middle.without job).scheduler.serves job.index = false :=
      left ▸ order.jobs.free_of_dropJob hjob
    have released : (lobby.release (· = job.index)).Mirrors (middle.without job).scheduler := by
      have gone : (lobby.release (· = job.index)).Mirrors (shop.scheduler.dropJob job.id) := by
        refine h.release fun other hother => ?_
        by_cases same : other.id = job.id
        · simp [order.jobs.eq_of_id hother hjob same]
        · have apart : ¬(other.index : Int) = job.index := fun here =>
            same (congrArg Job.id (order.jobs.eq_of_index hother hjob (Int.ofNat.inj here)))
          rw [decide_eq_false apart, decide_eq_true same]
          rfl
      exact gone.of_eq (by rw [left]) (by rw [left]; rfl)
    have done := ends.mirrors free released
    have room : (middle.without job).scheduler.limit = shop.scheduler.limit := by rw [left]; rfl
    have needs : (middle.without job).store.cache.needsJob = shop.store.cache.needsJob := by
      rw [Workshop.without, cache]
    rwa [room, needs] at done

/-- Every event does the same to a workshop and to its lobby. -/
theorem Lobby.Mirrors.next {worker : Worker τ κ ω ρ} {shop : Workshop τ κ ω ρ} {lobby : Lobby}
    (h : lobby.Mirrors shop.scheduler) (order : InOrder shop.store.cache shop.scheduler)
    (tame : worker.LeavesCache) (event : ShopEvent τ ρ) :
    (event.usher worker shop lobby).Mirrors (leaves (event.action worker) shop).scheduler := by
  have lined : shop.Lined shop.scheduler.limit shop.store.cache.needsJob lobby := ⟨order, rfl, rfl, h⟩
  cases event with
  | queue index urgency =>
    obtain ⟨_, -, hnext⟩ := (lined.queue index urgency).exists_value
    rw [ShopEvent.action, leaves_discard]
    exact hnext.mirrors
  | queueEach indices urgency =>
    obtain ⟨_, -, hnext⟩ := (lined.queueEach indices urgency).exists_value
    rw [ShopEvent.action, leaves_discard]
    exact hnext.mirrors
  | setUrgency index urgency =>
    obtain ⟨_, -, hnext⟩ := (lined.setUrgency index urgency).exists_value
    rw [ShopEvent.action, leaves_discard]
    exact hnext.mirrors
  | cancel index =>
    obtain ⟨_, -, hnext⟩ := (lined.requestCancel index).exists_value
    rw [ShopEvent.action, leaves_discard]
    exact hnext
  | stopAll =>
    refine ⟨rfl, ?_, .nil _⟩
    refine Eq.trans ?_ h.slots
    refine (List.map_map ..).trans (List.map_congr_left fun job _ => ?_)
    exact congrArg (fun chunk : Chunk τ => (chunk.index : Int)) job.same_stop.chunk
  | finishCancel =>
    let released : Workshop τ κ ω ρ := { shop with scheduler := shop.scheduler.forgetEnded }
    let ended (index : Int) := shop.scheduler.active.any fun job => job.isEnded && job.index = index
    -- A place has one job, so that a job has ended where its place gives back the slot.
    have left : released.Lined shop.scheduler.limit shop.store.cache.needsJob (lobby.release ended) := by
      refine ⟨order.release List.filter_sublist, rfl, rfl, h.release fun job hjob => ?_⟩
      rw [Bool.not_not, Bool.eq_iff_iff, List.any_eq_true]
      constructor
      · rintro ⟨other, hother, gone⟩
        rw [Bool.and_eq_true, decide_eq_true_eq] at gone
        rw [← order.jobs.eq_of_index hother hjob (Int.ofNat.inj gone.2)]
        exact gone.1
      · exact fun gone => ⟨job, hjob, by simp [gone]⟩
    exact left.pumped.mirrors
  | edit change =>
    rw [ShopEvent.action, WorkshopAction.scheduler_onCache]
    exact h
  | answer id reply =>
    rw [ShopEvent.action]
    rcases WorkshopAction.leaves_deliver id reply shop with same | ⟨job, hjob, kept, agenda, -, same⟩
    · rw [same]
      exact h
    · rw [same]
      have put : lobby.Mirrors (shop.scheduler.putJob { job with phase := .answered kept reply }) :=
        h.putJob order.jobs hjob rfl rfl
      exact put.of_eq rfl rfl
  | hurry place =>
    have same : lobby.Mirrors (leaves (WorkshopAction.hurry place) shop).scheduler := h.of_eq rfl rfl
    exact same
  | work => exact h.work order tame

/-- The queue of every workshop that events lead to is made of the lines of its lobby, one behind the
other, and the jobs are for those that got a slot there. In each line those stand that joined it and
have not left it since, in the order in which they joined it last. Slots go to the first entries, each of
which gets a job for its chunk unless that is valid or not there, until no slot is left. Moving an entry
to another urgency loses nobody and puts nobody into the queue twice. -/
theorem Annals.Reaches.in_lines {worker : Worker τ κ ω ρ} {shop : Workshop τ κ ω ρ}
    {annals : Annals (Workshop τ κ ω ρ) Lobby} (tame : worker.LeavesCache) (new : shop.IsNew)
    (reached : Annals.Reaches worker (ShopEvent.usher worker) ⟨shop, {}⟩ annals) :
    let scheduler := annals.state.scheduler
    let lobby := annals.account
    scheduler.queue = lobby.high.map (⟨·, .high⟩) ++
      (lobby.normal.map (⟨·, .normal⟩) ++ lobby.low.map (⟨·, .low⟩)) ∧
    (scheduler.active.map fun job => (job.index : Int)) = lobby.served ∧
    (∀ urgency, scheduler.queue.line urgency = (lobby.line urgency).map (⟨·, urgency⟩) ∧
      (scheduler.queue.line urgency).Sublist
        (lobby.arrivals.filter (·.urgency = urgency)).dedup) ∧
    annals.state.store.cache.Orderly ∧ (scheduler.queue.map (·.index)).Nodup ∧
    (∀ other : Workshop τ κ ω ρ, other.store.cache.Orderly →
      (other.scheduler.queue.map (·.index)).Nodup →
      let next := leaves WorkshopAction.pump other
      (∃ taken started, other.scheduler.queue = taken ++ next.scheduler.queue ∧
        next.scheduler.active = other.scheduler.active ++ started ∧
        started.map (·.chunk) = taken.filterMap other.store.cache.waiting?) ∧
      (next.scheduler.queue = [] ∨
        next.scheduler.limit ≤ next.scheduler.active.length)) ∧
    ∀ index urgency,
      let next := leaves (WorkshopAction.setUrgency index urgency) annals.state
      ∃ taken started,
        (taken ++ next.scheduler.queue).Perm (scheduler.queue.map fun entry =>
          if entry.index = index then ⟨index, urgency⟩ else entry) ∧
        next.scheduler.active = scheduler.active ++ started ∧
        started.map (·.chunk) = taken.filterMap annals.state.store.cache.waiting? := by
  intro scheduler lobby
  have mirrors : annals.account.Mirrors annals.state.scheduler := by
    let mirrors (annals : Annals (Workshop τ κ ω ρ) Lobby) := annals.account.Mirrors annals.state.scheduler
    have places : shop.scheduler.places = [] := by rw [Scheduler.places, new.active, List.map_nil]
    have first : mirrors ⟨shop, {}⟩ := ⟨new.queue, places, .nil _⟩
    refine reached.keeps new tame first fun annals diary event staffed h => ?_
    exact h.next staffed.order tame event
  obtain ⟨diary, staffed⟩ := reached.staffed new tame
  refine ⟨mirrors.queue, mirrors.slots, fun urgency => ?_, staffed.order.chunks,
    staffed.order.jobs.entries, fun other orderly entries => ?_, fun index urgency => ?_⟩
  · rw [show scheduler.queue = lobby.waiting from mirrors.queue]
    exact ⟨lobby.line_waiting urgency, mirrors.sorted.order urgency⟩
  · exact ⟨other.pumped_takes orderly entries, other.pumped_settled⟩
  · exact Workshop.setUrgency_takes staffed.order index urgency

end Events

/-- Others wait while the first of two places is rendered; one of them moves up, and one is cancelled.
Since all is invalidated meanwhile, the first place stands in line again behind the second. -/
def TwoPlaces.comings : List (ShopEvent Double Bool) :=
  [.queue 0 .normal, .work, .queue 5 .low, .queue 1 .normal, .queue 7 .low, .setUrgency 7 .high,
    .queue 6 .low, .cancel 6, .edit .invalidateEvery, .answer 0 true, .work]

/-- The place that moved up is first in line, and is passed over since it is not in the partition. -/
theorem two_places_stand_in_line :
    ∃ annals : Annals (Workshop Double Unit Unit Bool) Lobby,
      Annals.Reaches TwoPlaces.worker (ShopEvent.usher TwoPlaces.worker) ⟨TwoPlaces.shop, {}⟩
        annals ∧
      annals.account.arrivals =
        [⟨0, .normal⟩, ⟨5, .low⟩, ⟨1, .normal⟩, ⟨7, .low⟩, ⟨7, .high⟩, ⟨6, .low⟩, ⟨0, .normal⟩] ∧
      annals.account.normal = [0] ∧ annals.account.low = [5] ∧ annals.account.served = [1] ∧
      annals.state.scheduler.active.map (·.index) = [1] ∧
      annals.state.scheduler.queue = annals.account.high.map (⟨·, .high⟩) ++
        (annals.account.normal.map (⟨·, .normal⟩) ++ annals.account.low.map (⟨·, .low⟩)) := by
  have reached : Annals.Reaches TwoPlaces.worker (ShopEvent.usher TwoPlaces.worker) _ _ :=
    Leads.any TwoPlaces.comings ⟨TwoPlaces.shop, {}⟩
  obtain ⟨lines, -⟩ := reached.in_lines TwoPlaces.worker_leavesCache TwoPlaces.shop_isNew
  exact ⟨_, reached, by decide +kernel, by decide +kernel, by decide +kernel, by decide +kernel,
    by decide +kernel, lines⟩

end Montage
