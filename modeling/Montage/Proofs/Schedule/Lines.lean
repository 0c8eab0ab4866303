import Montage.Proofs.Lists
import Montage.Proofs.Schedule.Turn

/-!
# The queue is three lines

Where an entry is inserted is found by counting the urgent entries, by searching for the first one
that is not urgent at all, or by going to the end. That makes a line of each urgency, one behind the
other, as long as the queue was made of such lines before. In each line those wait that were admitted
with its urgency, in the order in which they were admitted last.

## Main definitions

* `RenderQueue.line`, `RenderQueue.InLines` — the line of an urgency, and a queue that is made of
  its lines
* `RenderQueue.Follows` — the lines of a queue are in the order of the admissions
* `ShopEvent.admitted` — who is admitted to the queue by an event

## Main results

* `RenderQueue.InLines.enqueue_eq` — who is admitted comes last in the line of the urgency
* `Workshop.pumped_takes` — slots go to the first entries, and only to them
* `Workshop.setUrgency_takes` — who moves to another line stays the only one that moves
-/

namespace Montage

variable {τ κ ω ρ : Type}

namespace RenderQueue

/-! ### Lines -/

/-- Those that wait with an urgency. -/
def line (queue : RenderQueue) (urgency : Urgency) : RenderQueue :=
  queue.filter (·.urgency = urgency)

/-- A queue that is made of its lines, one behind the other. -/
def InLines (queue : RenderQueue) : Prop :=
  queue = queue.line .high ++ (queue.line .normal ++ queue.line .low)

theorem line_append (front back : RenderQueue) (urgency : Urgency) :
    (front ++ back).line urgency = front.line urgency ++ back.line urgency :=
  List.filter_append front back

theorem urgency_of_mem_line {queue : RenderQueue} {urgency : Urgency} {entry : QueueEntry}
    (h : entry ∈ queue.line urgency) : entry.urgency = urgency :=
  of_decide_eq_true (List.mem_filter.mp h).2

/-- A line is its own line, and has none of another urgency. -/
theorem line_of_forall {queue : RenderQueue} {urgency : Urgency}
    (same : ∀ entry ∈ queue, entry.urgency = urgency) (other : Urgency) :
    queue.line other = if other = urgency then queue else [] := by
  by_cases own : other = urgency
  · rw [if_pos own, own]
    exact List.filter_eq_self.mpr fun entry hentry => decide_eq_true (same entry hentry)
  · rw [if_neg own]
    refine List.filter_eq_nil_iff.mpr fun entry hentry here => own ?_
    exact (of_decide_eq_true here).symm.trans (same entry hentry)

/-- Parts of one urgency each are the lines of the queue that they make. -/
theorem inLines_of_parts {high normal low : RenderQueue}
    (highs : ∀ entry ∈ high, entry.urgency = .high)
    (normals : ∀ entry ∈ normal, entry.urgency = .normal)
    (lows : ∀ entry ∈ low, entry.urgency = .low) :
    InLines (high ++ (normal ++ low)) := by
  unfold InLines
  simp only [line_append, line_of_forall highs, line_of_forall normals, line_of_forall lows]
  simp

namespace InLines

variable {queue part : RenderQueue}

/-- What is left of the queue is made of what is left of its lines. -/
theorem sublist (lines : queue.InLines) (sub : part.Sublist queue) : part.InLines := by
  unfold InLines at lines
  rw [lines] at sub
  obtain ⟨high, rest, rfl, highs, sub⟩ := List.sublist_append_iff.mp sub
  obtain ⟨normal, low, rfl, normals, lows⟩ := List.sublist_append_iff.mp sub
  exact inLines_of_parts (fun _ h => urgency_of_mem_line (highs.subset h))
    (fun _ h => urgency_of_mem_line (normals.subset h))
    fun _ h => urgency_of_mem_line (lows.subset h)

/-- The urgent are in the first line. -/
theorem place_high (queue : RenderQueue) : queue.place .high = (queue.line .high).length :=
  List.countP_eq_length_filter

/-- Behind the first two lines stands the first that is not urgent at all, or nobody. -/
theorem place_normal (lines : queue.InLines) :
    queue.place .normal = (queue.line .high ++ queue.line .normal).length := by
  have before : ∀ entry ∈ queue.line .high ++ queue.line .normal,
      decide (entry.urgency = .low) = false := by
    intro entry hentry
    rcases List.mem_append.mp hentry with h | h <;> simp [urgency_of_mem_line h]
  have first : (queue.line .low).findIdx (·.urgency = .low) = 0 := by
    cases hlow : queue.line .low with
    | nil => rfl
    | cons entry rest =>
      have here := urgency_of_mem_line (hlow ▸ List.mem_cons_self : entry ∈ queue.line .low)
      simp [List.findIdx_cons, here]
  unfold InLines at lines
  rw [← List.append_assoc] at lines
  have whole := List.findIdx_eq_length.mpr before
  calc queue.place .normal
      = (queue.line .high ++ queue.line .normal ++ queue.line .low).findIdx
          (·.urgency = .low) := by rw [← lines]; rfl
    _ = (queue.line .high ++ queue.line .normal).length := by
        rw [List.findIdx_append, whole, if_neg (Nat.lt_irrefl _), first, Nat.zero_add]

/-- Who is admitted comes last in the line of the urgency, and nobody else moves. -/
theorem enqueue_eq (lines : queue.InLines) (entry : QueueEntry) :
    ∃ front back, queue = front ++ back ∧ queue.enqueue entry = front ++ entry :: back ∧
      (∀ other ∈ back, other.urgency ≠ entry.urgency) ∧ (front ++ entry :: back).InLines := by
  have whole : queue = queue.line .high ++ (queue.line .normal ++ queue.line .low) := lines
  have inserted {front back : RenderQueue} (parts : queue = front ++ back)
      (place : queue.place entry.urgency = front.length) :
      queue.enqueue entry = front ++ entry :: back := by
    unfold enqueue
    rw [place, parts, insertIdx_length_append]
  have own {urgency : Urgency} (same : entry.urgency = urgency) :
      ∀ other ∈ queue.line urgency ++ [entry], other.urgency = urgency := by
    intro other hother
    rcases List.mem_append.mp hother with h | h
    · exact urgency_of_mem_line h
    · rw [List.mem_singleton.mp h, same]
  have line {urgency : Urgency} : ∀ other ∈ queue.line urgency, other.urgency = urgency :=
    fun _ => urgency_of_mem_line
  -- The queue is cut behind the line of the urgency, which is where `place` inserts.
  cases hurgency : entry.urgency with
  | high =>
    refine ⟨queue.line .high, queue.line .normal ++ queue.line .low, whole,
      inserted whole (hurgency ▸ place_high queue), fun other hother => ?_, ?_⟩
    · rcases List.mem_append.mp hother with h | h <;> simp [urgency_of_mem_line h]
    · rw [List.append_cons]
      exact inLines_of_parts (own hurgency) line line
  | normal =>
    have parts := whole
    rw [← List.append_assoc] at parts
    refine ⟨queue.line .high ++ queue.line .normal, queue.line .low, parts,
      inserted parts (hurgency ▸ lines.place_normal), fun other hother => ?_, ?_⟩
    · simp [urgency_of_mem_line hother]
    · rw [List.append_cons, List.append_assoc, List.append_assoc, ← List.append_assoc _ [entry]]
      exact inLines_of_parts line (own hurgency) line
  | low =>
    refine ⟨queue, [], (List.append_nil _).symm,
      inserted (List.append_nil _).symm (by rw [hurgency]; rfl), by simp, ?_⟩
    rw [whole, List.append_assoc, List.append_assoc]
    exact inLines_of_parts line line (own hurgency)

theorem line_enqueue (lines : queue.InLines) (entry : QueueEntry) (urgency : Urgency) :
    (queue.enqueue entry).line urgency =
      queue.line urgency ++ if entry.urgency = urgency then [entry] else [] := by
  obtain ⟨front, back, parts, inserted, behind, -⟩ := lines.enqueue_eq entry
  rw [inserted, List.append_cons, line_append, line_append, parts, line_append]
  split
  · next same =>
    have nobody : back.line urgency = [] := List.filter_eq_nil_iff.mpr fun other hother here =>
      behind other hother ((of_decide_eq_true here).trans same.symm)
    have here : line [entry] urgency = [entry] := by simp [line, same]
    rw [nobody, here, List.append_nil, List.append_nil]
  · next differ =>
    have elsewhere : line [entry] urgency = [] := by simp [line, differ]
    rw [elsewhere, List.append_nil, List.append_nil]

theorem enqueue (lines : queue.InLines) (entry : QueueEntry) : (queue.enqueue entry).InLines := by
  obtain ⟨front, back, -, inserted, -, lines'⟩ := lines.enqueue_eq entry
  rwa [inserted]

end InLines

/-! ### The order of admissions -/

/-- Who was admitted with an urgency, in the order of the last admissions. -/
def lastAdmitted (admissions : List QueueEntry) (urgency : Urgency) : List QueueEntry :=
  (admissions.filter (·.urgency = urgency)).dedup

/-- A queue that is made of its lines, each of which is in the order of the last admissions. -/
structure Follows (admissions : List QueueEntry) (queue : RenderQueue) : Prop where
  inLines : queue.InLines
  order : ∀ urgency, (queue.line urgency).Sublist (lastAdmitted admissions urgency)

namespace Follows

variable {admissions : List QueueEntry} {queue part : RenderQueue}

theorem nil (admissions : List QueueEntry) : Follows admissions [] :=
  ⟨rfl, fun _ => List.nil_sublist _⟩

theorem sublist (h : queue.Follows admissions) (sub : part.Sublist queue) :
    part.Follows admissions :=
  ⟨h.inLines.sublist sub, fun urgency => (sub.filter _).trans (h.order urgency)⟩

/-- Who is admitted comes last in the line of the urgency. -/
theorem enqueue (h : queue.Follows admissions) {entry : QueueEntry} (new : entry ∉ queue) :
    (queue.enqueue entry).Follows (admissions ++ [entry]) := by
  refine ⟨h.inLines.enqueue entry, fun urgency => ?_⟩
  rw [h.inLines.line_enqueue, lastAdmitted, List.filter_append]
  by_cases same : entry.urgency = urgency
  · have here : [entry].filter (·.urgency = urgency) = [entry] := by simp [same]
    rw [if_pos same, here]
    exact sublist_dedup_append_singleton (h.order urgency) fun waits =>
      new (List.mem_of_mem_filter waits)
  · have elsewhere : [entry].filter (·.urgency = urgency) = [] := by simp [same]
    rw [if_neg same, elsewhere, List.append_nil, List.append_nil]
    exact h.order urgency

end Follows

end RenderQueue

/-! ### Slots for the first entries -/

/-- The chunk of an entry, unless it is valid or not there. -/
def Cache.waiting? (cache : Cache τ) (entry : QueueEntry) : Option (Chunk τ) :=
  (cache.get entry.index).toOption.filter (·.status ≠ .valid)

/-- A chunk that begins makes no difference to the entries of other places. -/
theorem Cache.Orderly.waiting?_beginRender {cache : Cache τ} (orderly : cache.Orderly)
    {chunk : Chunk τ} (hchunk : chunk ∈ cache.chunks) {entry : QueueEntry}
    (away : (chunk.index : Int) ≠ entry.index) :
    (cache.put (Cache.beginRender chunk)).waiting? entry = cache.waiting? entry := by
  have serial : (Cache.beginRender chunk).serial = chunk.serial := rfl
  unfold waiting?
  rw [orderly.get_put_of_ne hchunk serial away]

section Pump

variable [Scalar τ]

/-- The first entries leave the queue, and each of them gets a job for its chunk if that waits. -/
theorem Scheduler.fill_takes (queue : RenderQueue) (scheduler : Scheduler τ ω ρ) (cache : Cache τ)
    (orderly : cache.Orderly) (entries : (queue.map (·.index)).Nodup) :
    ∃ taken started, queue = taken ++ (fill queue scheduler cache).1.queue ∧
      (fill queue scheduler cache).1.active = scheduler.active ++ started ∧
      started.map (·.chunk) = taken.filterMap cache.waiting? := by
  have nothing {queue : RenderQueue} {active : List (Job τ ω ρ)} {cache : Cache τ} :
      ∃ (taken : RenderQueue) (started : List (Job τ ω ρ)), queue = taken ++ queue ∧
        active = active ++ started ∧ started.map (·.chunk) = taken.filterMap cache.waiting? :=
    ⟨[], [], rfl, (List.append_nil _).symm, rfl⟩
  fun_induction fill queue scheduler cache with
  | case1 scheduler cache => exact nothing
  | case2 entry rest scheduler cache full => exact nothing
  | case3 entry rest scheduler cache room cause absent ih =>
    obtain ⟨taken, started, split, active, chunks⟩ := ih orderly (List.nodup_cons.mp entries).2
    refine ⟨entry :: taken, started, congrArg (entry :: ·) split, active, ?_⟩
    have passed : cache.waiting? entry = none := by simp [Cache.waiting?, absent, Except.toOption]
    rw [chunks, List.filterMap_cons_none passed]
  | case4 entry rest scheduler cache room chunk found valid ih =>
    obtain ⟨taken, started, split, active, chunks⟩ := ih orderly (List.nodup_cons.mp entries).2
    refine ⟨entry :: taken, started, congrArg (entry :: ·) split, active, ?_⟩
    have passed : cache.waiting? entry = none := by
      simp [Cache.waiting?, found, valid, Except.toOption]
    rw [chunks, List.filterMap_cons_none passed]
  | case5 entry rest scheduler cache room chunk found waits ih =>
    have hchunk := Cache.mem_of_get found
    have orderly' : (cache.put (Cache.beginRender chunk)).Orderly :=
      orderly.put hchunk rfl rfl fun g hg => Nat.le_of_eq (Option.some.inj hg).symm
    obtain ⟨absent, entries'⟩ := List.nodup_cons.mp entries
    obtain ⟨taken, started, split, active, chunks⟩ := ih orderly' entries'
    refine ⟨entry :: taken, { id := scheduler.nextJob, chunk } :: started,
      congrArg (entry :: ·) split, ?_, ?_⟩
    · rw [active, addJob, List.append_assoc, List.singleton_append]
    · have here : cache.waiting? entry = some chunk := by
        simp [Cache.waiting?, found, waits, Except.toOption]
      -- The other entries are for other places, where nothing has begun.
      have others : taken.filterMap (cache.put (Cache.beginRender chunk)).waiting? =
          taken.filterMap cache.waiting? := by
        refine List.filterMap_congr fun other hother => ?_
        refine orderly.waiting?_beginRender hchunk fun same => absent ?_
        have there : other ∈ rest := split ▸ List.mem_append_left _ hother
        exact List.mem_map.mpr ⟨other, there, same.symm.trans (orderly.index_of_get found)⟩
      rw [List.filterMap_cons_some here, List.map_cons, chunks, others]

/-- Slots go to the first entries: each of them gets a job for its chunk, unless that is valid or not
there, and it is no use to go on when the queue is empty or no slot is left. -/
theorem Workshop.pumped_takes (shop : Workshop τ κ ω ρ) (orderly : shop.store.cache.Orderly)
    (entries : (shop.scheduler.queue.map (·.index)).Nodup) :
    ∃ taken started, shop.scheduler.queue = taken ++ shop.pumped.scheduler.queue ∧
      shop.pumped.scheduler.active = shop.scheduler.active ++ started ∧
      started.map (·.chunk) = taken.filterMap shop.store.cache.waiting? :=
  Scheduler.fill_takes _ _ _ orderly entries

end Pump

/-! ### Moving an entry -/

/-- An entry that moves is there once, and all others stay. -/
theorem RenderQueue.moved_perm {queue : RenderQueue} (entries : (queue.map (·.index)).Nodup)
    {index : Int} (there : ∃ entry ∈ queue, entry.index = index) (urgency : Urgency) :
    ((queue.drop index).enqueue ⟨index, urgency⟩).Perm
      (queue.map fun entry => if entry.index = index then ⟨index, urgency⟩ else entry) := by
  refine (enqueue_perm _ _).trans ?_
  induction queue with
  | nil => exact absurd there (by simp)
  | cons first rest ih =>
    obtain ⟨single, entries⟩ := List.nodup_cons.mp entries
    by_cases here : first.index = index
    · have others : rest.map (fun entry => if entry.index = index then ⟨index, urgency⟩
          else entry) = rest := by
        refine (List.map_congr_left fun other hother => if_neg fun same => ?_).trans rest.map_id
        exact single (List.mem_map.mpr ⟨other, hother, same.trans here.symm⟩)
      rw [drop, List.eraseP_cons_of_pos (by simpa using here), List.map_cons, if_pos here, others]
    · obtain ⟨entry, hentry, place⟩ := there
      have elsewhere : ∃ entry ∈ rest, entry.index = index := by
        rcases List.mem_cons.mp hentry with rfl | hentry
        · exact absurd place here
        · exact ⟨entry, hentry, place⟩
      rw [drop, List.eraseP_cons_of_neg (by simpa using here), List.map_cons, if_neg here]
      exact (List.Perm.swap _ _ _).trans ((ih entries elsewhere).cons first)

/-- An entry that has the urgency already is no other one when it is given it. -/
theorem RenderQueue.map_of_not_moved {queue : RenderQueue} {index : Int} {urgency : Urgency}
    (same : ∀ entry ∈ queue, entry.index = index → entry.urgency = urgency) :
    (queue.map fun entry => if entry.index = index then ⟨index, urgency⟩ else entry) = queue := by
  refine (List.map_congr_left fun entry hentry => ?_).trans queue.map_id
  split
  · next here => rw [← here, ← same entry hentry here]; rfl
  · rfl

/-! ### Places that are served while slots are given away -/

/-- A place has a job, or waits for one in the queue with a chunk that needs it. -/
def Serving (place : Nat) (scheduler : Scheduler τ ω ρ) (cache : Cache τ) : Prop :=
  (∃ job ∈ scheduler.active, job.index = place) ∨
    (∃ entry ∈ scheduler.queue, entry.index = place) ∧
      ∃ chunk ∈ cache.chunks, chunk.index = place ∧ chunk.status ≠ .valid

theorem Serving.pumps (place : Nat) : Pumps (Serving (τ := τ) (ω := ω) (ρ := ρ) place) where
  idle _ _ _ h := h
  skip entry rest scheduler cache order queue h valid := by
    rcases h with held | ⟨⟨other, hother, here⟩, chunk, hchunk, there, waits⟩
    · exact .inl held
    · rcases List.mem_cons.mp (queue ▸ hother) with rfl | hother
      · have found := order.chunks.get_index hchunk
        rw [there, ← here] at found
        exact absurd (valid chunk found) waits
      · exact .inr ⟨⟨other, hother, here⟩, chunk, hchunk, there, waits⟩
  begin entry rest scheduler cache chunk order queue _ h found _ := by
    rcases h with ⟨job, hjob, here⟩ | ⟨⟨other, hother, here⟩, own, hown, there, waits⟩
    · exact .inl ⟨job, Scheduler.mem_addJob.mpr (.inl hjob), here⟩
    · have place := order.chunks.index_of_get found
      rcases List.mem_cons.mp (queue ▸ hother) with rfl | hother
      · refine .inl ⟨_, Scheduler.mem_addJob.mpr (.inr rfl), ?_⟩
        exact Int.ofNat.inj (place.trans here)
      · -- The chunk that begins stands at another place.
        have serial : (Cache.beginRender chunk).serial = chunk.serial := rfl
        refine .inr ⟨⟨other, hother, here⟩, own, ?_, there, waits⟩
        refine (Cache.mem_put (Cache.mem_of_get found) serial).mpr (.inr ⟨hown, fun same => ?_⟩)
        have twice := order.chunks.eq_of_serial hown (Cache.mem_of_get found) same
        have entries := order.jobs.entries
        rw [queue, List.map_cons, List.nodup_cons] at entries
        refine entries.1 (List.mem_map.mpr ⟨other, hother, ?_⟩)
        rw [here, ← there, twice, place]

/-- Who is served has a job or waits. -/
theorem Serving.serves {place : Nat} {scheduler : Scheduler τ ω ρ} {cache : Cache τ}
    (h : Serving place scheduler cache) : scheduler.serves place = true := by
  refine Scheduler.serves_iff.mpr ?_
  rcases h with ⟨job, hjob, here⟩ | ⟨waits, -⟩
  · exact .inl ⟨job, hjob, congrArg Nat.cast here⟩
  · exact .inr waits

/-! ### Admissions -/

section Admissions

variable [Scalar τ] {shop : Workshop τ κ ω ρ}

/-- Who is admitted to the queue by an event: a call tells who it was, and the step of a job does it
if the place of the job is served again when its worker has come to its end. -/
def ShopEvent.admitted (worker : Worker τ κ ω ρ) (event : ShopEvent τ ρ)
    (shop : Workshop τ κ ω ρ) : List QueueEntry :=
  match event with
  | .queue index urgency =>
    if value? (WorkshopAction.queue index urgency) shop = some true then [⟨index, urgency⟩] else []
  | .queueEach indices urgency =>
    ((value? (WorkshopAction.queueEach indices urgency) shop).getD []).map (⟨·, urgency⟩)
  | .setUrgency index urgency =>
    if value? (WorkshopAction.setUrgency index urgency) shop = some true then [⟨index, urgency⟩]
    else []
  | .work =>
    match shop.endsNext worker with
    | some job =>
      if (leaves (WorkshopAction.runNext worker) shop).scheduler.serves job.index then
        [⟨job.index, .normal⟩]
      else []
    | none => []
  | .cancel _ | .stopAll | .finishCancel | .edit _ | .answer _ _ | .hurry _ => []

/-- A chunk that is queued again is served: it waits, so that it is not passed over. -/
theorem Workshop.again_serves {place : Nat} {chunk : Chunk τ}
    (order : InOrder shop.store.cache shop.scheduler)
    (free : shop.scheduler.serves place = false) (found : shop.store.cache.get place = .ok chunk)
    (waits : chunk.status.needsRender = true) :
    (shop.admitting ⟨place, .normal⟩).pumped.scheduler.serves place = true := by
  let admitted := shop.admitting ⟨place, .normal⟩
  have order' : InOrder admitted.store.cache admitted.scheduler := order.admitting free
  have serving : Serving place admitted.scheduler admitted.store.cache := by
    refine .inr ⟨⟨_, RenderQueue.mem_enqueue.mpr (.inl rfl), rfl⟩, chunk,
      Cache.mem_of_get found, Int.ofNat.inj (order.chunks.index_of_get found), ?_⟩
    intro valid
    simp [valid, ChunkState.needsRender] at waits
  exact ((Serving.pumps place).pumped order' serving).2.serves

/-- Moving an entry loses nobody and puts nobody into the queue twice. Whoever gets a slot on the way
was the first. -/
theorem Workshop.setUrgency_takes (order : InOrder shop.store.cache shop.scheduler) (index : Int)
    (urgency : Urgency) :
    let next := leaves (WorkshopAction.setUrgency index urgency) shop
    ∃ taken started,
      (taken ++ next.scheduler.queue).Perm (shop.scheduler.queue.map fun entry =>
        if entry.index = index then ⟨index, urgency⟩ else entry) ∧
      next.scheduler.active = shop.scheduler.active ++ started ∧
      started.map (·.chunk) = taken.filterMap shop.store.cache.waiting? := by
  intro next
  have entries := order.jobs.entries
  obtain ⟨moved, -, ways⟩ := (WorkshopAction.setUrgency_cases index urgency order).exists_value
  rcases ways with ⟨-, same, settled⟩ | ⟨-, ⟨entry, hentry, place, -⟩, free, same⟩
  · refine ⟨[], [], ?_, ?_, rfl⟩
    · rw [RenderQueue.map_of_not_moved settled, List.nil_append]
      exact .of_eq (congrArg (·.scheduler.queue) same)
    · rw [List.append_nil]
      exact congrArg (·.scheduler.active) same
  · -- The entry that moves is out of the queue for a moment, and no slot is given away in that.
    let withdrawn := shop.withdrawing index
    let moved := withdrawn.admitting ⟨index, urgency⟩
    have order' : InOrder withdrawn.store.cache withdrawn.scheduler :=
      (order.dequeue (RenderQueue.drop_sublist shop.scheduler.queue index)).of_eq rfl rfl rfl
    have order'' : InOrder moved.store.cache moved.scheduler := order'.admitting free
    obtain ⟨taken, started, split, active, chunks⟩ :=
      moved.pumped_takes order''.chunks order''.jobs.entries
    have perm := RenderQueue.moved_perm entries ⟨entry, hentry, place⟩ urgency
    refine ⟨taken, started, ?_, ?_, chunks⟩
    · have queue : taken ++ next.scheduler.queue = moved.scheduler.queue := by
        rw [split]
        exact congrArg (taken ++ ·.scheduler.queue) same
      rw [queue]
      exact perm
    · exact (congrArg (·.scheduler.active) same).trans active

end Admissions

end Montage
