import Montage.Proofs.Schedule.Order

/-!
# Admitting chunks and giving away slots

An entry leaves the queue, or a job begins for the first entry: whatever survives these two steps
survives giving away slots, `Pumps.pump`. If it survives also that a chunk is admitted to the queue,
it survives every action that queues chunks, `Admits.queue` and `Pumps.setUrgency`. None of these
actions fails.
-/

namespace Montage

variable {τ κ ω ρ : Type}

namespace RenderQueue

theorem place_le_length (queue : RenderQueue) (urgency : Urgency) :
    queue.place urgency ≤ queue.length := by
  cases urgency with
  | high => exact List.countP_le_length
  | normal => exact List.findIdx_le_length
  | low => exact Nat.le_refl _

theorem enqueue_perm (queue : RenderQueue) (entry : QueueEntry) :
    (queue.enqueue entry).Perm (entry :: queue) :=
  List.perm_insertIdx entry queue (queue.place_le_length entry.urgency)

theorem mem_enqueue {queue : RenderQueue} {entry other : QueueEntry} :
    other ∈ queue.enqueue entry ↔ other = entry ∨ other ∈ queue := by
  rw [(enqueue_perm queue entry).mem_iff, List.mem_cons]

theorem entryOf?_isSome {queue : RenderQueue} {index : Int} :
    (queue.entryOf? index).isSome ↔ ∃ entry ∈ queue, entry.index = index := by
  simp [entryOf?]

theorem drop_sublist (queue : RenderQueue) (index : Int) : (queue.drop index).Sublist queue :=
  List.eraseP_sublist

theorem mem_drop_of_ne {queue : RenderQueue} {index : Int} {entry : QueueEntry}
    (h : entry ∈ queue) (other : entry.index ≠ index) : entry ∈ queue.drop index :=
  (List.mem_eraseP_of_neg (by simpa using other)).mpr h

/-- An entry that leaves the queue leaves no other of its place. -/
theorem not_mem_drop {queue : RenderQueue} (entries : (queue.map (·.index)).Nodup) {index : Int}
    {entry : QueueEntry} (h : entry ∈ queue.drop index) : entry.index ≠ index := by
  induction queue with
  | nil => exact absurd h (by simp [drop])
  | cons first rest ih =>
    rw [List.map_cons, List.nodup_cons] at entries
    by_cases same : first.index = index
    · rw [drop, List.eraseP_cons_of_pos (by simpa using same)] at h
      intro place
      exact entries.1 (List.mem_map.mpr ⟨entry, h, place.trans same.symm⟩)
    · rw [drop, List.eraseP_cons_of_neg (by simpa using same)] at h
      rcases List.mem_cons.mp h with rfl | h
      · exact same
      · exact ih entries.2 h

end RenderQueue

namespace WorkshopAction

variable {shop : Workshop τ κ ω ρ} {fails : Workshop τ κ ω ρ → Prop}

theorem ensures_scheduler {returns : Scheduler τ ω ρ → Workshop τ κ ω ρ → Prop} :
    Ensures scheduler shop returns fails ↔ returns shop.scheduler shop := Iff.rfl

theorem ensures_setScheduler {scheduler : Scheduler τ ω ρ}
    {returns : Unit → Workshop τ κ ω ρ → Prop} :
    Ensures (setScheduler scheduler) shop returns fails ↔ returns () { shop with scheduler } :=
  Iff.rfl

/-- An action on the cache leaves the jobs alone. -/
theorem ensures_onCache {α : Type} {action : CacheAction τ α}
    {returns : α → Workshop τ κ ω ρ → Prop} :
    Ensures (onCache action) shop returns fails ↔
      Ensures action shop.store (fun a store => returns a { shop with store })
        (fun store => fails { shop with store }) := by
  unfold Ensures onCache
  cases action shop.store <;> rfl

theorem scheduler_onCache {α : Type} (action : CacheAction τ α) (shop : Workshop τ κ ω ρ) :
    (leaves (onCache action) shop).scheduler = shop.scheduler := by
  unfold leaves onCache
  cases action shop.store <;> rfl

/-- An action of a worker leaves the jobs alone. -/
theorem ensures_onWorker {α : Type} {action : WorkerAction τ κ α}
    {returns : α → Workshop τ κ ω ρ → Prop} :
    Ensures (onWorker action) shop returns fails ↔
      Ensures action (shop.store, shop.shared)
        (fun a next => returns a { shop with store := next.1, shared := next.2 })
        (fun next => fails { shop with store := next.1, shared := next.2 }) := by
  unfold Ensures onWorker
  cases action (shop.store, shop.shared) <;> rfl

end WorkshopAction

theorem Scheduler.hasJob_iff {scheduler : Scheduler τ ω ρ} {index : Int} :
    scheduler.hasJob index = true ↔ ∃ job ∈ scheduler.active, (job.index : Int) = index := by
  simp [hasJob]

/-- Entries that leave the queue, and one that joins it behind all that are as urgent. -/
theorem InOrder.enqueue {cache : Cache τ} {scheduler : Scheduler τ ω ρ}
    (order : InOrder cache scheduler) {entry : QueueEntry}
    (free : ∀ job ∈ scheduler.active, entry.index ≠ job.index)
    (single : ∀ other ∈ scheduler.queue, other.index ≠ entry.index) :
    InOrder cache { scheduler with queue := scheduler.queue.enqueue entry } := by
  have perm := RenderQueue.enqueue_perm scheduler.queue entry
  refine order.requeue ((perm.map _).nodup_iff.mpr ?_) fun job hjob other hother => ?_
  · refine List.nodup_cons.mpr ⟨fun h => ?_, order.jobs.entries⟩
    obtain ⟨other, hother, same⟩ := List.mem_map.mp h
    exact single other hother same
  · rcases RenderQueue.mem_enqueue.mp hother with rfl | hother
    · exact free job hjob
    · exact order.jobs.apart job hjob other hother

/-- A property of schedulers and their caches that survives the steps of giving away slots, given that
they are in order. -/
structure Pumps (holds : Scheduler τ ω ρ → Cache τ → Prop) : Prop where
  /-- Whether others may go on does not matter. -/
  idle : ∀ scheduler cache idle, holds scheduler cache → holds { scheduler with idle } cache
  /-- An entry whose chunk is valid, or is not there, needs no job. -/
  skip : ∀ (entry : QueueEntry) rest scheduler cache, InOrder cache scheduler →
    scheduler.queue = entry :: rest → holds scheduler cache →
    (∀ chunk, cache.get entry.index = .ok chunk → chunk.status = .valid) →
    holds { scheduler with queue := rest } cache
  begin : ∀ (entry : QueueEntry) rest scheduler cache chunk, InOrder cache scheduler →
    scheduler.queue = entry :: rest → scheduler.active.length < scheduler.limit →
    holds scheduler cache → cache.get entry.index = .ok chunk → chunk.status ≠ .valid →
    holds { scheduler.addJob chunk with queue := rest } (cache.put (Cache.beginRender chunk))

/-- A property that survives also the admission of any chunk. -/
structure Admits (holds : Scheduler τ ω ρ → Cache τ → Prop) : Prop extends Pumps holds where
  enqueue : ∀ (entry : QueueEntry) scheduler cache, holds scheduler cache →
    holds { scheduler with queue := scheduler.queue.enqueue entry } cache

/-- The same files and the same that is shared by the workers. -/
structure Workshop.Apart (before after : Workshop τ κ ω ρ) : Prop where
  disk : after.store.disk = before.store.disk
  shared : after.shared = before.shared

protected theorem Workshop.Apart.refl (shop : Workshop τ κ ω ρ) : shop.Apart shop := ⟨rfl, rfl⟩

/-- A workshop in order, with what its workers share and what holds of its jobs and its chunks. -/
structure Workshop.Under (shared : κ) (holds : Scheduler τ ω ρ → Cache τ → Prop)
    (shop : Workshop τ κ ω ρ) : Prop where
  shared : shop.shared = shared
  order : InOrder shop.store.cache shop.scheduler
  holds : holds shop.scheduler shop.store.cache

namespace Pumps

variable {holds : Scheduler τ ω ρ → Cache τ → Prop}

protected theorem and {holds' : Scheduler τ ω ρ → Cache τ → Prop} (pumps : Pumps holds)
    (pumps' : Pumps holds') :
    Pumps fun scheduler cache => holds scheduler cache ∧ holds' scheduler cache where
  idle s c b h := ⟨pumps.idle s c b h.1, pumps'.idle s c b h.2⟩
  skip entry rest s c order queue h absent :=
    ⟨pumps.skip entry rest s c order queue h.1 absent,
      pumps'.skip entry rest s c order queue h.2 absent⟩
  begin entry rest s c chunk order queue room h hget waits :=
    ⟨pumps.begin entry rest s c chunk order queue room h.1 hget waits,
      pumps'.begin entry rest s c chunk order queue room h.2 hget waits⟩

variable [Scalar τ] {scheduler : Scheduler τ ω ρ} {cache : Cache τ}

/-- What holds before the slots are given away holds after it. -/
theorem fill (pumps : Pumps holds) {queue : RenderQueue}
    (order : InOrder cache { scheduler with queue }) (h : holds { scheduler with queue } cache) :
    InOrder (Scheduler.fill queue scheduler cache).2 (Scheduler.fill queue scheduler cache).1 ∧
      holds (Scheduler.fill queue scheduler cache).1 (Scheduler.fill queue scheduler cache).2 := by
  fun_induction Scheduler.fill queue scheduler cache with
  | case1 scheduler cache => exact ⟨order, h⟩
  | case2 entry rest scheduler cache full => exact ⟨order, h⟩
  | case3 entry rest scheduler cache room cause hget ih =>
    refine ih (order.dequeue (List.sublist_cons_self _ _)) ?_
    refine pumps.skip entry rest { scheduler with queue := entry :: rest } cache order rfl h
      fun chunk hchunk => ?_
    simp [hget] at hchunk
  | case4 entry rest scheduler cache room chunk hget valid ih =>
    refine ih (order.dequeue (List.sublist_cons_self _ _)) ?_
    refine pumps.skip entry rest { scheduler with queue := entry :: rest } cache order rfl h
      fun other hother => ?_
    obtain rfl := Except.ok.inj (hget.symm.trans hother)
    exact valid
  | case5 entry rest scheduler cache room chunk hget waits ih =>
    exact ih (order.begin rfl hget) (pumps.begin entry rest
      { scheduler with queue := entry :: rest } cache chunk order rfl (Nat.lt_of_not_le room) h hget
      waits)

theorem pump (pumps : Pumps holds) (shop : Workshop τ κ ω ρ)
    (order : InOrder shop.store.cache shop.scheduler)
    (h : holds shop.scheduler shop.store.cache) :
    Ensures WorkshopAction.pump shop
      (fun _ next => InOrder next.store.cache next.scheduler ∧
        holds next.scheduler next.store.cache ∧ shop.Apart next)
      (fun _ => False) := by
  unfold WorkshopAction.pump
  rw [ensures_bind, ensures_get, ensures_set]
  obtain ⟨order, h⟩ := pumps.fill order h
  exact ⟨order.of_eq rfl rfl rfl, pumps.idle _ _ _ h, rfl, rfl⟩

/-- A chunk is admitted unless its place is in the queue or has a job. -/
theorem admission (pumps : Pumps holds) (index : Int) (urgency : Urgency)
    (shop : Workshop τ κ ω ρ) (order : InOrder shop.store.cache shop.scheduler)
    (there : (∃ job ∈ shop.scheduler.active, (job.index : Int) = index) ∨
      (∃ entry ∈ shop.scheduler.queue, entry.index = index) →
      holds shop.scheduler shop.store.cache)
    (entered : holds { shop.scheduler with
      queue := shop.scheduler.queue.enqueue ⟨index, urgency⟩ } shop.store.cache) :
    Ensures (WorkshopAction.queue index urgency) shop
      (fun _ next => InOrder next.store.cache next.scheduler ∧
        holds next.scheduler next.store.cache ∧ shop.Apart next)
      (fun _ => False) := by
  unfold WorkshopAction.queue
  rw [ensures_bind, WorkshopAction.ensures_scheduler]
  split
  · next held =>
    rw [Bool.or_eq_true, Scheduler.hasJob_iff, RenderQueue.entryOf?_isSome] at held
    exact ⟨order, there held, .refl shop⟩
  · next free =>
    rw [Bool.or_eq_true, not_or, Scheduler.hasJob_iff, RenderQueue.entryOf?_isSome] at free
    rw [ensures_bind, WorkshopAction.ensures_setScheduler, ensures_bind]
    let entry : QueueEntry := ⟨index, urgency⟩
    have order : InOrder shop.store.cache
        { shop.scheduler with queue := shop.scheduler.queue.enqueue entry } :=
      order.enqueue (fun job hjob same => free.1 ⟨job, hjob, same.symm⟩)
        fun other hother same => free.2 ⟨other, hother, same⟩
    let opened : Workshop τ κ ω ρ := { shop with scheduler := { shop.scheduler with
      queue := shop.scheduler.queue.enqueue ⟨index, urgency⟩, idle := false } }
    refine (pumps.pump opened (order.of_eq rfl rfl rfl) (pumps.idle _ _ false entered)).mono
      (fun _ next hnext => ?_) fun _ => id
    exact ⟨hnext.1, hnext.2.1, hnext.2.2.disk, hnext.2.2.shared⟩

/-- An entry moves to the place of another urgency. -/
theorem setUrgency (pumps : Pumps holds) (index : Int) (urgency : Urgency)
    (requeue : ∀ scheduler cache, holds scheduler cache → holds { scheduler with
      queue := (scheduler.queue.drop index).enqueue ⟨index, urgency⟩ } cache)
    (shop : Workshop τ κ ω ρ) (order : InOrder shop.store.cache shop.scheduler)
    (h : holds shop.scheduler shop.store.cache) :
    Ensures (WorkshopAction.setUrgency index urgency) shop
      (fun _ next => InOrder next.store.cache next.scheduler ∧
        holds next.scheduler next.store.cache ∧ shop.Apart next)
      (fun _ => False) := by
  unfold WorkshopAction.setUrgency
  rw [ensures_bind, WorkshopAction.ensures_scheduler]
  split
  · exact ⟨order, h, .refl shop⟩
  · next entry found =>
    split
    · exact ⟨order, h, .refl shop⟩
    · rw [ensures_bind, WorkshopAction.ensures_setScheduler]
      have dropped := order.dequeue (RenderQueue.drop_sublist shop.scheduler.queue index)
      let opened : Workshop τ κ ω ρ := { shop with scheduler := { shop.scheduler with
        queue := shop.scheduler.queue.drop index, idle := false } }
      -- The place was in the queue, so it has no job, and it was there only once.
      have alone : ¬((∃ job ∈ opened.scheduler.active, (job.index : Int) = index) ∨
          ∃ entry ∈ opened.scheduler.queue, entry.index = index) := by
        rintro (⟨job, hjob, place⟩ | ⟨other, hother, place⟩)
        · have place' : entry.index = index := by simpa using List.find?_some found
          exact order.jobs.apart job hjob entry (List.mem_of_find?_eq_some found)
            (place'.trans place.symm)
        · exact RenderQueue.not_mem_drop order.jobs.entries hother place
      have entered : holds { opened.scheduler with
          queue := opened.scheduler.queue.enqueue ⟨index, urgency⟩ } opened.store.cache :=
        pumps.idle _ _ false (requeue _ _ h)
      refine (pumps.admission index urgency opened (dropped.of_eq rfl rfl rfl)
        (fun there => absurd there alone) entered).mono (fun _ next hnext => ?_) fun _ => id
      exact ⟨hnext.1, hnext.2.1, hnext.2.2.disk, hnext.2.2.shared⟩

theorem keeps_pump (pumps : Pumps holds) {shared : κ} :
    Keeps (Workshop.Under (κ := κ) shared holds) WorkshopAction.pump := fun shop h =>
  (pumps.pump shop h.order h.holds).mono
    (fun _ _ hnext => ⟨hnext.2.2.shared.trans h.shared, hnext.1, hnext.2.1⟩) fun _ => False.elim

end Pumps

namespace Admits

variable {holds : Scheduler τ ω ρ → Cache τ → Prop}

section Queue

variable [Scalar τ]

/-- Whatever is admitted, what holds stays. -/
theorem queue (admits : Admits holds) (index : Int) (urgency : Urgency)
    (shop : Workshop τ κ ω ρ) (order : InOrder shop.store.cache shop.scheduler)
    (h : holds shop.scheduler shop.store.cache) :
    Ensures (WorkshopAction.queue index urgency) shop
      (fun _ next => InOrder next.store.cache next.scheduler ∧
        holds next.scheduler next.store.cache ∧ shop.Apart next)
      (fun _ => False) :=
  admits.admission index urgency shop order (fun _ => h) (admits.enqueue _ _ _ h)

theorem keeps_queue (admits : Admits holds) {shared : κ} {index : Int} {urgency : Urgency} :
    Keeps (Workshop.Under (κ := κ) shared holds) (WorkshopAction.queue index urgency) :=
  fun shop h => (admits.queue index urgency shop h.order h.holds).mono
    (fun _ _ hnext => ⟨hnext.2.2.shared.trans h.shared, hnext.1, hnext.2.1⟩) fun _ => False.elim

end Queue

/-- Nothing is cut anew. -/
theorem length (length : Nat) :
    Admits fun (_ : Scheduler τ ω ρ) (cache : Cache τ) => cache.chunks.length = length where
  idle _ _ _ h := h
  skip _ _ _ _ _ _ h _ := h
  begin _ _ _ _ _ _ _ _ h _ _ := (List.length_map _).trans h
  enqueue _ _ _ h := h

protected theorem and {holds' : Scheduler τ ω ρ → Cache τ → Prop} (admits : Admits holds)
    (admits' : Admits holds') :
    Admits fun scheduler cache => holds scheduler cache ∧ holds' scheduler cache where
  toPumps := admits.toPumps.and admits'.toPumps
  enqueue entry s c h := ⟨admits.enqueue entry s c h.1, admits'.enqueue entry s c h.2⟩

end Admits

end Montage
