import Montage.Proofs.Schedule.Conclusion

/-!
# Places that are attended to

A chunk that is neither valid nor failed is forgotten unless its place is in the queue or has a job.
`Attends` says that no chunk is forgotten, except perhaps at some places. Giving away slots keeps
it. A place that is queued need not be excepted any more; and a job that ends leaves its place as an
exception, which is settled when the end of the job has been recorded.
-/

namespace Montage

variable {τ κ ω ρ : Type}

/-- A chunk is valid or failed, or its place is in the queue or has a job. -/
def Attended (scheduler : Scheduler τ ω ρ) (chunk : Chunk τ) : Prop :=
  chunk.status = .valid ∨ chunk.status = .error ∨
    (∃ entry ∈ scheduler.queue, entry.index = chunk.index) ∨
    ∃ job ∈ scheduler.active, job.index = chunk.index

/-- Every chunk is attended to, except at some places. -/
def Attends (spared : Nat → Prop) (scheduler : Scheduler τ ω ρ) (cache : Cache τ) : Prop :=
  ∀ chunk ∈ cache.chunks, ¬spared chunk.index → Attended scheduler chunk

theorem Attended.mono {scheduler other : Scheduler τ ω ρ} {chunk : Chunk τ}
    (h : Attended scheduler chunk)
    (queue : ∀ entry ∈ scheduler.queue, entry.index = chunk.index → Attended other chunk)
    (active : ∀ job ∈ scheduler.active, job.index = chunk.index →
      ∃ job' ∈ other.active, job'.index = chunk.index) : Attended other chunk := by
  rcases h with valid | failed | ⟨entry, hentry, place⟩ | ⟨job, hjob, place⟩
  · exact .inl valid
  · exact .inr (.inl failed)
  · exact queue entry hentry place
  · exact .inr (.inr (.inr (active job hjob place)))

/-- No place is spared. -/
def Nowhere (_ : Nat) : Prop := False

namespace Attends

variable {spared : Nat → Prop} {scheduler : Scheduler τ ω ρ} {cache : Cache τ}

/-- An entry leaves the queue because its chunk is valid or not there, or for a job of its place. -/
theorem admits : Admits (Attends (τ := τ) (ω := ω) (ρ := ρ) spared) where
  idle _ _ _ h := h
  skip entry rest scheduler cache order queue h valid := by
    intro chunk hchunk unspared
    refine (h chunk hchunk unspared).mono (fun other hother place => ?_)
      fun job hjob place => ⟨job, hjob, place⟩
    rcases List.mem_cons.mp (queue ▸ hother) with rfl | hother
    · -- The entry is passed over, since its chunk is valid.
      exact .inl (valid chunk (place ▸ order.chunks.get_index hchunk))
    · exact .inr (.inr (.inl ⟨other, hother, place⟩))
  begin entry rest scheduler cache chunk order queue _ h hget _ := by
    have hchunk := Cache.mem_of_get hget
    have serial : (Cache.beginRender chunk).serial = chunk.serial := rfl
    intro other hother unspared
    rcases (Cache.mem_put hchunk serial).mp hother with rfl | ⟨hother, differ⟩
    · have started : { id := scheduler.nextJob, chunk } ∈ (scheduler.addJob chunk).active :=
        List.mem_append_right _ List.mem_cons_self
      exact .inr (.inr (.inr ⟨_, started, rfl⟩))
    · refine (h other hother unspared).mono (fun waiting hwaiting place => ?_)
        fun job hjob place => ⟨job, List.mem_append_left _ hjob, place⟩
      rcases List.mem_cons.mp (queue ▸ hwaiting) with rfl | hwaiting
      · -- The entry was for the chunk that has its job now, and this is another one.
        obtain rfl := Except.ok.inj (hget.symm.trans (place ▸ order.chunks.get_index hother))
        exact absurd rfl differ
      · exact .inr (.inr (.inl ⟨waiting, hwaiting, place⟩))
  enqueue entry scheduler cache h := by
    intro chunk hchunk unspared
    refine (h chunk hchunk unspared).mono (fun other hother place => ?_)
      fun job hjob place => ⟨job, hjob, place⟩
    exact .inr (.inr (.inl ⟨other, RenderQueue.mem_enqueue.mpr (.inr hother), place⟩))

theorem mono {spared' : Nat → Prop} (h : Attends spared scheduler cache)
    (more : ∀ place, spared place → spared' place) : Attends spared' scheduler cache :=
  fun chunk hchunk unspared => h chunk hchunk fun here => unspared (more _ here)

/-- A chunk whose place is queued again with another urgency is attended to all the while. -/
theorem requeue (h : Attends spared scheduler cache) (index : Int) (urgency : Urgency) :
    Attends spared { scheduler with
      queue := (scheduler.queue.drop index).enqueue ⟨index, urgency⟩ } cache := by
  intro chunk hchunk unspared
  refine (h chunk hchunk unspared).mono (fun other hother place => ?_)
    fun job hjob place => ⟨job, hjob, place⟩
  refine .inr (.inr (.inl ?_))
  by_cases here : other.index = index
  · exact ⟨⟨index, urgency⟩, RenderQueue.mem_enqueue.mpr (.inl rfl), here.symm.trans place⟩
  · have left := RenderQueue.mem_drop_of_ne hother here
    exact ⟨other, RenderQueue.mem_enqueue.mpr (.inr left), place⟩

/-- Jobs that go on or leave, where those that leave do so from places that are spared. -/
theorem of_active (h : Attends spared scheduler cache) {other : Scheduler τ ω ρ}
    (queue : other.queue = scheduler.queue)
    (active : ∀ job ∈ scheduler.active, ¬spared job.index →
      ∃ job' ∈ other.active, job'.index = job.index) : Attends spared other cache := by
  intro chunk hchunk unspared
  refine (h chunk hchunk unspared).mono (fun entry hentry place => ?_) fun job hjob place => ?_
  · exact .inr (.inr (.inl ⟨entry, queue ▸ hentry, place⟩))
  · obtain ⟨job', hjob', same⟩ := active job hjob (place ▸ unspared)
    exact ⟨job', hjob', same.trans place⟩

/-- The chunk at a place that was spared changes to one that is attended to. -/
theorem put {index : Nat} (h : Attends (fun place => spared place ∨ place = index) scheduler cache)
    (orderly : cache.Orderly) {old new : Chunk τ} (found : cache.get index = .ok old)
    (serial : new.serial = old.serial) (place : new.index = old.index)
    (attended : ¬spared index → Attended scheduler new) : Attends spared scheduler (cache.put new) := by
  have hold := Cache.mem_of_get found
  have here : old.index = index := Int.ofNat.inj (orderly.index_of_get found)
  intro chunk hchunk unspared
  rcases (Cache.mem_put hold serial).mp hchunk with rfl | ⟨hchunk, differ⟩
  · exact attended (place.trans here ▸ unspared)
  · refine h chunk hchunk (not_or.mpr ⟨unspared, fun same => ?_⟩)
    obtain rfl := orderly.eq_of_index hchunk hold (same.trans here.symm)
    exact differ serial.symm

section Actions

variable [Scalar τ] {shop : Workshop τ κ ω ρ}

/-- A place that is queued is attended to. -/
theorem queue {index : Int} (urgency : Urgency)
    (order : InOrder shop.store.cache shop.scheduler)
    (h : Attends (fun place => spared place ∨ (place : Int) = index) shop.scheduler
      shop.store.cache) :
    Ensures (WorkshopAction.queue index urgency) shop
      (fun _ next => InOrder next.store.cache next.scheduler ∧
        Attends spared next.scheduler next.store.cache ∧ shop.Apart next)
      (fun _ => False) := by
  apply admits.admission index urgency shop order
  · intro there chunk hchunk unspared
    by_cases here : (chunk.index : Int) = index
    · rcases there with ⟨job, hjob, place⟩ | ⟨entry, hentry, place⟩
      · exact .inr (.inr (.inr ⟨job, hjob, by omega⟩))
      · exact .inr (.inr (.inl ⟨entry, hentry, place.trans here.symm⟩))
    · exact h chunk hchunk (not_or.mpr ⟨unspared, here⟩)
  · intro chunk hchunk unspared
    by_cases here : (chunk.index : Int) = index
    · refine .inr (.inr (.inl ⟨⟨index, urgency⟩, ?_, here.symm⟩))
      exact RenderQueue.mem_enqueue.mpr (.inl rfl)
    · exact admits.enqueue ⟨index, urgency⟩ _ _ h chunk hchunk (not_or.mpr ⟨unspared, here⟩)

/-! ### Ends of jobs -/

/-- What a job did is recorded, and its place is attended to. -/
theorem record {index : Nat} {outcome : RenderOutcome} (real : outcome.cancelled = false)
    (order : InOrder shop.store.cache shop.scheduler)
    (free : ∀ job ∈ shop.scheduler.active, job.index ≠ index)
    (h : Attends (· = index) shop.scheduler shop.store.cache) :
    Ensures (WorkshopAction.record index outcome) shop
      (fun _ next => InOrder next.store.cache next.scheduler ∧
        Attends Nowhere next.scheduler next.store.cache)
      (fun _ => True) := by
  have free' : ∀ job ∈ shop.scheduler.active, (job.index : Int) ≠ index :=
    fun job hjob same => free job hjob (Int.ofNat.inj same)
  unfold WorkshopAction.record
  rw [if_neg (by simp [real])]
  dsimp only
  split
  · next path _ _ =>
    rw [ensures_bind, WorkshopAction.ensures_onCache]
    have spec := (CacheAction.finishRender_returns index outcome.contentHash path
      outcome.isComplex shop.store).and
      (CacheAction.finishRender_spec index outcome.contentHash path outcome.isComplex shop.store)
    refine spec.mono ?_ fun _ _ => trivial
    rintro ended store ⟨⟨status, old, found, -, -, serial, place, put⟩, ends⟩
    have order' : InOrder store.cache shop.scheduler := order.concludes ends free'
    split
    · -- The chunk was invalidated meanwhile, and is queued again.
      rw [ensures_bind]
      have waiting : Attends (fun other => Nowhere other ∨ (other : Int) = index) shop.scheduler
          store.cache := by
        rw [put]
        refine Attends.put ?_ order.chunks found serial place fun unspared => ?_
        · exact h.mono fun other here => .inr here
        · exact absurd (.inr rfl) unspared
      exact (waiting.queue .normal order').mono (fun _ next hnext => ⟨hnext.1, hnext.2.1⟩)
        fun _ => False.elim
    · next fresh =>
      -- Nobody invalidated the chunk, so what was rendered stays.
      have valid : ended.status = .valid := status.resolve_right fresh
      refine ⟨order', ?_⟩
      rw [put]
      exact Attends.put (h.mono fun other here => .inr here) order.chunks found serial place
        fun _ => .inl valid
  · rw [ensures_bind, WorkshopAction.ensures_onCache]
    have spec := (CacheAction.failRender_returns index outcome.contentHash
      ((outcome.error.filter (· ≠ "")).getD "Render failed") shop.store).and
      (CacheAction.failRender_spec index outcome.contentHash
        ((outcome.error.filter (· ≠ "")).getD "Render failed") shop.store)
    refine spec.mono ?_ fun _ _ => trivial
    rintro ended store ⟨⟨failed, old, found, serial, place, put⟩, ends⟩
    refine ⟨order.concludes ends free', ?_⟩
    dsimp only
    rw [put]
    exact Attends.put (h.mono fun other here => .inr here) order.chunks found serial place
      fun _ => .inr (.inl failed)

/-- A chunk was dropped while it was rendered, and the one in its place is attended to. -/
theorem discard {index : Nat} (outcome : RenderOutcome) (shop : Workshop τ κ ω ρ)
    (order : InOrder shop.store.cache shop.scheduler)
    (waits : ∀ chunk ∈ shop.store.cache.chunks, chunk.index = index →
      chunk.status = .valid ∨ chunk.status.needsRender = true)
    (h : Attends (· = index) shop.scheduler shop.store.cache) :
    Ensures (WorkshopAction.discard outcome (shop.store.cache.get index).toOption) shop
      (fun _ next => InOrder next.store.cache next.scheduler ∧
        Attends Nowhere next.scheduler next.store.cache)
      (fun _ => True) := by
  unfold WorkshopAction.discard
  rw [ensures_bind]
  refine (WorkshopAction.removeOutput_spec outcome shop).mono ?_ fun _ _ => trivial
  rintro - _ ⟨disk, rfl⟩
  let next : Workshop τ κ ω ρ := { shop with store := { shop.store with disk } }
  have order' : InOrder next.store.cache next.scheduler := order
  unfold WorkshopAction.queueNew
  cases found : shop.store.cache.get index with
  | error cause =>
    -- There is no chunk at the place any more.
    refine ⟨order, fun chunk hchunk _ => h chunk hchunk fun here => ?_⟩
    have := order.chunks.get_index hchunk
    rw [here, found] at this
    exact absurd this (by simp)
  | ok chunk =>
    have hchunk := Cache.mem_of_get found
    have here : chunk.index = index := Int.ofNat.inj (order.chunks.index_of_get found)
    dsimp only [Except.toOption]
    split
    · rw [ensures_bind]
      have waiting : Attends (fun other => Nowhere other ∨ (other : Int) = chunk.index)
          next.scheduler next.store.cache :=
        h.mono fun other same => .inr (by omega)
      exact (waiting.queue .normal order').mono (fun _ next hnext => ⟨hnext.1, hnext.2.1⟩)
        fun _ => False.elim
    · next settled =>
      have valid := (waits chunk hchunk here).resolve_right settled
      refine ⟨order, fun other hother _ => ?_⟩
      by_cases same : other.index = index
      · obtain rfl := order.chunks.eq_of_index hother hchunk (same.trans here.symm)
        exact .inl valid
      · exact h other hother same

/-- When the end of a job has been recorded, no chunk is forgotten. -/
theorem complete {worker : Worker τ κ ω ρ} {job : Job τ ω ρ} {outcome : RenderOutcome}
    (real : outcome.cancelled = false) (order : InOrder shop.store.cache shop.scheduler)
    (hjob : job ∈ shop.scheduler.active)
    (h : Attends Nowhere shop.scheduler shop.store.cache) :
    Ensures (WorkshopAction.complete worker job outcome) shop
      (fun _ next => Attends Nowhere next.scheduler next.store.cache) (fun _ => True) := by
  have free : ∀ other ∈ (shop.scheduler.dropJob job.id).active, other.index ≠ job.index :=
    fun other => order.jobs.index_ne_of_dropJob hjob
  have order' : InOrder shop.store.cache (shop.scheduler.dropJob job.id) :=
    order.release (shop.scheduler.dropJob_sublist job.id)
  have left : Attends (· = job.index) (shop.scheduler.dropJob job.id) shop.store.cache := by
    refine (h.mono fun _ => False.elim).of_active rfl fun other hother away => ?_
    refine ⟨other, List.mem_filter.mpr ⟨hother, ?_⟩, rfl⟩
    simpa using fun id => away (congrArg Job.index (order.jobs.eq_of_id hother hjob id))
  unfold WorkshopAction.complete WorkshopAction.conclude
  rw [ensures_bind, WorkshopAction.ensures_scheduler, ensures_bind,
    WorkshopAction.ensures_setScheduler, ensures_bind, ensures_get]
  dsimp only
  have pumped (next : Workshop τ κ ω ρ) (order : InOrder next.store.cache next.scheduler)
      (attends : Attends Nowhere next.scheduler next.store.cache) :
      Ensures WorkshopAction.pump next
        (fun _ next => Attends Nowhere next.scheduler next.store.cache) (fun _ => True) :=
    (admits.pump next order attends).mono (fun _ _ hnext => hnext.2.1) fun _ => False.elim
  split
  · rw [ensures_bind]
    refine (Attends.record real order' free left).mono ?_ fun _ _ => trivial
    rintro - recorded ⟨order'', attends⟩
    rw [ensures_bind, ensures_get]
    split
    · next chunk _ =>
      rw [ensures_bind]
      refine (WorkshopAction.tell_spec worker chunk recorded).mono ?_ fun _ _ => trivial
      rintro - _ rfl
      exact pumped _ order'' attends
    · exact pumped recorded order'' attends
  · next foreign =>
    -- The chunk of the job was rendering or had failed, and this is another one.
    have waits : ∀ chunk ∈ shop.store.cache.chunks, chunk.index = job.index →
        chunk.status = .valid ∨ chunk.status.needsRender = true := by
      intro chunk hchunk place
      by_contra! settled
      have status : chunk.status = .rendering ∨ chunk.status = .error := by
        cases hstatus : chunk.status <;> simp [hstatus, ChunkState.needsRender] at settled ⊢
      have own := order.held job hjob chunk hchunk place status
      apply foreign
      rw [← place, order.chunks.get_index hchunk, ← own]
      rfl
    rw [ensures_bind]
    let dropped : Workshop τ κ ω ρ := { shop with scheduler := shop.scheduler.dropJob job.id }
    refine (Attends.discard outcome dropped order' waits left).mono ?_ fun _ _ => trivial
    rintro - discarded ⟨order'', attends⟩
    exact pumped discarded order'' attends

end Actions

end Attends

end Montage
