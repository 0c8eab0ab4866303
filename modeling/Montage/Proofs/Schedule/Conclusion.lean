import Montage.Proofs.Schedule.Admission

/-!
# Ends of jobs

A job that ends leaves its place, what it did is recorded or discarded, and the slots that are free
are given away. Whatever survives the steps of admission, and is right of what is recorded,
survives the end of a job, `Admits.complete`.
-/

namespace Montage

variable {τ κ ω ρ : Type} {holds : Scheduler τ ω ρ → Cache τ → Prop} {shared : κ}
  {shop : Workshop τ κ ω ρ} {job : Job τ ω ρ}

/-- What holds of a cache holds also when an outcome is recorded for a place. -/
structure Records (holds : Scheduler τ ω ρ → Cache τ → Prop) (scheduler : Scheduler τ ω ρ)
    (cache : Cache τ) (index : Nat) (outcome : RenderOutcome) : Prop where
  made : outcome.success = true → outcome.cancelled = false → ∀ after,
    cache.Concludes after index (fun old new => new.status ≠ .error ∧
      new.contentHash = (outcome.contentHash <|> old.contentHash)) → holds scheduler after
  failed : outcome.cancelled = false → ∀ after,
    cache.Concludes after index (fun _ new => new.status = .error ∧
      new.failedHash = outcome.contentHash) → holds scheduler after

/-- A file is removed, or nothing changes. -/
theorem WorkshopAction.removeOutput_spec (outcome : RenderOutcome) (shop : Workshop τ κ ω ρ) :
    Ensures (WorkshopAction.removeOutput outcome) shop
      (fun _ next => ∃ disk, next = { shop with store := { shop.store with disk } })
      (fun next => next = shop) := by
  unfold WorkshopAction.removeOutput
  split
  · rw [ensures_bind, ensures_get]
    split
    · exact ⟨_, rfl⟩
    · exact rfl
  · exact ⟨shop.store.disk, rfl⟩

/-- Being told of a chunk changes what the workers share as it is meant to, also when it goes wrong. -/
theorem WorkshopAction.tell_spec (worker : Worker τ κ ω ρ) (chunk : Chunk τ)
    (shop : Workshop τ κ ω ρ) :
    let told (next : Workshop τ κ ω ρ) : Prop :=
      next = { shop with shared := worker.notify chunk shop.shared }
    Ensures (WorkshopAction.tell worker chunk) shop (fun _ => told) told := by
  unfold WorkshopAction.tell
  rw [ensures_bind, ensures_get, ensures_bind, ensures_modify]
  cases worker.complain chunk shop.shared <;> exact rfl

namespace Admits

variable [Scalar τ]

/-- What a job did is recorded. -/
theorem record (admits : Admits holds) {index : Nat} {outcome : RenderOutcome}
    (h : shop.Under shared holds) (free : ∀ job ∈ shop.scheduler.active, job.index ≠ index)
    (records : Records holds shop.scheduler shop.store.cache index outcome) :
    Ensures (WorkshopAction.record index outcome) shop
      (fun _ next => next.Under shared holds) (fun next => next.Under shared holds) := by
  have free' : ∀ job ∈ shop.scheduler.active, (job.index : Int) ≠ index :=
    fun job hjob same => free job hjob (by omega)
  unfold WorkshopAction.record
  split
  · exact h
  · next done =>
    have done : outcome.cancelled = false := by simpa using done
    dsimp only
    split
    · next path success hpath =>
      rw [ensures_bind, WorkshopAction.ensures_onCache]
      have made {store : CacheState τ} (ends : shop.store.cache.Concludes store.cache index
          fun old new => new.status ≠ .error ∧
            new.contentHash = (outcome.contentHash <|> old.contentHash)) :
          Workshop.Under shared holds { shop with store } :=
        ⟨h.shared, h.order.concludes ends free', records.made success done store.cache ends⟩
      refine (CacheAction.finishRender_spec _ _ _ _ _).mono (fun chunk store ends => ?_)
        fun store ends => made ends
      split
      · exact (admits.keeps_queue.bind fun _ => Keeps.pure) _ (made ends)
      · exact made ends
    · rw [ensures_bind, WorkshopAction.ensures_onCache]
      have failed {store : CacheState τ} (ends : shop.store.cache.Concludes store.cache index
          fun _ new => new.status = .error ∧ new.failedHash = outcome.contentHash) :
          Workshop.Under shared holds { shop with store } :=
        ⟨h.shared, h.order.concludes ends free', records.failed done store.cache ends⟩
      exact (CacheAction.failRender_spec _ _ _ _).mono (fun _ _ ends => failed ends)
        fun _ ends => failed ends

/-- A file that nobody waits for is removed. -/
theorem keeps_discard (admits : Admits holds) (outcome : RenderOutcome)
    (current : Option (Chunk τ)) :
    Keeps (Workshop.Under shared holds) (WorkshopAction.discard (κ := κ) outcome current) := by
  refine Keeps.bind (fun shop h => ?_) fun _ => ?_
  · refine (WorkshopAction.removeOutput_spec outcome shop).mono ?_ fun _ same => same ▸ h
    rintro - _ ⟨disk, rfl⟩
    exact ⟨h.shared, h.order, h.holds⟩
  · unfold WorkshopAction.queueNew
    split
    · split
      · exact admits.keeps_queue.bind fun _ => Keeps.pure
      · exact Keeps.pure
    · exact Keeps.pure

/-- The end of a job that has left its place. What is told to those who follow the chunks is all that
changes in what the workers share. -/
theorem conclude (admits : Admits holds) {worker : Worker τ κ ω ρ} {outcome : RenderOutcome}
    (told : κ → Prop) (tells : ∀ chunk shared, told shared → told (worker.notify chunk shared))
    (known : told shared) (h : shop.Under shared holds)
    (free : ∀ other ∈ shop.scheduler.active, other.index ≠ job.index)
    (records : (∀ chunk ∈ shop.store.cache.chunks, chunk.index = job.index →
      chunk.serial = job.chunk.serial) →
      Records holds shop.scheduler shop.store.cache job.index outcome) :
    Ensures (WorkshopAction.conclude worker job outcome) shop
      (fun _ next => ∃ shared, told shared ∧ next.Under shared holds)
      (fun next => ∃ shared, told shared ∧ next.Under shared holds) := by
  unfold WorkshopAction.conclude
  rw [ensures_bind, ensures_get]
  dsimp only
  split
  · next own =>
    have mine : ∀ chunk ∈ shop.store.cache.chunks, chunk.index = job.index →
        chunk.serial = job.chunk.serial := fun chunk hchunk place => by
      rw [← place, h.order.chunks.get_index hchunk] at own
      exact Option.some.inj own
    rw [ensures_bind]
    refine (admits.record h free (records mine)).mono (fun _ recorded hrecorded => ?_)
      fun _ hnext => ⟨shared, known, hnext⟩
    rw [ensures_bind, ensures_get]
    split
    · next chunk _ =>
      rw [ensures_bind]
      let shared' := worker.notify chunk recorded.shared
      have notified : Workshop.Under shared' holds { recorded with shared := shared' } :=
        ⟨rfl, hrecorded.order, hrecorded.holds⟩
      have known' : told shared' := tells chunk _ (hrecorded.shared ▸ known)
      refine (WorkshopAction.tell_spec worker chunk recorded).mono ?_ ?_
      · rintro - _ rfl
        exact (admits.keeps_pump _ notified).mono (fun _ _ hnext => ⟨shared', known', hnext⟩)
          fun _ hnext => ⟨shared', known', hnext⟩
      · rintro _ rfl
        exact ⟨shared', known', notified⟩
    · exact (admits.keeps_pump _ hrecorded).mono (fun _ _ hnext => ⟨shared, known, hnext⟩)
        fun _ hnext => ⟨shared, known, hnext⟩
  · rw [ensures_bind]
    refine (admits.keeps_discard _ _ shop h).mono (fun _ next hnext => ?_)
      fun _ hnext => ⟨shared, known, hnext⟩
    exact (admits.keeps_pump next hnext).mono (fun _ _ hnext => ⟨shared, known, hnext⟩)
      fun _ hnext => ⟨shared, known, hnext⟩

/-- The end of a job. -/
theorem ending (admits : Admits holds) {worker : Worker τ κ ω ρ} {outcome : RenderOutcome}
    (told : κ → Prop) (tells : ∀ chunk shared, told shared → told (worker.notify chunk shared))
    (known : told shared)
    (h : Workshop.Under shared holds { shop with scheduler := shop.scheduler.dropJob job.id })
    (free : ∀ other ∈ (shop.scheduler.dropJob job.id).active, other.index ≠ job.index)
    (records : (∀ chunk ∈ shop.store.cache.chunks, chunk.index = job.index →
      chunk.serial = job.chunk.serial) →
      Records holds (shop.scheduler.dropJob job.id) shop.store.cache job.index outcome) :
    Ensures (WorkshopAction.complete worker job outcome) shop
      (fun _ next => ∃ shared, told shared ∧ next.Under shared holds)
      (fun next => ∃ shared, told shared ∧ next.Under shared holds) := by
  unfold WorkshopAction.complete
  rw [ensures_bind, WorkshopAction.ensures_scheduler, ensures_bind,
    WorkshopAction.ensures_setScheduler]
  exact admits.conclude told tells known h free records

/-- The end of a job that nobody is told of. A failure on the way is lost. -/
theorem complete (admits : Admits holds) {worker : Worker τ κ ω ρ} {outcome : RenderOutcome}
    (quiet : ∀ chunk shared, worker.notify chunk shared = shared)
    (h : Workshop.Under shared holds { shop with scheduler := shop.scheduler.dropJob job.id })
    (free : ∀ other ∈ (shop.scheduler.dropJob job.id).active, other.index ≠ job.index)
    (records : (∀ chunk ∈ shop.store.cache.chunks, chunk.index = job.index →
      chunk.serial = job.chunk.serial) →
      Records holds (shop.scheduler.dropJob job.id) shop.store.cache job.index outcome) :
    Ensures (tryCatch (WorkshopAction.complete worker job outcome) fun _ => pure ()) shop
      (fun _ next => next.Under shared holds) (fun next => next.Under shared holds) := by
  have ends := admits.ending (· = shared) (fun chunk _ same => (quiet chunk _).trans same) rfl h
    free records
  refine Ensures.tryCatch (ends.mono ?_ ?_)
  · rintro - next ⟨_, rfl, hnext⟩
    exact hnext
  · rintro next ⟨_, rfl, hnext⟩ -
    exact hnext

end Admits

end Montage
