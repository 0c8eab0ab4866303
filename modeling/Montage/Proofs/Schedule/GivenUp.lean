import Montage.Proofs.Chunk.Landing
import Montage.Proofs.Schedule.Conclusion
import Montage.Proofs.Schedule.Steering
import Montage.Proofs.Schedule.Step

/-!
# Renders that were given up

A job that is cancelled leaves its chunk in the status of one that renders, and an entry that is
cancelled leaves a chunk so that was left before. Nobody renders such a chunk any more. `GivenUp`
says exactly which chunks are left behind, by the serial numbers of those that were given up; each
step of a workshop comes with the numbers that it adds.

## Main definitions

* `LeftBehind` — a chunk renders, but its place is neither in the queue nor has a job
* `GivenUp` — the chunks that are left behind are those that were given up
* `Workshop.givesUpNext` — what is given up when the job that is due first does what is due

## Main results

* `Workshop.GaveUp.runNext` — what a step of a job gives up
* `Workshop.GaveUp.requestCancel`, `Workshop.GaveUp.requestStopAll`,
  `Workshop.GaveUp.finishCancel` — what a request to cancel gives up
-/

namespace Montage

variable {τ κ ω ρ : Type}

theorem ok_of_toOption {ε α : Type} {result : Except ε α} {a : α} (h : result.toOption = some a) :
    result = .ok a := by
  cases result with
  | error cause => exact absurd h (by simp [Except.toOption])
  | ok found => exact congrArg Except.ok (Option.some.inj h)

/-- A place is in the queue or has a job. -/
def Served (scheduler : Scheduler τ ω ρ) (place : Nat) : Prop :=
  (∃ entry ∈ scheduler.queue, entry.index = place) ∨ ∃ job ∈ scheduler.active, job.index = place

/-- A chunk renders, but nobody renders it. -/
structure LeftBehind (scheduler : Scheduler τ ω ρ) (chunk : Chunk τ) : Prop where
  rendering : chunk.status = .rendering
  unserved : ¬Served scheduler chunk.index

/-- The chunks that are left behind are those that were given up. -/
structure GivenUp (given : List Nat) (scheduler : Scheduler τ ω ρ) (cache : Cache τ) : Prop where
  made : ∀ serial ∈ given, serial < cache.nextSerial
  left : ∀ chunk ∈ cache.chunks, chunk.serial ∈ given ↔ LeftBehind scheduler chunk

/-- A workshop in order, with what was given up in it. -/
structure Workshop.GaveUp (given : List Nat) (shop : Workshop τ κ ω ρ) : Prop where
  order : InOrder shop.store.cache shop.scheduler
  given : GivenUp given shop.scheduler shop.store.cache

/-! ### Places that are served -/

section Served

variable {scheduler : Scheduler τ ω ρ} {cache : Cache τ} {chunk : Chunk τ}

/-- Jobs that stay at their places serve them. -/
theorem served_map {next : Job τ ω ρ → Job τ ω ρ} {place : Nat}
    (same : ∀ job ∈ scheduler.active, (next job).index = job.index) :
    Served { scheduler with active := scheduler.active.map next } place ↔
      Served scheduler place := by
  refine or_congr_right ⟨?_, ?_⟩
  · rintro ⟨_, hnext, rfl⟩
    obtain ⟨job, hjob, rfl⟩ := List.mem_map.mp hnext
    exact ⟨job, hjob, (same job hjob).symm⟩
  · rintro ⟨job, hjob, rfl⟩
    exact ⟨next job, List.mem_map_of_mem hjob, same job hjob⟩

/-- A job that leaves serves no other place. -/
theorem served_dropJob (jobs : scheduler.Orderly) {job : Job τ ω ρ} (hjob : job ∈ scheduler.active)
    {place : Nat} (away : place ≠ job.index) :
    Served (scheduler.dropJob job.id) place ↔ Served scheduler place := by
  refine or_congr_right ⟨?_, ?_⟩
  · rintro ⟨other, hother, here⟩
    exact ⟨other, (scheduler.dropJob_sublist job.id).subset hother, here⟩
  · rintro ⟨other, hother, rfl⟩
    refine ⟨other, List.mem_filter.mpr ⟨hother, ?_⟩, rfl⟩
    simpa using fun id => away (congrArg Job.index (jobs.eq_of_id hother hjob id))

/-- It depends on the places that are served whether a chunk is left behind. -/
theorem leftBehind_congr {other : Scheduler τ ω ρ}
    (same : Served other chunk.index ↔ Served scheduler chunk.index) :
    LeftBehind other chunk ↔ LeftBehind scheduler chunk :=
  ⟨fun left => ⟨left.rendering, left.unserved ∘ same.mpr⟩,
    fun left => ⟨left.rendering, left.unserved ∘ same.mp⟩⟩

/-- Jobs that leave their places leave the chunks behind that they rendered. -/
theorem leftBehind_release (order : InOrder cache scheduler) {active : List (Job τ ω ρ)}
    (sub : active.Sublist scheduler.active) (hchunk : chunk ∈ cache.chunks) :
    LeftBehind { scheduler with active } chunk ↔ LeftBehind scheduler chunk ∨
      ∃ job ∈ scheduler.active, job ∉ active ∧ job.chunk.serial = chunk.serial := by
  constructor
  · rintro ⟨busy, unserved⟩
    by_cases served : Served scheduler chunk.index
    · rcases served with queued | ⟨job, hjob, place⟩
      · exact absurd (.inl queued) unserved
      · refine .inr ⟨job, hjob, fun stays => unserved (.inr ⟨job, stays, place⟩), ?_⟩
        exact (order.held job hjob chunk hchunk place.symm (.inl busy)).symm
    · exact .inl ⟨busy, served⟩
  · rintro (⟨busy, unserved⟩ | ⟨job, hjob, gone, own⟩)
    · refine ⟨busy, fun served => unserved (served.imp_right ?_)⟩
      rintro ⟨job, hjob, place⟩
      exact ⟨job, sub.subset hjob, place⟩
    · obtain ⟨busy, place, -⟩ := order.owned job hjob chunk hchunk own.symm
      refine ⟨busy, ?_⟩
      -- The job was all that served the place.
      rintro (⟨entry, hentry, here⟩ | ⟨other, hother, here⟩)
      · exact order.jobs.apart job hjob entry hentry (by rw [here, place])
      · have same := order.jobs.eq_of_index (sub.subset hother) hjob (here.trans place)
        exact gone (same ▸ hother)

/-- Entries that leave the queue leave the chunks behind that were left behind before. -/
theorem leftBehind_dequeue {queue gone : RenderQueue} (order : InOrder cache scheduler)
    (split : ∀ entry, entry ∈ scheduler.queue ↔ entry ∈ queue ∨ entry ∈ gone)
    (apart : ∀ entry ∈ gone, ∀ other ∈ queue, other.index ≠ entry.index) :
    LeftBehind { scheduler with queue } chunk ↔ LeftBehind scheduler chunk ∨
      chunk.status = .rendering ∧ ∃ entry ∈ gone, entry.index = chunk.index := by
  constructor
  · rintro ⟨busy, unserved⟩
    by_cases served : Served scheduler chunk.index
    · rcases served with ⟨entry, hentry, place⟩ | held
      · rcases (split entry).mp hentry with stays | leaves
        · exact absurd (.inl ⟨entry, stays, place⟩) unserved
        · exact .inr ⟨busy, entry, leaves, place⟩
      · exact absurd (.inr held) unserved
    · exact .inl ⟨busy, served⟩
  · rintro (⟨busy, unserved⟩ | ⟨busy, entry, hentry, place⟩)
    · refine ⟨busy, fun served => unserved (served.imp_left ?_)⟩
      rintro ⟨entry, hentry, place⟩
      exact ⟨entry, (split entry).mpr (.inl hentry), place⟩
    · refine ⟨busy, ?_⟩
      rintro (⟨other, hother, here⟩ | ⟨job, hjob, here⟩)
      · exact apart entry hentry other hother (here.trans place.symm)
      · refine order.jobs.apart job hjob entry ((split entry).mpr (.inr hentry)) ?_
        rw [place, here]

end Served

namespace GivenUp

variable {given : List Nat} {scheduler other : Scheduler τ ω ρ} {cache after : Cache τ}

/-- A chunk that does not render was not given up. -/
theorem not_mem_of_idle (h : GivenUp given scheduler cache) {chunk : Chunk τ}
    (hchunk : chunk ∈ cache.chunks) (idle : chunk.status ≠ .rendering) : chunk.serial ∉ given :=
  fun left => idle ((h.left chunk hchunk).mp left).rendering

/-- Nor was a chunk whose place is served. -/
theorem not_mem_of_served (h : GivenUp given scheduler cache) {chunk : Chunk τ}
    (hchunk : chunk ∈ cache.chunks) (served : Served scheduler chunk.index) :
    chunk.serial ∉ given :=
  fun left => ((h.left chunk hchunk).mp left).unserved served

/-- It matters only which places of chunks that render are served. -/
theorem of_served (h : GivenUp given scheduler cache)
    (same : ∀ chunk ∈ cache.chunks, chunk.status = .rendering →
      (Served other chunk.index ↔ Served scheduler chunk.index)) : GivenUp given other cache where
  made := h.made
  left chunk hchunk := by
    rw [h.left chunk hchunk]
    constructor
    · exact fun left => (leftBehind_congr (same chunk hchunk left.rendering)).mpr left
    · exact fun left => (leftBehind_congr (same chunk hchunk left.rendering)).mp left

/-- More chunks are given up. -/
theorem append (h : GivenUp given scheduler cache) {more : List Nat}
    (made : ∀ serial ∈ more, serial < cache.nextSerial)
    (left : ∀ chunk ∈ cache.chunks, LeftBehind other chunk ↔
      LeftBehind scheduler chunk ∨ chunk.serial ∈ more) : GivenUp (given ++ more) other cache where
  made serial hserial := (List.mem_append.mp hserial).elim (h.made serial) (made serial)
  left chunk hchunk := by rw [List.mem_append, h.left chunk hchunk, left chunk hchunk]

/-- What is demoted or cut anew is left behind if it was before. -/
theorem recut (h : GivenUp given scheduler cache) (recut : cache.Recut after) :
    GivenUp given scheduler after where
  made serial hserial := Nat.lt_of_lt_of_le (h.made serial hserial) recut.nextSerial
  left chunk hchunk := by
    rcases recut.chunks chunk hchunk with ⟨old, hold, demoted⟩ | new
    · rw [demoted.serial, h.left old hold]
      constructor
      · intro left
        exact ⟨demoted.rendering_iff.mpr left.rendering, demoted.index ▸ left.unserved⟩
      · intro left
        exact ⟨demoted.rendering_iff.mp left.rendering, demoted.index ▸ left.unserved⟩
    · -- A new chunk does not render, and its number is none that was given before.
      refine iff_of_false (fun left => ?_) fun left => ?_
      · have := h.made chunk.serial left
        have := new.serial_le
        omega
      · rcases new.status with missing | valid
        · exact absurd (missing.symm.trans left.rendering) (by decide)
        · exact absurd (valid.symm.trans left.rendering) (by decide)

/-- A chunk changes that is left behind neither before nor after. -/
theorem put (h : GivenUp given scheduler cache) {old new : Chunk τ} (hold : old ∈ cache.chunks)
    (serial : new.serial = old.serial) (before : Served scheduler old.index)
    (after : ¬LeftBehind other new)
    (same : ∀ chunk ∈ cache.chunks, chunk.serial ≠ old.serial →
      (Served other chunk.index ↔ Served scheduler chunk.index)) :
    GivenUp given other (cache.put new) where
  made := h.made
  left chunk hchunk := by
    rcases (Cache.mem_put hold serial).mp hchunk with rfl | ⟨hchunk, differ⟩
    · rw [serial]
      exact iff_of_false (h.not_mem_of_served hold before) after
    · rw [h.left chunk hchunk]
      exact (leftBehind_congr (same chunk hchunk (serial ▸ differ))).symm

/-- Giving away slots leaves nothing behind, and takes up nothing that was. -/
theorem pumps : Pumps (GivenUp (τ := τ) (ω := ω) (ρ := ρ) given) where
  idle _ _ _ h := h.of_served fun _ _ _ => Iff.rfl
  skip entry rest scheduler cache order queue h valid := by
    refine h.of_served fun chunk hchunk busy => or_congr_left ⟨?_, ?_⟩
    · rintro ⟨other, hother, place⟩
      exact ⟨other, queue ▸ List.mem_cons_of_mem _ hother, place⟩
    · rintro ⟨other, hother, place⟩
      rcases List.mem_cons.mp (queue ▸ hother) with rfl | hother
      · have := valid chunk (place ▸ order.chunks.get_index hchunk)
        simp [busy] at this
      · exact ⟨other, hother, place⟩
  begin entry rest scheduler cache chunk order queue _ h hget _ := by
    have hchunk := Cache.mem_of_get hget
    have place := order.chunks.index_of_get hget
    refine h.put hchunk rfl (.inl ⟨entry, queue ▸ List.mem_cons_self, place.symm⟩) ?_ ?_
    · have started : { id := scheduler.nextJob, chunk } ∈ (scheduler.addJob chunk).active :=
        List.mem_append_right _ List.mem_cons_self
      exact fun left => left.unserved (.inr ⟨_, started, rfl⟩)
    · -- The entry and the job are both for the chunk that begins.
      intro other hother differ
      have away : other.index ≠ chunk.index := fun same =>
        differ (congrArg Chunk.serial (order.chunks.eq_of_index hother hchunk same))
      constructor
      · rintro (⟨waiting, hwaiting, here⟩ | ⟨job, hjob, here⟩)
        · exact .inl ⟨waiting, queue ▸ List.mem_cons_of_mem _ hwaiting, here⟩
        · rcases Scheduler.mem_addJob.mp hjob with hjob | rfl
          · exact .inr ⟨job, hjob, here⟩
          · exact absurd here.symm away
      · rintro (⟨waiting, hwaiting, here⟩ | ⟨job, hjob, here⟩)
        · rcases List.mem_cons.mp (queue ▸ hwaiting) with rfl | hwaiting
          · exact absurd (by omega) away
          · exact .inl ⟨waiting, hwaiting, here⟩
        · exact .inr ⟨job, Scheduler.mem_addJob.mpr (.inl hjob), here⟩

/-- An entry joins the queue for a place whose chunk was not given up. -/
theorem enter (h : GivenUp given scheduler cache) {queue : RenderQueue} (index : Int)
    (entries : ∀ place : Nat, (∃ entry ∈ queue, entry.index = place) ↔
      place = index ∨ ∃ entry ∈ scheduler.queue, entry.index = place)
    (spared : ∀ chunk ∈ cache.chunks, (chunk.index : Int) = index → chunk.serial ∉ given) :
    GivenUp given { scheduler with queue } cache where
  made := h.made
  left chunk hchunk := by
    rw [h.left chunk hchunk]
    constructor
    · intro left
      refine ⟨left.rendering, ?_⟩
      rintro (queued | held)
      · rcases (entries chunk.index).mp queued with here | before
        · exact spared chunk hchunk here ((h.left chunk hchunk).mpr left)
        · exact left.unserved (.inl before)
      · exact left.unserved (.inr held)
    · intro left
      refine ⟨left.rendering, fun served => left.unserved (served.imp_left fun before => ?_)⟩
      exact (entries chunk.index).mpr (.inr before)

end GivenUp

/-- No chunk at some places was given up. -/
def Spares (given : List Nat) (places : Nat → Prop) (cache : Cache τ) : Prop :=
  ∀ chunk ∈ cache.chunks, places chunk.index → chunk.serial ∉ given

/-- A chunk that begins has the number and the place that it had. -/
theorem Spares.pumps {given : List Nat} {places : Nat → Prop} :
    Pumps fun (_ : Scheduler τ ω ρ) (cache : Cache τ) => Spares given places cache where
  idle _ _ _ h := h
  skip _ _ _ _ _ _ h _ := h
  begin _ _ _ _ chunk _ _ _ h hget _ := by
    have hchunk := Cache.mem_of_get hget
    have serial : (Cache.beginRender chunk).serial = chunk.serial := rfl
    intro other hother here
    rcases (Cache.mem_put hchunk serial).mp hother with rfl | ⟨hother, -⟩
    · exact h chunk hchunk here
    · exact h other hother here

/-- The places of a queue that an entry joins. -/
theorem RenderQueue.exists_mem_enqueue {queue : RenderQueue} {entry : QueueEntry} {place : Int} :
    (∃ other ∈ queue.enqueue entry, other.index = place) ↔
      place = entry.index ∨ ∃ other ∈ queue, other.index = place := by
  simp only [mem_enqueue, exists_eq_or_imp, eq_comm (a := place)]

/-- An entry that joins the queue anew leaves all places in the queue. -/
theorem RenderQueue.exists_mem_drop {queue : RenderQueue} {index place : Int} :
    (place = index ∨ ∃ other ∈ queue.drop index, other.index = place) ↔
      place = index ∨ ∃ other ∈ queue, other.index = place := by
  refine or_congr_right' fun away => ⟨?_, ?_⟩
  · rintro ⟨other, hother, here⟩
    exact ⟨other, (drop_sublist queue index).subset hother, here⟩
  · rintro ⟨other, hother, here⟩
    exact ⟨other, mem_drop_of_ne hother (here ▸ away), here⟩

/-- What leaves the queue is for the place that is dropped. -/
theorem RenderQueue.mem_iff_mem_drop {queue : RenderQueue} {index : Int} {entry : QueueEntry} :
    entry ∈ queue ↔ entry ∈ queue.drop index ∨ entry ∈ queue.filter (·.index = index) := by
  constructor
  · intro hentry
    by_cases here : entry.index = index
    · exact .inr (List.mem_filter.mpr ⟨hentry, decide_eq_true here⟩)
    · exact .inl (mem_drop_of_ne hentry here)
  · rintro (stays | leaves)
    · exact (drop_sublist queue index).subset stays
    · exact (List.mem_filter.mp leaves).1

/-- What the end of a job gives up: a job that is cancelled leaves its chunk as it is. -/
def RenderOutcome.givesUp (outcome : RenderOutcome) (serial : Nat) : List Nat :=
  if outcome.cancelled then [serial] else []

namespace Workshop.GaveUp

variable {given : List Nat} {shop : Workshop τ κ ω ρ} {job : Job τ ω ρ}

/-- Neither files nor what the workers share matter. -/
theorem of_same (h : shop.GaveUp given) {next : Workshop τ κ ω ρ}
    (scheduler : next.scheduler = shop.scheduler) (cache : next.store.cache = shop.store.cache) :
    next.GaveUp given := by
  obtain ⟨order, given⟩ := h
  rw [← scheduler, ← cache] at order given
  exact ⟨order, given⟩

/-- Nor does it matter what is due. -/
theorem redate (h : shop.GaveUp given) (agenda : List Nat) :
    Workshop.GaveUp given { shop with scheduler := { shop.scheduler with agenda } } :=
  ⟨h.order.of_eq rfl rfl rfl, h.given.of_served fun _ _ _ => Iff.rfl⟩

/-- Jobs go on. -/
theorem map (h : shop.GaveUp given) {next : Job τ ω ρ → Job τ ω ρ}
    (same : ∀ job ∈ shop.scheduler.active, (next job).id = job.id ∧ (next job).chunk = job.chunk) :
    Workshop.GaveUp given { shop with
      scheduler := { shop.scheduler with active := shop.scheduler.active.map next } } where
  order := h.order.map same
  given := h.given.of_served fun _ _ _ =>
    served_map fun job hjob => congrArg Chunk.index (same job hjob).2

/-- A job goes on. -/
theorem putJob (h : shop.GaveUp given) (hjob : job ∈ shop.scheduler.active) {next : Job τ ω ρ}
    (id : next.id = job.id) (chunk : next.chunk = job.chunk) :
    Workshop.GaveUp given { shop with scheduler := shop.scheduler.putJob next } := by
  refine h.map fun other hother => ?_
  split
  · next same =>
    obtain rfl := h.order.jobs.eq_of_id hother hjob (same.trans id)
    exact ⟨id, chunk⟩
  · exact ⟨rfl, rfl⟩

/-- Jobs leave their places, and their chunks are given up. -/
theorem release (h : shop.GaveUp given) {active : List (Job τ ω ρ)}
    (sub : active.Sublist shop.scheduler.active) {more : List Nat}
    (gone : ∀ serial, serial ∈ more ↔
      ∃ job ∈ shop.scheduler.active, job ∉ active ∧ job.chunk.serial = serial) :
    Workshop.GaveUp (given ++ more) { shop with scheduler := { shop.scheduler with active } } where
  order := h.order.release sub
  given := by
    refine h.given.append (fun serial hserial => ?_) fun chunk hchunk => ?_
    · obtain ⟨job, hjob, -, rfl⟩ := (gone serial).mp hserial
      exact h.order.made job hjob
    · rw [leftBehind_release h.order sub hchunk, gone]

/-- A job leaves its place, and its chunk is given up. -/
theorem dropJob (h : shop.GaveUp given) (hjob : job ∈ shop.scheduler.active) :
    Workshop.GaveUp (given ++ [job.chunk.serial])
      { shop with scheduler := shop.scheduler.dropJob job.id } := by
  refine h.release (shop.scheduler.dropJob_sublist job.id) fun serial => ?_
  rw [List.mem_singleton]
  constructor
  · rintro rfl
    exact ⟨job, hjob, by simp [Scheduler.dropJob], rfl⟩
  · rintro ⟨other, hother, gone, rfl⟩
    have id : other.id = job.id := by simpa [Scheduler.dropJob, hother] using gone
    rw [h.order.jobs.eq_of_id hother hjob id]

/-- A job leaves its place, but its chunk is not there any more. -/
theorem dropJob_foreign (h : shop.GaveUp given) (hjob : job ∈ shop.scheduler.active)
    (foreign : ∀ chunk ∈ shop.store.cache.chunks, chunk.serial ≠ job.chunk.serial) :
    Workshop.GaveUp given { shop with scheduler := shop.scheduler.dropJob job.id } := by
  obtain ⟨order, made, left⟩ := h.dropJob hjob
  refine ⟨order, h.given.made, fun chunk hchunk => ?_⟩
  rw [← left chunk hchunk, List.mem_append, List.mem_singleton]
  exact (or_iff_left (foreign chunk hchunk)).symm

/-- A job leaves its place, and its chunk does not render any more. -/
theorem dropJob_settled (h : shop.GaveUp given) (hjob : job ∈ shop.scheduler.active)
    {chunk : Chunk τ} (hchunk : chunk ∈ shop.store.cache.chunks)
    (own : chunk.serial = job.chunk.serial) {store : CacheState τ}
    {leads : Chunk τ → Chunk τ → Prop}
    (ends : shop.store.cache.Concludes store.cache job.index leads)
    (settles : CacheAction.Settles chunk shop.store store) :
    Workshop.GaveUp given { shop with store, scheduler := shop.scheduler.dropJob job.id } ∧
      ∀ other ∈ store.cache.chunks, (other.index : Int) = job.index →
        other.status ≠ .rendering := by
  have place := (h.order.owned job hjob chunk hchunk own).2.1
  have away {other : Chunk τ} (hother : other ∈ shop.store.cache.chunks)
      (differ : other.serial ≠ chunk.serial) : other.index ≠ job.index := fun here =>
    differ (congrArg Chunk.serial
      (h.order.chunks.eq_of_index hother hchunk (here.trans place.symm)))
  obtain ⟨ended, serial, -, idle, put⟩ := settles
  refine ⟨⟨?_, ?_⟩, fun other hother here => ?_⟩
  · have left : InOrder shop.store.cache (shop.scheduler.dropJob job.id) :=
      h.order.release (shop.scheduler.dropJob_sublist job.id)
    refine left.concludes ends fun other hother here => ?_
    exact h.order.jobs.index_ne_of_dropJob hjob hother (Int.ofNat.inj here)
  · dsimp only
    rw [put]
    refine h.given.put hchunk serial (.inr ⟨job, hjob, place.symm⟩)
      (fun left => idle left.rendering) fun other hother differ => ?_
    exact served_dropJob h.order.jobs hjob (away hother differ)
  · rw [put] at hother
    rcases (Cache.mem_put hchunk serial).mp hother with rfl | ⟨hother, differ⟩
    · exact idle
    · exact absurd (Int.ofNat.inj here) (away hother (serial ▸ differ))

section Actions

variable [Scalar τ]

/-- Free slots are given away. -/
theorem pump (h : shop.GaveUp given) :
    Ensures WorkshopAction.pump shop (fun _ next => next.GaveUp given) (fun _ => False) :=
  (GivenUp.pumps.pump shop h.order h.given).mono (fun _ _ hnext => ⟨hnext.1, hnext.2.1⟩) fun _ => id

theorem keeps_pump : Keeps (Workshop.GaveUp (τ := τ) (κ := κ) (ω := ω) (ρ := ρ) given)
    WorkshopAction.pump :=
  fun _ h => h.pump.mono (fun _ _ => id) fun _ => False.elim

/-- A place is queued whose chunk was not given up. -/
theorem queueSpared (h : shop.GaveUp given) {places : Nat → Prop}
    (spared : Spares given places shop.store.cache) {index : Int}
    (here : ∀ place : Nat, (place : Int) = index → places place) (urgency : Urgency) :
    Ensures (WorkshopAction.queue index urgency) shop
      (fun _ next => next.GaveUp given ∧ Spares given places next.store.cache) (fun _ => False) := by
  let entry : QueueEntry := ⟨index, urgency⟩
  have entered : GivenUp given { shop.scheduler with queue := shop.scheduler.queue.enqueue entry }
      shop.store.cache :=
    h.given.enter index (fun _ => RenderQueue.exists_mem_enqueue) fun chunk hchunk same =>
      spared chunk hchunk (here _ same)
  exact ((GivenUp.pumps.and Spares.pumps).admission index urgency shop h.order
    (fun _ => ⟨h.given, spared⟩) ⟨entered, spared⟩).mono
    (fun _ _ hnext => ⟨⟨hnext.1, hnext.2.1.1⟩, hnext.2.1.2⟩) fun _ => id

/-- An entry whose chunk was not given up moves in the queue. -/
theorem setUrgency (h : shop.GaveUp given) {places : Nat → Prop}
    (spared : Spares given places shop.store.cache) {index : Int}
    (here : ∀ place : Nat, (place : Int) = index → places place) (urgency : Urgency) :
    Ensures (WorkshopAction.setUrgency index urgency) shop
      (fun _ next => next.GaveUp given ∧ Spares given places next.store.cache) (fun _ => False) := by
  refine ((GivenUp.pumps.and Spares.pumps).setUrgency index urgency (fun scheduler cache held => ?_)
    shop h.order ⟨h.given, spared⟩).mono
    (fun _ _ hnext => ⟨⟨hnext.1, hnext.2.1.1⟩, hnext.2.1.2⟩) fun _ => id
  refine ⟨held.1.enter index (fun place => ?_) fun chunk hchunk same => ?_, held.2⟩
  · exact RenderQueue.exists_mem_enqueue.trans RenderQueue.exists_mem_drop
  · exact held.2 chunk hchunk (here _ same)

/-- A place is queued whose chunk does not render. -/
theorem queue (h : shop.GaveUp given) {index : Int} (urgency : Urgency)
    (idle : ∀ chunk ∈ shop.store.cache.chunks, (chunk.index : Int) = index →
      chunk.status ≠ .rendering) :
    Ensures (WorkshopAction.queue index urgency) shop (fun _ next => next.GaveUp given)
      (fun _ => False) := by
  have spared : Spares given (fun place => (place : Int) = index) shop.store.cache :=
    fun chunk hchunk here => h.given.not_mem_of_idle hchunk (idle chunk hchunk here)
  exact (h.queueSpared spared (fun _ => id) urgency).mono (fun _ _ hnext => hnext.1) fun _ => id

/-- What a job did is recorded for its own chunk. -/
theorem record (h : shop.GaveUp given) (hjob : job ∈ shop.scheduler.active) {chunk : Chunk τ}
    (hchunk : chunk ∈ shop.store.cache.chunks) (own : chunk.serial = job.chunk.serial)
    (outcome : RenderOutcome) :
    let gaveUp := Workshop.GaveUp (κ := κ) (given ++ outcome.givesUp job.chunk.serial)
    Ensures (WorkshopAction.record job.index outcome)
      { shop with scheduler := shop.scheduler.dropJob job.id } (fun _ => gaveUp) gaveUp := by
  obtain ⟨busy, place, -⟩ := h.order.owned job hjob chunk hchunk own
  have found : shop.store.cache.get job.index = .ok chunk := place ▸ h.order.chunks.get_index hchunk
  unfold WorkshopAction.record RenderOutcome.givesUp
  split
  · exact h.dropJob hjob
  · dsimp only
    rw [List.append_nil]
    split
    · next path _ _ =>
      rw [ensures_bind, WorkshopAction.ensures_onCache]
      refine ((CacheAction.finishRender_spec job.index outcome.contentHash path outcome.isComplex
        shop.store).and (CacheAction.finishRender_settles found busy path outcome.contentHash
        outcome.isComplex)).mono (fun ended store hends => ?_) fun store hends => ?_
      · obtain ⟨left, idle⟩ := h.dropJob_settled hjob hchunk own hends.1 hends.2
        split
        · rw [ensures_bind]
          exact (left.queue .normal idle).mono (fun _ _ => id) fun _ => False.elim
        · exact left
      · exact (h.dropJob_settled hjob hchunk own hends.1 hends.2).1
    · rw [ensures_bind, WorkshopAction.ensures_onCache]
      let message := (outcome.error.filter (· ≠ "")).getD "Render failed"
      refine ((CacheAction.failRender_spec job.index outcome.contentHash message shop.store).and
        (CacheAction.failRender_settles found busy outcome.contentHash message)).mono
        (fun ended store hends => ?_) fun store hends => ?_
      · exact (h.dropJob_settled hjob hchunk own hends.1 hends.2).1
      · exact (h.dropJob_settled hjob hchunk own hends.1 hends.2).1

/-- A file that nobody waits for is removed, and the chunk that has the place now is queued. -/
theorem discard (h : shop.GaveUp given) (outcome : RenderOutcome) (index : Int) :
    Ensures (WorkshopAction.discard outcome (shop.store.cache.get index).toOption) shop
      (fun _ next => next.GaveUp given) (fun next => next.GaveUp given) := by
  unfold WorkshopAction.discard
  rw [ensures_bind]
  refine (WorkshopAction.removeOutput_spec outcome shop).mono ?_ fun _ same => same ▸ h
  rintro - _ ⟨disk, rfl⟩
  have removed : Workshop.GaveUp given { shop with store := { shop.store with disk } } :=
    h.of_same rfl rfl
  unfold WorkshopAction.queueNew
  cases found : shop.store.cache.get index with
  | error cause => exact removed
  | ok chunk =>
    have hchunk := Cache.mem_of_get found
    dsimp only [Except.toOption]
    split
    · next waits =>
      rw [ensures_bind]
      refine (removed.queue .normal fun other hother here => ?_).mono (fun _ _ => id)
        fun _ => False.elim
      obtain rfl := h.order.chunks.eq_of_index hother hchunk (Int.ofNat.inj here)
      intro busy
      simp [busy, ChunkState.needsRender] at waits
    · exact removed

/-- The end of a job gives up its chunk if the job was cancelled, and nothing else. -/
theorem complete (h : shop.GaveUp given) (hjob : job ∈ shop.scheduler.active)
    (worker : Worker τ κ ω ρ) (outcome : RenderOutcome) :
    let gaveUp := Workshop.GaveUp (κ := κ) (given ++ outcome.givesUp job.chunk.serial)
    Ensures (WorkshopAction.complete worker job outcome) shop (fun _ => gaveUp) gaveUp := by
  intro gaveUp
  unfold WorkshopAction.complete WorkshopAction.conclude
  rw [ensures_bind, WorkshopAction.ensures_scheduler, ensures_bind,
    WorkshopAction.ensures_setScheduler, ensures_bind, ensures_get]
  dsimp only
  split
  · next own =>
    obtain ⟨chunk, found, own⟩ := Option.map_eq_some_iff.mp own
    have hchunk := Cache.mem_of_get (ok_of_toOption found)
    rw [ensures_bind]
    refine (h.record hjob hchunk own outcome).mono (fun _ recorded hrecorded => ?_) fun _ => id
    rw [ensures_bind, ensures_get]
    split
    · next chunk _ =>
      rw [ensures_bind]
      refine (WorkshopAction.tell_spec worker chunk recorded).mono ?_ ?_
      · rintro - _ rfl
        exact keeps_pump _ (hrecorded.of_same rfl rfl)
      · rintro _ rfl
        exact hrecorded.of_same rfl rfl
    · exact keeps_pump _ hrecorded
  · next foreign =>
    -- The chunk of the job was cut away, and another one may have its place.
    have elsewhere : ∀ chunk ∈ shop.store.cache.chunks, chunk.serial ≠ job.chunk.serial := by
      intro chunk hchunk own
      apply foreign
      have place := (h.order.owned job hjob chunk hchunk own).2.1
      rw [← place, h.order.chunks.get_index hchunk, ← own]
      rfl
    have dropped : gaveUp { shop with scheduler := shop.scheduler.dropJob job.id } := by
      change Workshop.GaveUp (given ++ outcome.givesUp job.chunk.serial) _
      unfold RenderOutcome.givesUp
      split
      · exact h.dropJob hjob
      · rw [List.append_nil]
        exact h.dropJob_foreign hjob elsewhere
    rw [ensures_bind]
    exact (dropped.discard outcome job.index).mono (fun _ next hnext => keeps_pump next hnext)
      fun _ => id

end Actions

end Workshop.GaveUp

/-! ### Steps of jobs -/

/-- What is given up when a job does what is due. -/
def Workshop.givesUp (worker : Worker τ κ ω ρ) (job : Job τ ω ρ) (shop : Workshop τ κ ω ρ) :
    List Nat :=
  match WorkshopAction.report? worker job shop with
  | .ok (some outcome) _ => outcome.givesUp job.chunk.serial
  | _ => []

/-- What is given up when the job that is due first does what is due. -/
def Workshop.givesUpNext (worker : Worker τ κ ω ρ) (shop : Workshop τ κ ω ρ) : List Nat :=
  match shop.scheduler.agenda with
  | [] => []
  | id :: rest =>
    match shop.scheduler.job? id with
    | some job =>
      { shop with scheduler := { shop.scheduler with agenda := rest } }.givesUp worker job
    | none => []

namespace Workshop.GaveUp

variable {given : List Nat} {shop : Workshop τ κ ω ρ} {job : Job τ ω ρ} [Scalar τ]
  {worker : Worker τ κ ω ρ}

/-- A step of a job gives up its chunk if the job comes to its end and was cancelled. -/
theorem runJob (h : shop.GaveUp given) (tame : worker.LeavesCache)
    (hjob : job ∈ shop.scheduler.active) :
    let gaveUp := Workshop.GaveUp (κ := κ) (given ++ shop.givesUp worker job)
    Ensures (WorkshopAction.runJob worker job) shop (fun _ => gaveUp) gaveUp := by
  obtain ⟨outcome, middle, hrun, hcache, hstep⟩ :=
    (WorkshopAction.report?_spec tame job shop).exists_ok
  rw [WorkshopAction.runJob_eq, ensures_bind, ensures_of_ok hrun]
  unfold Workshop.givesUp
  rw [hrun]
  cases outcome with
  | none =>
    dsimp only
    rw [List.append_nil]
    rcases hstep with ⟨same, -⟩ | ⟨after, advances, put⟩
    · exact h.of_same same hcache
    · exact (h.putJob hjob advances.same.1 advances.same.2).of_same put hcache
  | some outcome =>
    have resting : middle.GaveUp given := h.of_same hstep.1 hcache
    apply Ensures.tryCatch
    exact (resting.complete (hstep.1 ▸ hjob) worker outcome).mono (fun _ _ => id)
      fun _ hnext _ => hnext

/-- What is due first is done. -/
theorem runNext (h : shop.GaveUp given) (tame : worker.LeavesCache) :
    let gaveUp := Workshop.GaveUp (κ := κ) (given ++ shop.givesUpNext worker)
    Ensures (WorkshopAction.runNext worker) shop (fun _ => gaveUp) gaveUp := by
  unfold WorkshopAction.runNext Workshop.givesUpNext
  rw [ensures_bind, WorkshopAction.ensures_scheduler]
  cases shop.scheduler.agenda with
  | nil =>
    dsimp only
    rw [List.append_nil]
    exact h
  | cons id rest =>
    dsimp only
    rw [ensures_bind, WorkshopAction.ensures_setScheduler]
    have waiting := h.redate rest
    cases hjob : shop.scheduler.job? id with
    | none =>
      dsimp only
      rw [List.append_nil]
      exact waiting
    | some job => exact waiting.runJob tame (List.mem_of_find?_eq_some hjob)

end Workshop.GaveUp

/-! ### Cancellation -/

/-- The chunks that render although they wait in a queue. They were left behind before. -/
def Workshop.rendersAmong (shop : Workshop τ κ ω ρ) (queue : RenderQueue) : List Nat :=
  (shop.store.cache.chunks.filter fun chunk =>
    chunk.status = .rendering && queue.any (·.index = chunk.index)).map (·.serial)

/-- What is given up when a place is taken off the queue. -/
def Workshop.givesUpAt (shop : Workshop τ κ ω ρ) (index : Int) : List Nat :=
  shop.rendersAmong (shop.scheduler.queue.filter (·.index = index))

/-- What is given up when those who waited for jobs to stop go on. -/
def Workshop.givesUpEnded (shop : Workshop τ κ ω ρ) : List Nat :=
  (shop.scheduler.active.filter (·.isEnded)).map (·.chunk.serial)

namespace Workshop.GaveUp

variable {given : List Nat} {shop : Workshop τ κ ω ρ}

/-- Entries leave the queue, and the chunks of theirs that render are given up again. -/
theorem dequeue (h : shop.GaveUp given) {queue gone : RenderQueue}
    (sub : queue.Sublist shop.scheduler.queue)
    (split : ∀ entry, entry ∈ shop.scheduler.queue ↔ entry ∈ queue ∨ entry ∈ gone)
    (apart : ∀ entry ∈ gone, ∀ other ∈ queue, other.index ≠ entry.index) :
    Workshop.GaveUp (given ++ shop.rendersAmong gone)
      { shop with scheduler := { shop.scheduler with queue } } where
  order := h.order.dequeue sub
  given := by
    refine h.given.append (fun serial hserial => ?_) fun chunk hchunk => ?_
    · obtain ⟨chunk, hchunk, rfl⟩ := List.mem_map.mp hserial
      exact h.order.chunks.numbered chunk (List.mem_filter.mp hchunk).1
    · rw [leftBehind_dequeue h.order split apart]
      refine or_congr_right ⟨?_, ?_⟩
      · rintro ⟨busy, entry, hentry, place⟩
        refine List.mem_map.mpr ⟨chunk, List.mem_filter.mpr ⟨hchunk, ?_⟩, rfl⟩
        simpa [busy] using ⟨entry, hentry, place⟩
      · intro hserial
        obtain ⟨other, hother, same⟩ := List.mem_map.mp hserial
        obtain ⟨hother, left⟩ := List.mem_filter.mp hother
        obtain rfl := h.order.chunks.eq_of_serial hother hchunk same
        simpa using left

/-- All jobs are told to stop, and nothing waits any more. -/
theorem requestStopAll (h : shop.GaveUp given) :
    Ensures WorkshopAction.requestStopAll shop
      (fun _ next => next.GaveUp (given ++ shop.rendersAmong shop.scheduler.queue))
      (fun _ => False) := by
  have emptied : Workshop.GaveUp (given ++ shop.rendersAmong shop.scheduler.queue)
      { shop with scheduler := { shop.scheduler with queue := [] } } :=
    h.dequeue (List.nil_sublist _) (fun _ => by simp) fun _ _ _ => nofun
  have stopped := emptied.map fun job _ => ⟨job.same_stop.id, job.same_stop.chunk⟩
  exact stopped.redate _

variable [Scalar τ]

/-- A place is taken off the queue, or its job is told to stop. -/
theorem requestCancel (h : shop.GaveUp given) (index : Int) :
    Ensures (WorkshopAction.requestCancel index) shop
      (fun _ next => next.GaveUp (given ++ shop.givesUpAt index)) (fun _ => False) := by
  unfold WorkshopAction.requestCancel
  rw [ensures_bind, WorkshopAction.ensures_scheduler]
  split
  · rw [ensures_bind, WorkshopAction.ensures_setScheduler, ensures_bind]
    have dropped : Workshop.GaveUp (given ++ shop.givesUpAt index)
        { shop with scheduler :=
          { shop.scheduler with queue := shop.scheduler.queue.drop index } } := by
      refine h.dequeue (RenderQueue.drop_sublist _ index) (fun _ => RenderQueue.mem_iff_mem_drop)
        fun entry hentry other hother => ?_
      obtain ⟨-, here⟩ := List.mem_filter.mp hentry
      rw [of_decide_eq_true here]
      exact RenderQueue.not_mem_drop h.order.jobs.entries hother
    exact dropped.pump
  · next absent =>
    rw [RenderQueue.entryOf?_isSome] at absent
    have nothing : shop.givesUpAt index = [] := by
      have empty : shop.scheduler.queue.filter (·.index = index) = [] :=
        List.filter_eq_nil_iff.mpr fun entry hentry here =>
          absent ⟨entry, hentry, of_decide_eq_true here⟩
      simp [givesUpAt, rendersAmong, empty]
    rw [nothing, List.append_nil]
    split
    · exact h
    · next job found =>
      have stopped := h.putJob (List.mem_of_find?_eq_some found) job.same_stop.id
        job.same_stop.chunk
      exact stopped.redate _

/-- Jobs that ended before they began give up their slots. -/
theorem finishCancel (h : shop.GaveUp given) :
    Ensures WorkshopAction.finishCancel shop
      (fun _ next => next.GaveUp (given ++ shop.givesUpEnded)) (fun _ => False) := by
  unfold WorkshopAction.finishCancel
  rw [ensures_bind, WorkshopAction.ensures_scheduler, ensures_bind,
    WorkshopAction.ensures_setScheduler]
  have released : Workshop.GaveUp (given ++ shop.givesUpEnded)
      { shop with scheduler := shop.scheduler.forgetEnded } := by
    refine h.release List.filter_sublist fun serial => ?_
    constructor
    · intro hserial
      obtain ⟨job, hjob, rfl⟩ := List.mem_map.mp hserial
      obtain ⟨hjob, ended⟩ := List.mem_filter.mp hjob
      exact ⟨job, hjob, fun stays => by simp [ended] at stays, rfl⟩
    · rintro ⟨job, hjob, gone, rfl⟩
      refine List.mem_map.mpr ⟨job, List.mem_filter.mpr ⟨hjob, ?_⟩, rfl⟩
      by_contra going
      exact gone (List.mem_filter.mpr ⟨hjob, by simpa using going⟩)
  exact released.pump

end Workshop.GaveUp

end Montage
