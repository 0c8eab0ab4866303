import Montage.Proofs.Chunk.Action
import Montage.Schedule.Basic

/-!
# Jobs and the chunks that they render

`InOrder` relates a cache to the scheduler that renders it: no two jobs and no two entries of the
queue are for one place, no place has both, and a job that still has its chunk finds it rendering. A
job whose chunk was cut away holds its place all the same, so that the chunk that stands there now
cannot begin.
-/

namespace Montage

variable {τ ω ρ : Type}

/-- What a worker keeps while its job waits, or is to go on or to give up. -/
def Job.kept? (job : Job τ ω ρ) : Option ω :=
  match job.phase with
  | .waiting kept | .answered kept _ | .stopping kept => some kept
  | .due _ | .ended => none

/-- No two jobs and no two entries of the queue are for one place, and no place has both. -/
structure Scheduler.Orderly (scheduler : Scheduler τ ω ρ) : Prop where
  ids : (scheduler.active.map (·.id)).Nodup
  numbered : ∀ job ∈ scheduler.active, job.id < scheduler.nextJob
  slots : (scheduler.active.map (·.index)).Nodup
  entries : (scheduler.queue.map (·.index)).Nodup
  apart : ∀ job ∈ scheduler.active, ∀ entry ∈ scheduler.queue, entry.index ≠ job.index

/-- A cache and the scheduler that renders its chunks. -/
structure InOrder (cache : Cache τ) (scheduler : Scheduler τ ω ρ) : Prop where
  chunks : cache.Orderly
  jobs : scheduler.Orderly
  made : ∀ job ∈ scheduler.active, job.chunk.serial < cache.nextSerial
  /-- A job that still has its chunk finds it rendering. -/
  owned : ∀ job ∈ scheduler.active, ∀ chunk ∈ cache.chunks, chunk.serial = job.chunk.serial →
    chunk.status = .rendering ∧ chunk.index = job.index ∧ chunk.window = job.chunk.window
  /-- Where a job has lost its chunk, the one in its place waits. -/
  held : ∀ job ∈ scheduler.active, ∀ chunk ∈ cache.chunks, chunk.index = job.index →
    chunk.status = .rendering ∨ chunk.status = .error → chunk.serial = job.chunk.serial

namespace Scheduler.Orderly

variable {scheduler : Scheduler τ ω ρ}

theorem eq_of_id (orderly : scheduler.Orderly) {a b : Job τ ω ρ} (ha : a ∈ scheduler.active)
    (hb : b ∈ scheduler.active) (h : a.id = b.id) : a = b :=
  List.inj_on_of_nodup_map orderly.ids ha hb h

theorem eq_of_index (orderly : scheduler.Orderly) {a b : Job τ ω ρ} (ha : a ∈ scheduler.active)
    (hb : b ∈ scheduler.active) (h : a.index = b.index) : a = b :=
  List.inj_on_of_nodup_map orderly.slots ha hb h

/-- A job that leaves takes its place along. -/
theorem index_ne_of_dropJob (orderly : scheduler.Orderly) {job other : Job τ ω ρ}
    (hjob : job ∈ scheduler.active) (hother : other ∈ (scheduler.dropJob job.id).active) :
    other.index ≠ job.index := by
  intro place
  obtain ⟨hother, differ⟩ := List.mem_filter.mp hother
  have same := orderly.eq_of_index hother hjob place
  exact absurd (congrArg Job.id same) (by simpa using differ)

end Scheduler.Orderly

theorem Scheduler.mem_addJob {scheduler : Scheduler τ ω ρ} {chunk : Chunk τ} {job : Job τ ω ρ} :
    job ∈ (scheduler.addJob chunk).active ↔
      job ∈ scheduler.active ∨ job = { id := scheduler.nextJob, chunk } := by
  simp [addJob]

/-- The first entry of the queue gives way to a job for its place. -/
theorem Scheduler.Orderly.begin {scheduler : Scheduler τ ω ρ} (orderly : scheduler.Orderly)
    {entry : QueueEntry} {rest : RenderQueue} (queue : scheduler.queue = entry :: rest)
    {chunk : Chunk τ} (place : (chunk.index : Int) = entry.index) :
    Scheduler.Orderly { scheduler.addJob chunk with queue := rest } := by
  have entries := orderly.entries
  rw [queue, List.map_cons, List.nodup_cons] at entries
  refine ⟨?_, fun job hjob => ?_, ?_, entries.2, fun job hjob other hother => ?_⟩
  · rw [addJob, List.map_append, List.nodup_append]
    refine ⟨orderly.ids, by simp, fun a ha b hb => ?_⟩
    obtain ⟨job, hjob, rfl⟩ := List.mem_map.mp ha
    have := orderly.numbered job hjob
    simp at hb
    omega
  · rcases mem_addJob.mp hjob with hjob | rfl
    · exact Nat.lt_succ_of_lt (orderly.numbered job hjob)
    · exact Nat.lt_succ_self _
  · rw [addJob, List.map_append, List.nodup_append]
    refine ⟨orderly.slots, by simp, fun a ha b hb => ?_⟩
    obtain ⟨job, hjob, rfl⟩ := List.mem_map.mp ha
    obtain rfl : b = chunk.index := by simpa [Job.index] using hb
    intro same
    exact orderly.apart job hjob entry (queue ▸ List.mem_cons_self) (by rw [← place, same])
  · rcases mem_addJob.mp hjob with hjob | rfl
    · exact orderly.apart job hjob other (queue ▸ List.mem_cons_of_mem _ hother)
    · intro same
      exact entries.1 (List.mem_map.mpr ⟨other, hother, same.trans place⟩)

theorem Scheduler.dropJob_sublist (scheduler : Scheduler τ ω ρ) (id : Nat) :
    (scheduler.dropJob id).active.Sublist scheduler.active :=
  List.filter_sublist

namespace InOrder

variable {before after cache : Cache τ} {scheduler other : Scheduler τ ω ρ}

/-- An error is not in a place that a job holds. -/
theorem not_held (h : InOrder cache scheduler) {job : Job τ ω ρ} (hjob : job ∈ scheduler.active)
    {chunk : Chunk τ} (hchunk : chunk ∈ cache.chunks) (failed : chunk.status = .error) :
    chunk.index ≠ job.index := by
  intro place
  have same := h.held job hjob chunk hchunk place (.inr failed)
  simp [(h.owned job hjob chunk hchunk same).1] at failed

/-- What a recut keeps of the chunks that render or failed, it keeps as it is. -/
theorem recut (h : InOrder before scheduler) (recut : before.Recut after) :
    InOrder after scheduler where
  chunks := recut.orderly h.chunks
  jobs := h.jobs
  made job hjob := Nat.lt_of_lt_of_le (h.made job hjob) recut.nextSerial
  owned job hjob chunk hchunk same := by
    rcases recut.chunks chunk hchunk with ⟨old, hold, demoted⟩ | new
    · obtain ⟨busy, place, window⟩ := h.owned job hjob old hold (demoted.serial ▸ same)
      exact ⟨demoted.rendering_iff.mpr busy, demoted.index.trans place,
        demoted.window.trans window⟩
    · have := new.serial_le
      have := h.made job hjob
      omega
  held job hjob chunk hchunk place status := by
    rcases recut.chunks chunk hchunk with ⟨old, hold, demoted⟩ | new
    · have settled : chunk.status.needsRender = false := by
        rcases status with h | h <;> simp [h, ChunkState.needsRender]
      rw [demoted.serial]
      refine h.held job hjob old hold (demoted.index ▸ place) ?_
      rwa [← demoted.status_eq settled]
    · rcases new.status with h | h <;> simp [h] at status

/-- The end of a render whose job has left its place. -/
theorem concludes (h : InOrder before scheduler) {index : Int}
    {leads : Chunk τ → Chunk τ → Prop} (ends : before.Concludes after index leads)
    (free : ∀ job ∈ scheduler.active, (job.index : Int) ≠ index) : InOrder after scheduler := by
  have orderly := h.chunks.concludes ends
  rcases ends with rfl | ⟨old, new, hget, concluded, -, rfl⟩
  · exact h
  · have hold := Cache.mem_of_get hget
    have away : ∀ job ∈ scheduler.active, new.index ≠ job.index := fun job hjob place =>
      free job hjob (by rw [← h.chunks.index_of_get hget, ← concluded.index, place])
    refine ⟨orderly, h.jobs, h.made, fun job hjob chunk hchunk same => ?_,
      fun job hjob chunk hchunk place status => ?_⟩
    · rcases (Cache.mem_put hold concluded.serial).mp hchunk with rfl | ⟨hchunk, -⟩
      · have := (h.owned job hjob old hold (concluded.serial ▸ same)).2.1
        exact absurd (concluded.index.trans this) (away job hjob)
      · exact h.owned job hjob chunk hchunk same
    · rcases (Cache.mem_put hold concluded.serial).mp hchunk with rfl | ⟨hchunk, -⟩
      · exact absurd place (away job hjob)
      · exact h.held job hjob chunk hchunk place status

/-! ### Changes of the scheduler -/

/-- Neither what is due nor whether others may go on matters. -/
theorem of_eq (h : InOrder cache scheduler) (active : other.active = scheduler.active)
    (queue : other.queue = scheduler.queue) (nextJob : other.nextJob = scheduler.nextJob) :
    InOrder cache other := by
  refine ⟨h.chunks, ⟨?_, ?_, ?_, ?_, ?_⟩, ?_, ?_, ?_⟩ <;> simp only [active, queue, nextJob]
  exacts [h.jobs.ids, h.jobs.numbered, h.jobs.slots, h.jobs.entries,
    h.jobs.apart, h.made, h.owned, h.held]

/-- Nor does anything of the cache but its chunks. -/
theorem of_cache (h : InOrder cache scheduler) (chunks : after.chunks = cache.chunks)
    (nextSerial : after.nextSerial = cache.nextSerial) : InOrder after scheduler := by
  refine ⟨⟨?_, ?_, ?_, ?_⟩, h.jobs, ?_, ?_, ?_⟩ <;> simp only [chunks, nextSerial]
  exacts [h.chunks.placed, h.chunks.distinct, h.chunks.numbered, h.chunks.begun, h.made, h.owned,
    h.held]

/-- A queue whose entries are apart from each other and from the jobs. -/
theorem requeue (h : InOrder cache scheduler) {queue : RenderQueue}
    (entries : (queue.map (·.index)).Nodup)
    (apart : ∀ job ∈ scheduler.active, ∀ entry ∈ queue, entry.index ≠ job.index) :
    InOrder cache { scheduler with queue } :=
  ⟨h.chunks, ⟨h.jobs.ids, h.jobs.numbered, h.jobs.slots, entries, apart⟩,
    h.made, h.owned, h.held⟩

/-- Entries that leave the queue. -/
theorem dequeue (h : InOrder cache scheduler) {queue : RenderQueue}
    (sub : queue.Sublist scheduler.queue) : InOrder cache { scheduler with queue } :=
  h.requeue (h.jobs.entries.sublist (sub.map _)) fun job hjob entry hentry =>
    h.jobs.apart job hjob entry (sub.subset hentry)

/-- Jobs that leave their places. -/
theorem release (h : InOrder cache scheduler) {active : List (Job τ ω ρ)}
    (sub : active.Sublist scheduler.active) : InOrder cache { scheduler with active } :=
  ⟨h.chunks,
    ⟨h.jobs.ids.sublist (sub.map _), fun job hjob => h.jobs.numbered job (sub.subset hjob),
      h.jobs.slots.sublist (sub.map _), h.jobs.entries,
      fun job hjob => h.jobs.apart job (sub.subset hjob)⟩,
    fun job hjob => h.made job (sub.subset hjob), fun job hjob => h.owned job (sub.subset hjob),
    fun job hjob => h.held job (sub.subset hjob)⟩

/-- Jobs that go on. -/
theorem map (h : InOrder cache scheduler) {next : Job τ ω ρ → Job τ ω ρ}
    (same : ∀ job ∈ scheduler.active, (next job).id = job.id ∧ (next job).chunk = job.chunk) :
    InOrder cache { scheduler with active := scheduler.active.map next } := by
  have maps {α : Type} (f : Job τ ω ρ → α) (hf : ∀ job ∈ scheduler.active, f (next job) = f job) :
      (scheduler.active.map next).map f = scheduler.active.map f := by
    rw [List.map_map]
    exact List.map_congr_left hf
  have index : ∀ job ∈ scheduler.active, (next job).index = job.index := fun job hjob =>
    congrArg Chunk.index (same job hjob).2
  refine ⟨h.chunks, ⟨?_, ?_, ?_, h.jobs.entries, ?_⟩, ?_, ?_, ?_⟩
  · rw [maps (·.id) fun job hjob => (same job hjob).1]
    exact h.jobs.ids
  rotate_left
  · rw [maps (·.index) index]
    exact h.jobs.slots
  all_goals
    intro other hother
    obtain ⟨job, hjob, rfl⟩ := List.mem_map.mp hother
  · rw [index job hjob]
    exact h.jobs.apart job hjob
  · rw [(same job hjob).2]
    exact h.made job hjob
  · rw [index job hjob, (same job hjob).2]
    exact h.owned job hjob
  · rw [index job hjob, (same job hjob).2]
    exact h.held job hjob
  · rw [(same job hjob).1]
    exact h.jobs.numbered job hjob

/-- A job that goes on. -/
theorem putJob (h : InOrder cache scheduler) {job next : Job τ ω ρ} (hjob : job ∈ scheduler.active)
    (id : next.id = job.id) (chunk : next.chunk = job.chunk) :
    InOrder cache (scheduler.putJob next) := by
  refine h.map fun other hother => ?_
  split
  · next hid =>
    obtain rfl := h.jobs.eq_of_id hother hjob (hid.trans id)
    exact ⟨id, chunk⟩
  · exact ⟨rfl, rfl⟩

/-- A job for a chunk whose place is free. -/
theorem begin (h : InOrder cache scheduler) {entry : QueueEntry} {rest : RenderQueue}
    (queue : scheduler.queue = entry :: rest) {chunk : Chunk τ}
    (hget : cache.get entry.index = .ok chunk) :
    InOrder (cache.put (Cache.beginRender chunk))
      { scheduler.addJob chunk with queue := rest } := by
  have hchunk := Cache.mem_of_get hget
  have place := h.chunks.index_of_get hget
  have away : ∀ job ∈ scheduler.active, chunk.index ≠ job.index := fun job hjob same =>
    h.jobs.apart job hjob entry (queue ▸ List.mem_cons_self) (by rw [← place, same])
  have serial : (Cache.beginRender chunk).serial = chunk.serial := rfl
  refine ⟨h.chunks.put hchunk rfl rfl fun g hg => ?_, h.jobs.begin queue place, fun job hjob => ?_,
    fun job hjob other hother same => ?_, fun job hjob other hother at' status => ?_⟩
  · exact Nat.le_of_eq (Option.some.inj hg).symm
  · rcases Scheduler.mem_addJob.mp hjob with hjob | rfl
    · exact h.made job hjob
    · exact h.chunks.numbered chunk hchunk
  -- The chunk that begins belongs to the new job, and every other chunk to a job from before.
  · rcases (Cache.mem_put hchunk serial).mp hother with rfl | ⟨hother, differ⟩ <;>
      rcases Scheduler.mem_addJob.mp hjob with hjob | rfl
    · exact absurd (h.owned job hjob chunk hchunk same).2.1 (away job hjob)
    · exact ⟨rfl, rfl, rfl⟩
    · exact h.owned job hjob other hother same
    · exact absurd same differ
  · rcases (Cache.mem_put hchunk serial).mp hother with rfl | ⟨hother, differ⟩ <;>
      rcases Scheduler.mem_addJob.mp hjob with hjob | rfl
    · exact absurd at' (away job hjob)
    · rfl
    · exact h.held job hjob other hother at' status
    · exact congrArg Chunk.serial (h.chunks.eq_of_index hother hchunk at')

end InOrder

end Montage
