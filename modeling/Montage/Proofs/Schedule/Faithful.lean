import Montage.Proofs.Schedule.Admission

/-!
# What is rendered is what was asked for

A statement about what valid chunks show goes through a run in two halves: it holds of what is
valid, and it will hold of what a worker is about to make valid, unless the chunk is invalidated
first. `Faithful` is this pair for any statement; every step of a scheduler and every recut of a
cache keeps it.
-/

namespace Montage

variable {τ ω ρ : Type}

/-- What holds of valid chunks, and of the chunks of workers that will make them valid. -/
structure Faithful (shown : Chunk τ → Prop) (awaited : Job τ ω ρ → ω → Chunk τ → Prop)
    (scheduler : Scheduler τ ω ρ) (cache : Cache τ) : Prop where
  shown : ∀ chunk ∈ cache.chunks, chunk.status = .valid → shown chunk
  awaited : ∀ job ∈ scheduler.active, ∀ chunk ∈ cache.chunks, chunk.serial = job.chunk.serial →
    chunk.renderGeneration = some chunk.generation → ∀ kept, job.kept? = some kept →
    awaited job kept chunk

/-- Statements about a chunk that depend on nothing but its number, its window and the hash of what
was rendered, and statements about its render that depend on its number and window only. -/
structure Lasting (shown : Chunk τ → Prop) (awaited : Job τ ω ρ → ω → Chunk τ → Prop) : Prop where
  shown : ∀ before after : Chunk τ, before.Demoted after → after.status = .valid →
    shown before → shown after
  awaited : ∀ job kept (before after : Chunk τ), before.Demoted after →
    awaited job kept before → awaited job kept after

namespace Faithful

variable {shown : Chunk τ → Prop} {awaited : Job τ ω ρ → ω → Chunk τ → Prop}
  {scheduler : Scheduler τ ω ρ} {before after : Cache τ}

/-- A chunk that is begun anew is not valid, and its worker has not begun. -/
theorem admits : Admits (Faithful (ρ := ρ) shown awaited) where
  idle _ _ _ h := ⟨h.shown, h.awaited⟩
  skip _ _ _ _ _ _ h _ := ⟨h.shown, h.awaited⟩
  enqueue _ _ _ h := ⟨h.shown, h.awaited⟩
  begin entry rest scheduler cache chunk order queue _ h hget waits := by
    have hchunk := Cache.mem_of_get hget
    have serial : (Cache.beginRender chunk).serial = chunk.serial := rfl
    refine ⟨fun other hother valid => ?_, fun job hjob other hother same fresh kept hkept => ?_⟩
    · rcases (Cache.mem_put hchunk serial).mp hother with rfl | ⟨hother, -⟩
      · exact absurd valid (by simp [Cache.beginRender])
      · exact h.shown other hother valid
    · rcases List.mem_append.mp hjob with hjob | hjob
      · rcases (Cache.mem_put hchunk serial).mp hother with rfl | ⟨hother, -⟩
        · -- The place of the chunk had no job.
          have place := (order.owned job hjob chunk hchunk same).2.1
          refine absurd ?_ (order.jobs.apart job hjob entry (queue ▸ List.mem_cons_self))
          rw [← order.chunks.index_of_get hget, place]
        · exact h.awaited job hjob other hother same fresh kept hkept
      · obtain rfl := List.mem_singleton.mp hjob
        exact absurd hkept (by simp [Job.kept?])

/-- A chunk that is still fresh after a demotion was fresh before. -/
theorem fresh_of_demoted {cache : Cache τ} (orderly : cache.Orderly) {old chunk : Chunk τ}
    (hold : old ∈ cache.chunks) (demoted : old.Demoted chunk)
    (fresh : chunk.renderGeneration = some chunk.generation) :
    old.renderGeneration = some old.generation ∧ chunk.generation = old.generation := by
  have begun := orderly.begun old hold chunk.generation (demoted.renderGeneration ▸ fresh)
  have same := Nat.le_antisymm begun demoted.generation
  exact ⟨by rw [← demoted.renderGeneration, fresh, same], same⟩

/-- Demotion takes nothing back that is stated. What was found on disk has to be looked at. -/
theorem recut (h : Faithful shown awaited scheduler before) (lasting : Lasting shown awaited)
    (order : InOrder before scheduler) (recut : before.Recut after)
    (found : ∀ chunk ∈ after.chunks, Cache.IsNew before.nextSerial chunk →
      chunk.status = .valid → shown chunk) : Faithful shown awaited scheduler after where
  shown chunk hchunk valid := by
    rcases recut.chunks chunk hchunk with ⟨old, hold, demoted⟩ | new
    · have valid' : old.status = .valid := by
        rw [← demoted.status_eq (by rw [valid]; rfl), valid]
      exact lasting.shown old chunk demoted valid (h.shown old hold valid')
    · exact found chunk hchunk new valid
  awaited job hjob chunk hchunk same fresh kept hkept := by
    rcases recut.chunks chunk hchunk with ⟨old, hold, demoted⟩ | new
    · refine lasting.awaited job kept old chunk demoted
        (h.awaited job hjob old hold (demoted.serial ▸ same) ?_ kept hkept)
      exact (fresh_of_demoted order.chunks hold demoted fresh).1
    · have := new.serial_le
      have := order.made job hjob
      omega

/-- Demotion alone takes nothing back that is stated. -/
theorem demotes (h : Faithful shown awaited scheduler before) (lasting : Lasting shown awaited)
    (order : InOrder before scheduler) (demotes : before.Demotes after) :
    Faithful shown awaited scheduler after :=
  h.recut lasting order demotes.toRecut fun _ hchunk new =>
    absurd new (demotes.not_isNew order.chunks hchunk)

theorem mono (h : Faithful shown awaited scheduler before) {shown' : Chunk τ → Prop}
    {awaited' : Job τ ω ρ → ω → Chunk τ → Prop} (hs : ∀ chunk, shown chunk → shown' chunk)
    (ha : ∀ job kept chunk, awaited job kept chunk → awaited' job kept chunk) :
    Faithful shown' awaited' scheduler before :=
  ⟨fun chunk hchunk valid => hs chunk (h.shown chunk hchunk valid),
    fun job hjob chunk hchunk same fresh kept hkept =>
      ha job kept chunk (h.awaited job hjob chunk hchunk same fresh kept hkept)⟩

/-- Where nothing is valid and all that renders is outdated, anything can be stated. -/
theorem of_outdated (order : InOrder before scheduler)
    (outdated : List.Forall₂ (fun old chunk => Chunk.Demoted old chunk ∧ Chunk.Outdated old chunk)
      before.chunks after.chunks) : Faithful shown awaited scheduler after where
  shown chunk hchunk valid := by
    obtain ⟨old, -, -, outdated⟩ := forall₂_mem outdated hchunk
    exact absurd valid outdated.status
  awaited job hjob chunk hchunk same fresh kept hkept := by
    obtain ⟨old, hold, demoted, outdated⟩ := forall₂_mem outdated hchunk
    have busy := (order.owned job hjob old hold (demoted.serial ▸ same)).1
    have := outdated.generation busy
    have := (fresh_of_demoted order.chunks hold demoted fresh).2
    omega

/-- The end of a render whose job has left its place. -/
theorem concludes (h : Faithful shown awaited scheduler before) (order : InOrder before scheduler)
    {index : Int} {leads : Chunk τ → Chunk τ → Prop} (ends : before.Concludes after index leads)
    (free : ∀ job ∈ scheduler.active, (job.index : Int) ≠ index)
    (made : ∀ old ∈ before.chunks, ∀ new, old.Concluded new → leads old new →
      (old.index : Int) = index → new.status = .valid → shown new) :
    Faithful shown awaited scheduler after := by
  rcases ends with rfl | ⟨old, new, hget, concluded, led, rfl⟩
  · exact h
  · have hold := Cache.mem_of_get hget
    have place := order.chunks.index_of_get hget
    refine ⟨fun chunk hchunk valid => ?_, fun job hjob chunk hchunk same fresh kept hkept => ?_⟩
    · rcases (Cache.mem_put hold concluded.serial).mp hchunk with rfl | ⟨hchunk, -⟩
      · exact made old hold chunk concluded led place valid
      · exact h.shown chunk hchunk valid
    · rcases (Cache.mem_put hold concluded.serial).mp hchunk with rfl | ⟨hchunk, -⟩
      · have owned := (order.owned job hjob old hold (concluded.serial ▸ same)).2.1
        exact absurd (by rw [← place, owned]) (free job hjob)
      · exact h.awaited job hjob chunk hchunk same fresh kept hkept

/-- Jobs that leave their places, and what is due. -/
theorem of_subset (h : Faithful shown awaited scheduler before) {other : Scheduler τ ω ρ}
    (sub : ∀ job ∈ other.active, job.kept? ≠ none → job ∈ scheduler.active) :
    Faithful shown awaited other before :=
  ⟨h.shown, fun job hjob chunk hchunk same fresh kept hkept =>
    h.awaited job (sub job hjob (by simp [hkept])) chunk hchunk same fresh kept hkept⟩

/-- A job that goes on, with what is to be stated about it. -/
theorem putJob (h : Faithful shown awaited scheduler before) (next : Job τ ω ρ)
    (begun : ∀ chunk ∈ before.chunks, chunk.serial = next.chunk.serial →
      chunk.renderGeneration = some chunk.generation → ∀ kept, next.kept? = some kept →
      awaited next kept chunk) :
    Faithful shown awaited (scheduler.putJob next) before := by
  refine ⟨h.shown, fun job hjob => ?_⟩
  obtain ⟨other, hother, rfl⟩ := List.mem_map.mp hjob
  split
  · exact begun
  · exact h.awaited other hother

end Faithful

end Montage
