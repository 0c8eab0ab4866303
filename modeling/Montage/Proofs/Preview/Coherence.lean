import Montage.Proofs.Preview.Edit
import Montage.Proofs.Preview.Work

/-!
# Coherence of the preview

Every event keeps the invariant of a session, so it holds in every state that a session reaches. What
is valid then shows what is to be shown now, and was composed for the output that is wanted now. Two
things can stand in the way: a call that fails when the new contents are in place already but were
not looked at, and a window without length, which no invalidation meets.

## Main results

* `Studio.Coherent.next` — an event keeps the invariant
* `Run.coherent` — the invariant holds in every state that a session reaches
* `Run.valid_shows_current` — what is valid shows what is to be shown now
* `exists_valid_outdated` — an edit that fails leaves chunks valid that are outdated
-/

namespace Montage

open SessionAction

variable {answers : PathExists} {allowed : Studio → SessionEvent → Prop} {first studio : Studio}
  {log : Chronicle}

/-! ### One event -/

/-- The result of an action is dropped. -/
theorem Ensures.dropped {σ α : Type} {action : EStateM Failure σ α} {state : σ}
    {returned failed : σ → Prop} (h : Ensures action state (fun _ => returned) failed) :
    Ensures (do let _ ← action) state (fun _ => returned) failed :=
  ensures_map.mpr h

/-- Every event keeps the invariant. -/
theorem Studio.Coherent.next (h : studio.Coherent answers log) (steady : Steady answers studio)
    (event : SessionEvent) (along : ∀ state ∈ event.passes studio, Steady answers state) :
    Studio.Coherent answers (log.next event studio) (leaves event.action studio) := by
  cases event with
  | openProject timeline media path time =>
    have spec : Ensures (SessionEvent.openProject timeline media path time).action studio
        (fun _ next => Studio.Coherent answers { log with behind := false } next)
        (fun next => Studio.Coherent answers { log with behind := true } next) :=
      openProject_spec h timeline media path time along
    unfold Chronicle.next
    dsimp only
    rcases spec.ends with ⟨returned, hnext⟩ | ⟨failed, hnext⟩
    · rw [if_pos returned]
      exact hnext.of_log id id rfl rfl
    · rw [if_neg (by simp [failed])]
      exact hnext
  | update timeline media settings =>
    have spec : Ensures (SessionEvent.update timeline media settings).action studio
        (fun _ next => Studio.Coherent answers { log with behind := false } next)
        (fun next => Studio.Coherent answers
          { log with behind := true, unsettled := log.unsettled || !Chronicle.takesIn studio settings }
          next) :=
      (update_spec h timeline media settings along).dropped
    unfold Chronicle.next
    dsimp only
    rcases spec.ends with ⟨returned, hnext⟩ | ⟨failed, hnext⟩
    · rw [if_pos returned]
      exact hnext.of_log id id rfl rfl
    · rw [if_neg (by simp [failed])]
      exact hnext
  | invalidate start stop =>
    have hnext := (keeps_invalidate start stop studio h).dropped.leaves
    unfold Chronicle.next
    dsimp only
    split
    · exact hnext.of_log id id rfl rfl
    · exact hnext
  | prioritize t radius =>
    exact (keeps_prioritizeNear keeps_queue keeps_setUrgency t radius studio h).dropped.leaves
  | cancel index =>
    exact (Coherent.indifferent.keeps_requestCancel keeps_pump index studio h).dropped.leaves
  | stopAll => exact (Coherent.indifferent.keeps_requestStopAll studio h).dropped.leaves
  | finishCancel => exact (Coherent.indifferent.keeps_finishCancel keeps_pump).leaves h
  | wipe => exact keeps_wipe.leaves h
  | answer job reply =>
    rw [SessionEvent.answer_eq]
    exact (Coherent.indifferent.keeps_deliver job reply).leaves h
  | hurry place => exact (Coherent.indifferent.keeps_hurry place).leaves h
  | work => exact (runNext_spec h steady).leaves

/-! ### All runs -/

/-- A session without chunks and jobs has nothing that could be wrong. -/
theorem Studio.IsNew.coherent (new : first.IsNew) : first.Coherent answers {} := by
  have noChunk {chunk : Chunk Double} (h : chunk ∈ first.store.cache.chunks) : False := by
    simp [new.chunks] at h
  have noJob {job : RenderJob} (h : job ∈ first.scheduler.active) : False := by
    simp [new.active] at h
  refine ⟨⟨⟨?_, ?_, fun _ h => (noChunk h).elim, fun _ h => (noChunk h).elim⟩,
    ⟨?_, fun _ h => (noJob h).elim, ?_, ?_, fun _ h => (noJob h).elim⟩,
    fun _ h => (noJob h).elim, fun _ h => (noJob h).elim, fun _ h => (noJob h).elim⟩, ?_⟩
  · simp [new.chunks]
  · simp [new.chunks]
  · simp [new.active]
  · simp [new.active]
  · simp [new.queue]
  · refine ⟨⟨?_, fun _ h => (noJob h).elim⟩, new.settings, ?_,
      fun _ => ⟨fun _ h => (noChunk h).elim, fun _ h => (noJob h).elim⟩,
      fun _ => ⟨fun _ h => (noChunk h).elim, fun _ h => (noJob h).elim⟩⟩
    · simp [new.inFlight]
    · simp

theorem Studio.IsNew.steady (new : first.IsNew) : Steady answers first := by
  intro key item h
  simp [new.media] at h

/-- The invariant holds in every state that a session reaches. -/
theorem Run.coherent (new : first.IsNew) (run : Run answers allowed first studio log) :
    studio.Coherent answers log ∧ Steady answers studio := by
  induction run with
  | start => exact ⟨new.coherent, new.steady⟩
  | step event _ _ along steady ih => exact ⟨ih.1.next ih.2 event along, steady⟩

/-- What is valid shows what is to be shown now, if its window has a length and the last call that
was to show another timeline did not fail. If it was rendered since the session began, then from a
composition for the output that is wanted now, unless a call that brought settings failed. -/
theorem Run.valid_shows_current (new : first.IsNew) (run : Run answers allowed first studio log)
    {chunk : Chunk Double} (hchunk : chunk ∈ studio.store.cache.chunks)
    (valid : chunk.status = .valid) :
    (log.behind = false → chunk.start < chunk.stop →
      chunk.contentHash = some (studio.hashOf chunk)) ∧
    (log.unsettled = false → ∀ note, log.notes chunk.serial = some note →
      ∃ moment, note.start = some moment ∧ moment.Suits studio.shared chunk.window) := by
  obtain ⟨h, steady⟩ := run.coherent new
  refine ⟨fun known length => ?_, fun known => (h.sound.output known).shown chunk hchunk valid⟩
  rw [steady.hashOf]
  exact (h.sound.content known).shown chunk hchunk valid length

/-! ### A session with one clip -/

namespace OneClip

/-- A clip of half a second. -/
def clip : Clip Double where
  id := "clip"
  mediaId := some "film"
  trackId := "track"
  start := 0
  duration := Double.ofRatio false 1 2
  mediaIn := 0
  mediaOut := 1
  times_nonneg := by decide +kernel

/-- The clip with its source read from three seconds on. -/
def movedClip : Clip Double := { clip with mediaIn := 3, times_nonneg := by decide +kernel }

/-- A clip so late that there are more windows before its end than can be counted. -/
def lateClip : Clip Double :=
  { clip with start := Double.ofRatio false (17 * 10 ^ 307) 1, times_nonneg := by decide +kernel }

def timeline (clips : List (Clip Double)) : Timeline Double :=
  { tracks := [{ id := "track", kind := .video, clips, volume := 1 }] }

def media : MediaLibrary := [("film", { id := "film", type := .video, path := "/media/film.mp4" })]

/-- The day on which the session begins. -/
def day : Timestamp := { year := 2024, month := 1, day := 1, hour := 0, minute := 0, second := 0 }

/-- A session that renders windows of half a second one by one. -/
def opened : Studio where
  store := {
    cache := {
      folder := Path.ofText "cache", chunkDuration := Double.ofRatio false 1 2, settings := {}
      totalDuration := 0, createdAt := day }
    disk := { now := day } }
  scheduler := { limit := 1 }
  shared := { settings := {}, encoderPath := "ffmpeg", prefetchRadius := 3 }

theorem opened_isNew : opened.IsNew := ⟨rfl, rfl, rfl, rfl, rfl, rfl⟩

/-- The clip is opened, its chunk begins to be rendered, and the encoder does it. -/
def rendering : List SessionEvent := [
  .openProject (timeline [clip]) media none none,
  .work,
  .answer 0 { result := .ok { success := true, exitCode := some 0 }, content := some [1] },
  .work]

/-- The clip is shown as it was rendered. -/
def isRendered (studio : Studio) (log : Chronicle) : Bool :=
  !log.behind && !log.unsettled && studio.store.cache.chunks.any fun chunk =>
    chunk.status = .valid && chunk.start < chunk.stop && (log.notes chunk.serial).isSome

/-- All clips have an end, and a chunk is valid that shows something else than it is to show. -/
def isOutdated (studio : Studio) (_ : Chronicle) : Bool :=
  (studio.shared.timeline.clips.all fun clip => clip.start.isFinite && clip.stop.isFinite) &&
    studio.store.cache.chunks.any fun chunk => chunk.status = .valid &&
      chunk.start < chunk.stop && chunk.contentHash ≠ some (studio.hashOf chunk)

end OneClip

/-- A clip that was opened and rendered is shown. -/
theorem rendered_clip_is_shown :
    ∃ studio log chunk, Run (fun _ => false) (fun _ _ => True) OneClip.opened studio log ∧
      chunk ∈ studio.store.cache.chunks ∧ chunk.status = .valid ∧
      chunk.contentHash = some (studio.hashOf chunk) ∧
      ∃ note moment, log.notes chunk.serial = some note ∧ note.start = some moment ∧
        moment.Suits studio.shared chunk.window := by
  have reached : ∃ studio log, Run (fun _ => false) (fun _ _ => True) OneClip.opened studio log ∧
      OneClip.isRendered studio log = true :=
    Run.exists_of_follow OneClip.rendering (by decide +kernel)
  obtain ⟨studio, log, run, rendered⟩ := reached
  simp only [OneClip.isRendered, Bool.and_eq_true, Bool.not_eq_true', List.any_eq_true,
    decide_eq_true_eq, Option.isSome_iff_exists] at rendered
  obtain ⟨⟨behind, unsettled⟩, chunk, hchunk, ⟨valid, length⟩, note, hnote⟩ := rendered
  have shown := run.valid_shows_current OneClip.opened_isNew hchunk valid
  obtain ⟨moment, hmoment, suits⟩ := shown.2 unsettled note hnote
  exact ⟨studio, log, chunk, run, hchunk, valid, shown.1 behind length, note, moment, hnote,
    hmoment, suits⟩

/-- When a clip is moved and another is put where there are too many windows before its end, the call
fails after the new timeline is in place: the chunk stays valid and shows the old one. -/
theorem exists_valid_outdated :
    ∃ studio log chunk, Run (fun _ => false) (fun _ _ => True) OneClip.opened studio log ∧
      (∀ clip ∈ studio.shared.timeline.clips, clip.start.isFinite ∧ clip.stop.isFinite) ∧
      chunk ∈ studio.store.cache.chunks ∧ chunk.status = .valid ∧ chunk.start < chunk.stop ∧
      chunk.contentHash ≠ some (studio.hashOf chunk) := by
  have reached : ∃ studio log, Run (fun _ => false) (fun _ _ => True) OneClip.opened studio log ∧
      OneClip.isOutdated studio log = true :=
    Run.exists_of_follow (OneClip.rendering ++
      [.update (OneClip.timeline [OneClip.movedClip, OneClip.lateClip]) none none])
      (by decide +kernel)
  obtain ⟨studio, log, run, outdated⟩ := reached
  simp only [OneClip.isOutdated, List.all_eq_true, List.any_eq_true, Bool.and_eq_true,
    decide_eq_true_eq] at outdated
  obtain ⟨ends, chunk, hchunk, ⟨valid, length⟩, differ⟩ := outdated
  exact ⟨studio, log, chunk, run, ends, hchunk, valid, length, differ⟩

end Montage
