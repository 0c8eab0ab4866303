import Montage.Proofs.Chunk.Effect
import Montage.Proofs.Preview.Playhead

/-!
# What an edit tells

An edit sends chunks back to be rendered: those with a window that was not there before, and those that
were valid and are not any more. It tells which chunks wait for a render when all of them were queued.
By then some of them have got a job, and these it does not tell.

## Main definitions

* `Cache.Renews` — the chunks of a cache were demoted at most, or are new and wait for a render
* `Chunk.SentBack` — a chunk has a new window, or was valid and is not any more
* `Starts` — some of the chunks that wait got a job, and nothing else changed

## Main results

* `Cache.Renews.waits` — what is sent back waits for a render before it is queued
* `Ledger.Reaches.update_tells` — which of the chunks that are sent back an edit tells
* `exists_sent_back_untold` — a chunk that was valid is rendered anew, and the edit tells none
-/

namespace Montage

open SessionAction

/-! ### New and old chunks -/

/-- Every chunk was there before and was demoted at most, or is new and waits for a render. -/
structure Cache.Renews {τ : Type} (before after : Cache τ) : Prop where
  nextSerial : before.nextSerial ≤ after.nextSerial
  chunks : ∀ chunk ∈ after.chunks, (∃ old ∈ before.chunks, old.Demoted chunk) ∨
    before.nextSerial ≤ chunk.serial ∧ chunk.status.needsRender = true

/-- A chunk whose window was not there before, or that was valid and is not any more. -/
def Chunk.SentBack {τ : Type} (before : Cache τ) (chunk : Chunk τ) : Prop :=
  (∀ old ∈ before.chunks, old.window ≠ chunk.window) ∨
    ∃ old ∈ before.chunks, old.serial = chunk.serial ∧ old.status = .valid ∧ chunk.status ≠ .valid

namespace Cache.Renews

section

variable {τ : Type} {before middle after : Cache τ}

protected theorem refl (cache : Cache τ) : cache.Renews cache :=
  ⟨Nat.le_refl _, fun chunk h => .inl ⟨chunk, h, .refl chunk⟩⟩

protected theorem trans (h : before.Renews middle) (h' : middle.Renews after) :
    before.Renews after where
  nextSerial := Nat.le_trans h.nextSerial h'.nextSerial
  chunks chunk hchunk := by
    rcases h'.chunks chunk hchunk with ⟨old, hold, demoted⟩ | ⟨new, waits⟩
    · rcases h.chunks old hold with ⟨first, hfirst, demoted'⟩ | ⟨new, waits⟩
      · exact .inl ⟨first, hfirst, demoted'.trans demoted⟩
      · refine .inr ⟨demoted.serial ▸ new, ?_⟩
        rcases demoted.status with same | ⟨-, waits'⟩
        · rwa [same]
        · exact waits'
    · exact .inr ⟨Nat.le_trans h.nextSerial new, waits⟩

theorem of_demotes (orderly : before.Orderly) (demotes : before.Demotes after) :
    before.Renews after where
  nextSerial := demotes.nextSerial
  chunks chunk hchunk :=
    .inl ((demotes.chunks chunk hchunk).resolve_right (demotes.not_isNew orderly hchunk))

/-- What is sent back waits for a render. -/
theorem waits (h : before.Renews after) (orderly : before.Orderly) {chunk : Chunk τ}
    (hchunk : chunk ∈ after.chunks) (sentBack : chunk.SentBack before) :
    chunk.status.needsRender = true := by
  rcases h.chunks chunk hchunk with ⟨old, hold, demoted⟩ | ⟨-, waits⟩
  · rcases sentBack with new | ⟨other, hother, serial, valid, invalid⟩
    · exact absurd demoted.window.symm (new old hold)
    · obtain rfl := orderly.eq_of_serial hother hold (serial.trans demoted.serial)
      rcases demoted.status with same | ⟨-, waits⟩
      · exact absurd (same.trans valid) invalid
      · exact waits
  · exact waits

end

/-- A new cut has old chunks and missing ones, also where it goes wrong. -/
theorem repartition (duration : Double) (state : CacheState Double) :
    Ensures (CacheAction.repartition duration) state
      (fun _ next => state.cache.Renews next.cache) (fun next => state.cache.Renews next.cache) := by
  have renews {next : CacheState Double} {failure? : Option Failure}
      (recut : state.cache.Recut next.cache)
      (effected : (CacheCall.change (.repartition duration)).Effected state failure? next) :
      state.cache.Renews next.cache := by
    refine ⟨recut.nextSerial, fun chunk hchunk => ?_⟩
    cases effected.effect with
    | keeps chunks => exact .inl ⟨chunk, chunks ▸ hchunk, .refl chunk⟩
    | cuts _ chunks =>
      rcases Cache.mem_arrange (chunks ▸ hchunk) with kept | ⟨-, missing, new⟩
      · exact .inl ⟨chunk, kept, .refl chunk⟩
      · exact .inr ⟨new.serial_le, by rw [missing]; rfl⟩
    | strips chunks =>
      obtain ⟨old, hold, same⟩ := forall₂_mem chunks hchunk
      rw [same]
      exact .inl ⟨old, hold, ⟨rfl, rfl, rfl, rfl, Nat.le_refl _, rfl⟩, .inl rfl, fun _ => rfl, rfl⟩
    | sweeps about => exact absurd about (by simp [CacheChange.meets?])
    | breaksOff about => exact absurd about (by simp [CacheChange.meets?])
  have spec := CacheAction.repartition_spec duration state
  have effect := CacheCall.hasEffect_repartition duration state
  unfold Ensures at spec ⊢
  unfold CacheCall.HasEffect Resolves at effect
  cases run : CacheAction.repartition duration state with
  | ok _ next =>
    rw [run] at spec effect
    exact renews spec effect
  | error _ next =>
    rw [run] at spec effect
    exact renews spec effect

end Cache.Renews

/-! ### Up to the queue -/

/-- A session in which nothing has happened to the jobs, and to the chunks nothing but that some were
demoted, dropped or replaced by new ones. -/
structure Studio.Renewed (before studio : Studio) : Prop where
  order : InOrder studio.store.cache studio.scheduler
  scheduler : studio.scheduler = before.scheduler
  renews : before.store.cache.Renews studio.store.cache

namespace Studio.Renewed

variable {before studio : Studio}

theorem of_demotes (h : before.Renewed studio) {store : CacheState Double}
    {settings : OutputFormat Double} (demotes : { studio.store.cache with settings }.Demotes store.cache) :
    before.Renewed { studio with store } := by
  have order : InOrder { studio.store.cache with settings } studio.scheduler := h.order.of_cache rfl rfl
  have same : studio.store.cache.Renews { studio.store.cache with settings } :=
    ⟨Nat.le_refl _, fun chunk hchunk => .inl ⟨chunk, hchunk, .refl chunk⟩⟩
  exact ⟨order.recut demotes.toRecut, h.scheduler,
    h.renews.trans (same.trans (.of_demotes order.chunks demotes))⟩

theorem survivesChanges : SurvivesChanges (Studio.Renewed before) where
  session _ _ h := ⟨h.order, h.scheduler, h.renews⟩
  invalidates meets studio h := WorkshopAction.ensures_onCache.mpr <|
    (CacheAction.invalidateWhere_spec meets studio.store).mono
      (fun _ _ hnext => h.of_demotes hnext.1) fun _ hnext => h.of_demotes hnext
  settles settings studio h := WorkshopAction.ensures_onCache.mpr <|
    (CacheAction.applySettings_spec settings studio.store).mono
      (fun _ _ hnext => h.of_demotes hnext.2.1) fun _ hnext => h.of_demotes hnext
  cuts duration studio h := WorkshopAction.ensures_onCache.mpr <|
    ((CacheAction.repartition_spec duration studio.store).and
      (Cache.Renews.repartition duration studio.store)).mono
      (fun _ _ hnext => ⟨h.order.recut hnext.1, h.scheduler, h.renews.trans hnext.2⟩)
      fun _ hnext => ⟨h.order.recut hnext.1, h.scheduler, h.renews.trans hnext.2⟩

end Studio.Renewed

/-! ### Queueing -/

/-- What becomes of a chunk of a session, if some jobs are started. -/
inductive Chunk.StartedBy (started : List RenderJob) (old : Chunk Double) : Chunk Double → Prop
  /-- There is no new job for its place. -/
  | stays (free : ∀ job ∈ started, job.index ≠ old.index) : StartedBy started old old
  | begins {chunk : Chunk Double} (serial : chunk.serial = old.serial) (index : chunk.index = old.index)
    (window : chunk.window = old.window) (invalid : old.status ≠ .valid)
    (busy : chunk.status = .rendering) {job : RenderJob} (hjob : job ∈ started)
    (here : job.index = old.index) : StartedBy started old chunk

/-- Jobs were started for some chunks that are not valid, as far as there are slots. -/
structure Starts (middle : Studio) (started : List RenderJob)
    (scheduler : Scheduler Double ChunkRender EncoderReply) (cache : Cache Double) : Prop where
  active : scheduler.active = middle.scheduler.active ++ started
  room : started = [] ∨ scheduler.active.length ≤ scheduler.limit
  chunks : ∀ chunk ∈ cache.chunks, ∃ old ∈ middle.store.cache.chunks, old.StartedBy started chunk

namespace Starts

variable {middle : Studio} {started : List RenderJob}
  {scheduler : Scheduler Double ChunkRender EncoderReply} {cache : Cache Double}

theorem first (middle : Studio) : Starts middle [] middle.scheduler middle.store.cache :=
  ⟨by simp, .inl rfl, fun chunk h => ⟨chunk, h, .stays (by simp)⟩⟩

theorem admits : Admits fun scheduler cache => ∃ started, Starts middle started scheduler cache where
  idle _ _ _ := fun ⟨started, h⟩ => ⟨started, h.active, h.room, h.chunks⟩
  skip _ _ _ _ _ _ := fun ⟨started, h⟩ _ => ⟨started, h.active, h.room, h.chunks⟩
  enqueue _ _ _ := fun ⟨started, h⟩ => ⟨started, h.active, h.room, h.chunks⟩
  begin entry rest scheduler cache chunk order queue room := by
    rintro ⟨started, h⟩ found invalid
    let job : RenderJob := { id := scheduler.nextJob, chunk }
    have hchunk := Cache.mem_of_get found
    have serial : (Cache.beginRender chunk).serial = chunk.serial := rfl
    refine ⟨started ++ [job], ?_, .inr ?_, fun other hother => ?_⟩
    · change scheduler.active ++ [job] = _
      rw [h.active, List.append_assoc]
    · change (scheduler.active ++ [job]).length ≤ scheduler.limit
      rw [List.length_append]
      exact room
    · rcases (Cache.mem_put hchunk serial).mp hother with rfl | ⟨hother, differ⟩
      · obtain ⟨old, hold, was⟩ := h.chunks chunk hchunk
        refine ⟨old, hold, ?_⟩
        have last : job ∈ started ++ [job] := by simp
        cases was with
        | stays => exact .begins rfl rfl rfl invalid rfl last rfl
        | begins serial index window invalid =>
          exact .begins serial index window invalid rfl last index
      · obtain ⟨old, hold, was⟩ := h.chunks other hother
        refine ⟨old, hold, ?_⟩
        cases was with
        | stays free =>
          refine .stays fun job' hjob' => ?_
          rcases List.mem_append.mp hjob' with before | last
          · exact free job' before
          · obtain rfl := List.mem_singleton.mp last
            intro here
            obtain rfl := order.chunks.eq_of_index hother hchunk (Eq.symm here)
            exact differ rfl
        | begins serial index window invalid busy hjob here =>
          exact .begins serial index window invalid busy (List.mem_append_left _ hjob) here

end Starts

/-! ### The edit -/

/-- An edit starts jobs for some of the chunks that wait, as far as there are slots. Of the chunks that
are sent back, it tells those for which it started none, and only those. -/
theorem Ledger.Reaches.update_tells {first : Studio} {before : Ledger} (new : first.IsNew)
    (reached : Ledger.Reaches ⟨first, []⟩ before) {timeline : Timeline Double}
    {media : Option MediaLibrary} {settings : Option (OutputFormat Double)} {told : List Nat}
    {after : Studio} (returned : update timeline media settings before.state = .ok told after) :
    ∃ started, after.scheduler.active = before.state.scheduler.active ++ started ∧
      (started = [] ∨ after.scheduler.active.length ≤ after.scheduler.limit) ∧
      ∀ chunk ∈ after.store.cache.chunks, chunk.SentBack before.state.store.cache →
        (chunk.index ∈ told ↔ ∀ job ∈ started, job.index ≠ chunk.index) := by
  have order : InOrder before.state.store.cache before.state.scheduler :=
    (Ledger.Reaches.gaveUp reached new.gaveUp).order
  have ends : Ensures (update timeline media settings) before.state (fun told next =>
      InOrder next.store.cache next.scheduler ∧
      told = next.store.cache.waitingChunks.map (·.index) ∧ ∃ middle, before.state.Renewed middle ∧
        ∃ started, Starts middle started next.scheduler next.store.cache) (fun _ => True) := by
    have renewed : before.state.Renewed before.state := ⟨order, rfl, .refl _⟩
    unfold update
    rw [ensures_bind]
    refine (Studio.Renewed.survivesChanges.keeps_change timeline media settings _ renewed).mono
      (fun changed middle renewed => ?_) fun _ _ => trivial
    rw [ensures_bind]
    refine (Studio.Renewed.survivesChanges.keeps_reconcile middle renewed).mono
      (fun _ middle renewed => ?_) fun _ _ => trivial
    rw [ensures_bind]
    refine (queueWaiting_attends Starts.admits .high changed renewed.order ⟨[], .first middle⟩).mono
      (fun _ next hnext => ?_) fun _ => False.elim
    exact ⟨hnext.1, rfl, middle, renewed, hnext.2.1⟩
  obtain ⟨order', rfl, middle, renewed, started, starts⟩ := (ensures_of_ok returned).mp ends
  refine ⟨started, renewed.scheduler ▸ starts.active, starts.room, fun chunk hchunk sentBack => ?_⟩
  -- What is told is what waits for a render, and no other chunk has its place.
  have told : chunk.index ∈ after.store.cache.waitingChunks.map (·.index) ↔
      chunk.status.needsRender = true := by
    constructor
    · intro hplace
      obtain ⟨other, hother, same⟩ := List.mem_map.mp hplace
      obtain ⟨hother, waits⟩ := List.mem_filter.mp hother
      rwa [← order'.chunks.eq_of_index hother hchunk same]
    · exact fun waits => List.mem_map_of_mem (List.mem_filter.mpr ⟨hchunk, waits⟩)
  rw [told]
  obtain ⟨old, hold, was⟩ := starts.chunks chunk hchunk
  cases was with
  | stays free => exact iff_of_true (renewed.renews.waits order.chunks hold sentBack) free
  | begins _ index _ _ busy hjob here =>
    refine iff_of_false (by simp [busy, ChunkState.needsRender]) fun free => ?_
    exact free _ hjob (here.trans index.symm)

/-! ### A clip that is shown anew -/

namespace OneClip

/-- The clip is rendered. -/
def renderedLedger : Ledger := rendering.foldl Ledger.next ⟨opened, []⟩

/-- The source of the clip is read from another time on. -/
def move : SessionAction Double (List Nat) := update (timeline [movedClip]) none none

/-- What a call tells, and what it leaves. -/
def told? (call : SessionAction Double (List Nat)) (studio : Studio) : Option (List Nat × Studio) :=
  match call studio with
  | .ok told after => some (told, after)
  | .error _ _ => none

theorem of_told? {call : SessionAction Double (List Nat)} {studio : Studio}
    {meets : List Nat → Studio → Bool}
    (h : ((told? call studio).any fun result => meets result.1 result.2) = true) :
    ∃ told after, call studio = .ok told after ∧ meets told after = true := by
  obtain ⟨⟨told, after⟩, result, met⟩ := (Option.any_eq_true _ _).mp h
  unfold told? at result
  split at result
  · next told' after' returned =>
    obtain ⟨rfl, rfl⟩ := Prod.mk.inj (Option.some.inj result)
    exact ⟨told', after', returned, met⟩
  · exact absurd result (by simp)

end OneClip

/-- A timeline of four windows is shown, where there is one slot: the first window gets it, and the edit
tells the others. -/
theorem three_of_four_windows_are_told :
    ∃ started after, update (OneClip.timeline [FourWindows.clip]) (some OneClip.media) none
        OneClip.opened = .ok [1, 2, 3] after ∧
      after.scheduler.active = OneClip.opened.scheduler.active ++ started ∧
      ∀ chunk ∈ after.store.cache.chunks, chunk.SentBack OneClip.opened.store.cache →
        (chunk.index ∈ [1, 2, 3] ↔ ∀ job ∈ started, job.index ≠ chunk.index) := by
  have listed : ∃ told after, update (OneClip.timeline [FourWindows.clip]) (some OneClip.media) none
      OneClip.opened = .ok told after ∧ decide (told = [1, 2, 3]) = true :=
    OneClip.of_told? (by decide +kernel)
  obtain ⟨told, after, returned, listed⟩ := listed
  obtain rfl := of_decide_eq_true listed
  have reached : Ledger.Reaches ⟨OneClip.opened, []⟩ ⟨OneClip.opened, []⟩ := .refl
  obtain ⟨started, active, -, tells⟩ := reached.update_tells OneClip.opened_isNew returned
  exact ⟨started, after, returned, active, tells⟩

/-- The source of a clip that was rendered is moved. Its chunk was valid and is rendered anew, and the
edit tells no chunk. -/
theorem exists_sent_back_untold :
    ∃ before after chunk, Ledger.Reaches ⟨OneClip.opened, []⟩ before ∧
      OneClip.move before.state = .ok [] after ∧ chunk ∈ after.store.cache.chunks ∧
      chunk.SentBack before.state.store.cache := by
  let meets (told : List Nat) (after : Studio) : Bool :=
    told.isEmpty && after.store.cache.chunks.any fun chunk => chunk.status ≠ .valid &&
      OneClip.renderedLedger.state.store.cache.chunks.any fun old =>
        old.serial = chunk.serial && old.status = .valid
  have untold : ∃ told after, OneClip.move OneClip.renderedLedger.state = .ok told after ∧
      meets told after = true := OneClip.of_told? (by decide +kernel)
  obtain ⟨told, after, returned, met⟩ := untold
  simp only [meets, Bool.and_eq_true, List.any_eq_true, List.isEmpty_iff, decide_eq_true_eq] at met
  obtain ⟨rfl, chunk, hchunk, invalid, old, hold, serial, valid⟩ := met
  have reached : Ledger.Reaches ⟨OneClip.opened, []⟩ OneClip.renderedLedger :=
    Leads.any OneClip.rendering _
  exact ⟨OneClip.renderedLedger, after, chunk, reached, returned, hchunk,
    .inr ⟨old, hold, serial, valid, invalid⟩⟩

end Montage
