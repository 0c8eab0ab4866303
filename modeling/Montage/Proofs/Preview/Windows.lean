import Montage.Proofs.Chunk.Coherence
import Montage.Proofs.Preview.Durable
import Montage.Proofs.Preview.GivenUp

/-!
# The windows of a session

A session does nothing to its cache but what the calls on a cache do. So what every call keeps is kept
by every event: the windows of the chunks are those of the partition, unless a project could not be
opened, and the cache renders for the settings of the session.

## Main definitions

* `Cache.Kempt` — a cache in order, with the windows of its partition

## Main results

* `Studio.Kempt.next` — every event keeps the cache so
* `Ledger.Reaches.kempt` — the cache of every session is so
-/

namespace Montage

open SessionAction

/-- A cache in order that renders for some settings, and whose chunks have the windows of the partition,
if it has any. -/
structure Cache.Kempt (settings : OutputFormat Double) (cache : Cache Double) : Prop where
  orderly : cache.Orderly
  cut : cache.IsCut ∨ cache.chunks = []
  length : ¬ cache.chunkDuration ≤ Scalar.zero
  settings : cache.settings = settings

/-! ### Calls -/

/-- Only other settings change the settings. -/
theorem CacheCall.settings_leaves (call : CacheCall Double) (state : CacheState Double)
    (plain : ∀ settings, call ≠ .change (.applySettings settings)) :
    (leaves call.action state).cache.settings = state.cache.settings := by
  cases call with
  | change edit =>
    cases edit with
    | repartition duration => exact (CacheAction.repartition_spec duration state).leaves.settings
    | openProject path duration time =>
      exact (CacheAction.openProject_spec path duration time state).leaves.settings
    | invalidate start stop =>
      rw [action, CacheChange.action, leaves_discard, CacheAction.invalidate,
        CacheAction.invalidateWhere_leaves]
    | invalidateEvery =>
      rw [action, CacheChange.action, leaves_discard, CacheAction.invalidateEvery,
        CacheAction.invalidateWhere_leaves]
    | applySettings settings => exact absurd rfl (plain settings)
    | wipe => exact (CacheAction.wipe_spec state).leaves.settings
    | setFiles files => rfl
  | startRender index =>
    rw [action, leaves_discard]
    rcases CacheAction.startRender_leaves index state with ⟨chunk, -, same⟩ | same <;> rw [same]
    rfl
  | finishRender index path contentHash isComplex =>
    rw [action, leaves_discard]
    have ends := (CacheAction.finishRender_spec index contentHash path isComplex state).leaves
    rcases ends with same | ⟨old, new, -, -, -, same⟩ <;> rw [same]
    rfl
  | failRender index message contentHash =>
    rw [action, leaves_discard]
    have ends := (CacheAction.failRender_spec index contentHash message state).leaves
    rcases ends with same | ⟨old, new, -, -, -, same⟩ <;> rw [same]
    rfl

namespace Cache.Kempt

variable {settings : OutputFormat Double}

/-- A call keeps the windows. -/
theorem leaves {state : CacheState Double} (h : state.cache.Kempt settings) (call : CacheCall Double) :
    (leaves call.action state).cache.Kempt (leaves call.action state).cache.settings := by
  have effected : ∃ failure?, call.Effected state failure? (Montage.leaves call.action state) := by
    have effect := call.effected state
    unfold CacheCall.HasEffect Resolves at effect
    unfold Montage.leaves
    cases run : call.action state with
    | ok _ next =>
      rw [run] at effect
      exact ⟨none, effect⟩
    | error failure next =>
      rw [run] at effect
      exact ⟨some failure, effect⟩
  obtain ⟨failure?, effected⟩ := effected
  exact ⟨call.keeps_orderly h.orderly,
    (effected.effect.isCut h.orderly effected.chunkDuration h.cut).1,
    effected.chunkDuration.symm ▸ h.length, rfl⟩

/-- The window of a chunk is the one at its place. -/
theorem window_eq {cache : Cache Double} (h : cache.Kempt settings) {chunk : Chunk Double}
    (hchunk : chunk ∈ cache.chunks) :
    chunk.window = windowAt cache.totalDuration cache.chunkDuration chunk.index := by
  rcases h.cut with cut | none
  · have there : (cache.chunks.map Chunk.window)[chunk.index]? = some chunk.window := by
      rw [List.getElem?_map, h.orderly.getElem?_index hchunk, Option.map_some]
    exact (partition_getElem? cut there).2
  · rw [none] at hchunk
    exact absurd hchunk List.not_mem_nil

/-- The window of a chunk meets that of no other chunk, and its own unless that is empty. -/
theorem intersects_iff {cache : Cache Double} (h : cache.Kempt settings) {chunk other : Chunk Double}
    (hchunk : chunk ∈ cache.chunks) (hother : other ∈ cache.chunks) :
    other.window.intersects chunk.start chunk.stop = true ↔
      other = chunk ∧ chunk.start < chunk.stop := by
  have start : chunk.start = chunk.window.start := rfl
  have stop : chunk.stop = chunk.window.stop := rfl
  simp only [Window.intersects, Bool.and_eq_true, decide_eq_true_eq]
  constructor
  · rintro ⟨meets, meets'⟩
    obtain rfl : other = chunk := by
      rw [start, h.window_eq hchunk, h.window_eq hother] at meets
      rw [stop, h.window_eq hchunk, h.window_eq hother] at meets'
      exact h.orderly.eq_of_index hother hchunk (windowAt_eq_of_meet h.length meets' meets)
    exact ⟨rfl, meets⟩
  · rintro ⟨rfl, nonempty⟩
    exact ⟨nonempty, nonempty⟩

/-- A window that is not empty is in a partition if it stands there at its place. -/
theorem stays_iff {cache : Cache Double} (h : cache.Kempt settings) {duration : Double}
    {windows : List (Window Double)} (cut : partition duration cache.chunkDuration = .ok windows)
    {chunk : Chunk Double} (hchunk : chunk ∈ cache.chunks) (nonempty : chunk.start < chunk.stop) :
    stays windows chunk = true ↔ ∃ window ∈ windows, chunk.covers window = true := by
  unfold stays
  rw [Option.any_eq_true]
  constructor
  · rintro ⟨window, there, covers⟩
    exact ⟨window, List.mem_of_getElem? there, covers⟩
  · rintro ⟨window, hwindow, covers⟩
    obtain ⟨place, there⟩ := List.mem_iff_getElem?.mp hwindow
    obtain ⟨sameStart, sameStop⟩ := Bool.and_eq_true_iff.mp covers
    have here : chunk.index = place := by
      have start : chunk.start = chunk.window.start := rfl
      have stop : chunk.stop = chunk.window.stop := rfl
      rw [start, stop, h.window_eq hchunk] at nonempty
      rw [start, h.window_eq hchunk, (partition_getElem? cut there).2] at sameStart
      rw [stop, h.window_eq hchunk, (partition_getElem? cut there).2] at sameStop
      exact windowAt_place_eq h.length nonempty sameStart sameStop
    exact ⟨window, here ▸ there, covers⟩

end Cache.Kempt

/-! ### Events -/

/-- A session whose cache has the windows of its partition and renders for its settings. -/
def Studio.Kempt (studio : Studio) : Prop := studio.store.cache.Kempt studio.shared.settings

namespace Studio.Kempt

open WorkshopAction

/-- A call keeps the windows, and one that has nothing to do with settings keeps them too. -/
theorem called {studio : Studio} (h : studio.Kempt) (call : CacheCall Double)
    (plain : ∀ settings, call ≠ .change (.applySettings settings)) :
    Studio.Kempt { studio with store := leaves call.action studio.store } := by
  have kempt := Cache.Kempt.leaves h call
  rw [call.settings_leaves studio.store plain, h.settings] at kempt
  exact kempt

theorem keeps_changeSettings (settings : OutputFormat Double) :
    Keeps Studio.Kempt (changeSettings settings) := by
  intro studio h
  unfold changeSettings
  rw [ensures_bind, ensures_session, ensures_bind, ensures_setSession, ensures_onCache]
  have kempt := Cache.Kempt.leaves h (.change (.applySettings settings))
  rw [CacheCall.action, CacheChange.action, leaves_discard] at kempt
  have applied := CacheAction.applySettings_spec settings studio.store
  refine (ensures_leaves.and applied).mono ?_ ?_
  · rintro _ store ⟨rfl, -, demotes, -⟩
    rw [demotes.settings] at kempt
    exact kempt
  · rintro store ⟨rfl, demotes⟩
    rw [demotes.settings] at kempt
    exact kempt

/-- The windows survive whatever an event is made of. -/
theorem durable : Studio.Durable Studio.Kempt fun _ _ _ => True where
  session studio session same h := by
    unfold Studio.Kempt
    dsimp only
    rw [same]
    exact h
  scheduler _ _ _ h := h
  call call routine studio h := by
    refine h.called call fun settings same => ?_
    subst same
    exact routine
  remove _ _ _ _ h := h
  changeSettings := keeps_changeSettings

/-- The worker of a job leaves the chunks and the settings alone. -/
theorem reports {studio : Studio} (h : studio.Kempt) (job : RenderJob) :
    Studio.Reports Studio.Kempt (fun _ _ _ => True) job studio := by
  have tame {store : CacheState Double} {session : Session Double}
      (cache : store.cache = studio.store.cache) (settings : session.settings = studio.shared.settings)
      (scheduler : Scheduler Double ChunkRender EncoderReply) :
      Studio.Kempt { store, scheduler, shared := session } := by
    unfold Studio.Kempt
    dsimp only
    rw [cache, settings]
    exact h
  refine durable.reports h (fun _ => ?_) fun kept reply _ => ?_
  · refine (ChunkRender.begin_spec job.chunk studio.store studio.shared).mono ?_ ?_
    · rintro (kept | outcome) next ⟨cache, hstep⟩
      · exact tame cache hstep.2.1.project.2.2 _
      · exact ⟨tame cache hstep.2.project.2.2 _, hstep.1.1⟩
    · exact fun next hnext => tame hnext.1 hnext.2.project.2.2 _
  · refine (ChunkRender.resume_spec job.chunk kept reply studio.store studio.shared).mono ?_ ?_
    · exact fun _ next hnext => ⟨tame hnext.1.1 (by rw [hnext.1.2]; rfl) _, fun _ _ _ => trivial⟩
    · exact fun next hnext => tame hnext.1 (by rw [hnext.2]; rfl) _

/-- Every event keeps the windows. -/
theorem next {studio : Studio} (h : studio.Kempt) (event : SessionEvent) :
    Studio.Kempt (leaves event.action studio) :=
  durable.next h event fun _ _ _ job _ _ waiting => reports waiting job

end Studio.Kempt

/-- In every session the chunks have the windows of the partition, if there are any, and the cache
renders for the settings of the session. -/
theorem Ledger.Reaches.kempt {first : Studio} {ledger : Ledger} (new : first.IsNew)
    (fresh : first.store.cache.IsFresh) (reached : Ledger.Reaches ⟨first, []⟩ ledger) :
    ledger.state.Kempt :=
  Leads.keeps (fun ledger : Ledger => ledger.state.Kempt) reached
    ⟨fresh.orderly, .inl fresh.isCut, fresh.length, new.settings⟩ fun _ event _ _ h => h.next event

end Montage
