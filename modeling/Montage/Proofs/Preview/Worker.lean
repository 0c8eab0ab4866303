import Montage.Preview.Session
import Montage.Proofs.Schedule.Step

/-!
# What the render of a chunk does to a session

A worker reads the timeline, the media and the settings and changes none of them. It notes the hash
of what it renders when it begins, and takes it back when it ends, however it ends.
-/

namespace Montage

variable {τ : Type} [Scalar τ]

namespace Session

/-- A session that has run the encoder more often at most. -/
structure Calls (before after : Session τ) : Prop where
  same : after = { before with calls := after.calls }
  calls : before.calls ⊆ after.calls

protected theorem Calls.refl (session : Session τ) : session.Calls session :=
  ⟨rfl, List.Subset.refl _⟩

/-- Runs of the encoder change nothing of what is rendered. -/
theorem Calls.project {before after : Session τ} (h : before.Calls after) :
    after.timeline = before.timeline ∧ after.media = before.media ∧
      after.settings = before.settings := by
  rw [h.same]
  exact ⟨rfl, rfl, rfl⟩

theorem Calls.stop {before after : Session τ} (h : before.Calls after) (index : Nat)
    (contentHash : String) : (before.stop index contentHash).Calls (after.stop index contentHash) := by
  refine ⟨?_, h.calls⟩
  rw [h.same]
  rfl

/-- A run of the encoder that was composed for a window in a session. -/
def Composes (session : Session τ) (files : FileTree) (window : Window τ) (call : EncoderCall τ) :
    Prop :=
  ∃ composition path,
    composeOverlay session.timeline (session.access files) session.settings window =
      .ok composition ∧
    (liftM (previewCommand session.encoderPath composition path .chunk) :
      Except Failure (List String)) = .ok call.command

/-- A hash that is noted and taken back leaves what is noted of other places. -/
theorem mem_start_stop {session : Session τ} {place index : Nat} {contentHash hash : String} :
    (index, contentHash) ∈ ((session.start place hash).stop place hash).inFlight ↔
      (index, contentHash) ∈ session.inFlight ∧ index ≠ place := by
  simp only [stop, start, List.mem_filter, List.mem_cons, decide_eq_true_eq]
  constructor
  · rintro ⟨same | other, differ⟩
    · exact absurd same differ
    · exact other
  · rintro ⟨listed, other⟩
    exact ⟨.inr ⟨listed, other⟩, fun same => other (Prod.mk.inj same).1⟩

end Session

/-- The encoder was not stopped. -/
def EncoderReply.IsOwn (reply : EncoderReply) : Prop :=
  ∀ result ∈ reply.result.toOption, result.cancelled = false

instance : DecidablePred EncoderReply.IsOwn := fun reply =>
  inferInstanceAs (Decidable (∀ result ∈ reply.result.toOption, result.cancelled = false))

namespace ChunkRender

/-- Composing a chunk leads to a run of the encoder or to an outcome that is no success. -/
theorem prepare_spec (chunk : Chunk τ) (contentHash : String)
    (state : CacheState τ × Session τ) :
    Ensures (prepare chunk contentHash) state
      (fun step next => (next.1.cache = state.1.cache ∧ state.2.Calls next.2) ∧
        match step with
        | .waits kept => kept.contentHash = contentHash ∧
          ∃ call ∈ next.2.calls, state.2.Composes state.1.disk.files chunk.window call
        | .ends outcome => outcome.success = false ∧ outcome.cancelled = false ∧
          outcome.contentHash = some contentHash)
      (fun next => next.1.cache = state.1.cache ∧ state.2.Calls next.2) := by
  obtain ⟨store, session⟩ := state
  unfold prepare
  rw [ensures_bind, ensures_get]
  dsimp only
  split
  · exact ⟨⟨rfl, .refl _⟩, rfl, rfl, rfl⟩
  · exact ⟨rfl, .refl _⟩
  · next composition composed =>
    split
    · exact ⟨rfl, .refl _⟩
    · next files _ =>
      rw [ensures_bind, ensures_set, ensures_bind, ensures_liftM]
      split
      · next command hcommand =>
        refine ⟨⟨rfl, rfl, List.subset_append_left _ _⟩, rfl, _,
          List.mem_append_right _ (List.mem_singleton.mpr rfl), composition, _, composed, hcommand⟩
      · exact ⟨rfl, .refl _⟩

/-- A worker that begins notes the hash of what its chunk is to show, and keeps it if it waits. -/
theorem begin_spec (chunk : Chunk τ) (store : CacheState τ) (session : Session τ) :
    let contentHash := session.hashOf store.disk.files chunk
    let started := session.start chunk.index contentHash
    let stopped := started.stop chunk.index contentHash
    Ensures (begin chunk) (store, session)
      (fun step next => next.1.cache = store.cache ∧
        match step with
        | .waits kept => kept.contentHash = contentHash ∧ started.Calls next.2 ∧
          ∃ call ∈ next.2.calls, session.Composes store.disk.files chunk.window call
        | .ends outcome => (outcome.success = false ∧ outcome.cancelled = false ∧
          outcome.contentHash = some contentHash) ∧ stopped.Calls next.2)
      (fun next => next.1.cache = store.cache ∧ stopped.Calls next.2) := by
  intro contentHash started stopped
  unfold begin
  rw [ensures_bind, ensures_get]
  dsimp only
  rw [ensures_bind, ensures_set, ensures_bind]
  refine Ensures.tryCatch ?_
  rw [ensures_map]
  refine (prepare_spec chunk contentHash (store, started)).mono ?_ ?_
  · rintro (kept | outcome) ⟨store', session'⟩ ⟨⟨hcache, hcalls⟩, hstep⟩
    · exact ⟨hcache, hstep.1, hcalls, hstep.2⟩
    · exact ⟨hcache, hstep, hcalls.stop chunk.index contentHash⟩
  · rintro ⟨store', session'⟩ ⟨hcache, hcalls⟩ cause
    exact ⟨hcache, hcalls.stop chunk.index contentHash⟩

theorem ensures_reported {kept : ChunkRender} {result : Except String RunOutcome}
    {state : CacheState τ × Session τ}
    {reports : RenderOutcome → CacheState τ × Session τ → Prop}
    {stops : CacheState τ × Session τ → Prop} :
    (∀ ran, result = .ok ran → reports (kept.outcome ran) state) → stops state →
      Ensures (match result with
        | .ok result => pure (kept.outcome result)
        | .error message => throw (.told message) : Action τ RenderOutcome) state reports stops := by
  intro told stopped
  cases result with
  | ok ran => exact told ran rfl
  | error message => exact stopped

/-- A worker that goes on takes the hash back, and reports what the encoder said. -/
theorem resume_reports (chunk : Chunk τ) (kept : ChunkRender) (reply : EncoderReply)
    (store : CacheState τ) (session : Session τ) :
    let stopped := session.stop chunk.index kept.contentHash
    Ensures (resume chunk kept reply) (store, session)
      (fun outcome next => (next.1.cache = store.cache ∧ next.2 = stopped) ∧
        ∃ ran, reply.result = .ok ran ∧ outcome = kept.outcome ran)
      (fun next => next.1.cache = store.cache ∧ next.2 = stopped) := by
  intro stopped
  unfold resume
  rw [ensures_bind, ensures_modify]
  dsimp only
  split
  · rw [ensures_bind, ensures_get]
    dsimp only
    split
    · exact ⟨rfl, rfl⟩
    · rw [ensures_bind, ensures_set]
      apply ensures_reported
      · exact fun ran hran => ⟨⟨rfl, rfl⟩, ran, hran, rfl⟩
      · exact ⟨rfl, rfl⟩
  · apply ensures_reported
    · exact fun ran hran => ⟨⟨rfl, rfl⟩, ran, hran, rfl⟩
    · exact ⟨rfl, rfl⟩

/-- What a worker that goes on reports as done has the hash that it was begun with. -/
theorem resume_spec (chunk : Chunk τ) (kept : ChunkRender) (reply : EncoderReply)
    (store : CacheState τ) (session : Session τ) :
    let stopped := session.stop chunk.index kept.contentHash
    Ensures (resume chunk kept reply) (store, session)
      (fun outcome next => (next.1.cache = store.cache ∧ next.2 = stopped) ∧
        (outcome.cancelled = true ∨ outcome.contentHash = some kept.contentHash))
      (fun next => next.1.cache = store.cache ∧ next.2 = stopped) := by
  intro stopped
  refine (resume_reports chunk kept reply store session).mono ?_ fun _ h => h
  rintro _ next ⟨leaves, ran, -, rfl⟩
  refine ⟨leaves, ?_⟩
  unfold outcome
  split_ifs <;> simp

/-- A worker that goes on with an answer of an encoder that was not stopped reports no cancellation. -/
theorem resume_cancels_nothing {reply : EncoderReply} (own : reply.IsOwn) (chunk : Chunk τ)
    (kept : ChunkRender) (state : CacheState τ × Session τ) :
    Ensures (resume chunk kept reply) state (fun outcome _ => outcome.cancelled = false)
      (fun _ => True) := by
  refine (resume_reports chunk kept reply state.1 state.2).mono ?_ fun _ _ => trivial
  rintro _ _ ⟨-, ran, hresult, rfl⟩
  unfold outcome
  rw [own ran (by rw [hresult]; rfl)]
  split_ifs <;> simp_all

theorem worker_leavesCache : Worker.LeavesCache (worker : Worker τ (Session τ) ChunkRender EncoderReply) where
  begin chunk c := by
    rintro ⟨store, session⟩ rfl
    exact (begin_spec chunk store session).mono (fun _ _ hnext => hnext.1) fun _ hnext => hnext.1
  resume chunk kept reply c := by
    rintro ⟨store, session⟩ rfl
    exact (resume_spec chunk kept reply store session).mono (fun _ _ hnext => hnext.1.1)
      fun _ hnext => hnext.1

end ChunkRender

namespace SessionAction

variable {shop : Workshop τ (Session τ) ChunkRender EncoderReply}
  {fails : Workshop τ (Session τ) ChunkRender EncoderReply → Prop}

theorem ensures_session {returns : Session τ → Workshop τ (Session τ) ChunkRender EncoderReply →
    Prop} : Ensures session shop returns fails ↔ returns shop.shared shop := Iff.rfl

theorem ensures_cache {returns : Cache τ → Workshop τ (Session τ) ChunkRender EncoderReply →
    Prop} : Ensures cache shop returns fails ↔ returns shop.store.cache shop := Iff.rfl

theorem ensures_files {returns : FileTree → Workshop τ (Session τ) ChunkRender EncoderReply →
    Prop} : Ensures files shop returns fails ↔ returns shop.store.disk.files shop := Iff.rfl

theorem ensures_setSession {session : Session τ}
    {returns : Unit → Workshop τ (Session τ) ChunkRender EncoderReply → Prop} :
    Ensures (setSession session) shop returns fails ↔ returns () { shop with shared := session } :=
  Iff.rfl

theorem ensures_hashOf {chunk : Chunk τ}
    {returns : String → Workshop τ (Session τ) ChunkRender EncoderReply → Prop} :
    Ensures (hashOf chunk) shop returns fails ↔
      returns (shop.shared.hashOf shop.store.disk.files chunk) shop := Iff.rfl

end SessionAction

end Montage
