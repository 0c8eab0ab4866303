import Montage.Proofs.Chunk.Refusal
import Montage.Proofs.Schedule.Step

/-!
# Jobs move their chunks where they may go

A job moves its chunk twice: when it gets a slot, and when it ends. `fill` moves chunks without
asking whether they may go, and `beginEach` asks each time; the two agree, so the answer is always
yes. At its end a job that still has its chunk finds it rendering, and from there it may go to where
the job takes it.
-/

namespace Montage

variable {τ κ ω ρ : Type} [Scalar τ]

namespace WorkshopAction

variable {shop : Workshop τ κ ω ρ}

/-! ### Beginning renders -/

/-- Slots for the first entries of a queue, each of whose renders begins by an action that may be
refused. -/
def beginEach : RenderQueue → WorkshopAction τ κ ω ρ Unit
  | [] => do setScheduler { ← scheduler with queue := [] }
  | entry :: rest => do
    let shop ← get
    if shop.scheduler.limit ≤ shop.scheduler.active.length then
      setScheduler { shop.scheduler with queue := entry :: rest }
    else
      match shop.store.cache.get entry.index with
      | .error _ => beginEach rest
      | .ok chunk => do
        if chunk.status ≠ .valid then
          let _ ← onCache (CacheAction.startRender entry.index)
          setScheduler (shop.scheduler.addJob chunk)
        beginEach rest

/-- No render is refused when slots are given away. -/
theorem beginEach_eq_fill (queue : RenderQueue) (shop : Workshop τ κ ω ρ) :
    Ensures (beginEach queue) shop
      (fun _ next => (next.scheduler, next.store.cache) =
        Scheduler.fill queue shop.scheduler shop.store.cache)
      (fun _ => False) := by
  induction queue generalizing shop with
  | nil => rfl
  | cons entry rest ih =>
    unfold beginEach Scheduler.fill
    rw [ensures_bind, ensures_get]
    dsimp only
    by_cases full : shop.scheduler.limit ≤ shop.scheduler.active.length
    · rw [if_pos full, if_pos full]
      rfl
    · rw [if_neg full, if_neg full]
      cases hget : shop.store.cache.get entry.index with
      | error cause => exact ih shop
      | ok chunk =>
        dsimp only
        by_cases valid : chunk.status = .valid
        · rw [if_pos valid, if_neg (not_not.mpr valid)]
          exact ih shop
        · rw [if_neg valid, if_pos valid, ensures_bind, ensures_onCache]
          refine (CacheAction.startRender_returns hget).mono ?_ fun _ => id
          rintro begun store ⟨rfl, rfl⟩
          exact ih _

/-! ### Ending renders -/

omit [Scalar τ] in
theorem failsOnly_onCache {α : Type} {action : CacheAction τ α} {ways : Failure → Prop} :
    FailsOnly (onCache (κ := κ) (ω := ω) (ρ := ρ) action) shop ways ↔
      FailsOnly action shop.store ways := by
  unfold FailsOnly onCache
  cases action shop.store <;> rfl

theorem pump_returns (shop : Workshop τ κ ω ρ) :
    Ensures pump shop (fun _ _ => True) (fun _ => False) := by
  unfold pump
  rw [ensures_bind, ensures_get, ensures_set]
  trivial

theorem queue_returns (index : Int) (urgency : Urgency) (shop : Workshop τ κ ω ρ) :
    Ensures (queue index urgency) shop (fun _ _ => True) (fun _ => False) := by
  unfold queue
  rw [ensures_bind, ensures_scheduler]
  split
  · trivial
  · rw [ensures_bind, ensures_setScheduler, ensures_bind]
    exact pump_returns _

/-- What a job did is recorded for a chunk that is being rendered. -/
theorem record_refuses_nothing {index : Nat} (outcome : RenderOutcome)
    (busy : ∀ chunk, shop.store.cache.get index = .ok chunk → chunk.status = .rendering) :
    FailsOnly (record index outcome) shop fun failure => ¬failure.IsRefusal := by
  unfold record
  split
  · trivial
  · dsimp only
    split
    · refine FailsOnly.bind ?_ fun chunk next => ?_
      · exact failsOnly_onCache.mpr (CacheAction.finishRender_refuses_nothing busy _ _ _)
      · split
        · exact (queue_returns _ _ next).failsOnly.bind fun _ _ => trivial
        · trivial
    · refine FailsOnly.bind ?_ fun chunk next => trivial
      exact failsOnly_onCache.mpr (CacheAction.failRender_refuses_nothing busy _ _)

omit [Scalar τ] in
theorem removeOutput_refuses_nothing (outcome : RenderOutcome) (shop : Workshop τ κ ω ρ) :
    FailsOnly (removeOutput outcome) shop fun failure => ¬failure.IsRefusal := by
  unfold removeOutput
  split
  · refine FailsOnly.bind ?_ fun shop next => ?_
    · trivial
    · split
      · trivial
      · exact Failure.not_isRefusal_file _
  · trivial

theorem queueNew_returns (current : Option (Chunk τ)) (shop : Workshop τ κ ω ρ) :
    Ensures (queueNew current) shop (fun _ _ => True) (fun _ => False) := by
  unfold queueNew
  split
  · split
    · rw [ensures_bind]
      exact queue_returns _ _ shop
    · trivial
  · trivial

omit [Scalar τ] in
theorem tell_refuses_nothing (worker : Worker τ κ ω ρ) (chunk : Chunk τ)
    (shop : Workshop τ κ ω ρ) :
    FailsOnly (tell worker chunk) shop fun failure => ¬failure.IsRefusal := by
  unfold tell
  refine failsOnly_bind.mpr ⟨trivial, ?_⟩
  rw [ensures_get]
  refine failsOnly_bind.mpr ⟨trivial, ?_⟩
  rw [ensures_modify]
  cases worker.complain chunk shop.shared with
  | none => trivial
  | some message =>
    rintro ⟨_, _, _, same⟩
    exact absurd same (by simp)

section End

variable {worker : Worker τ κ ω ρ} {job : Job τ ω ρ}

/-- The end of a job that finds its chunk rendering, if it still has it. -/
theorem conclude_refuses_nothing (owned : ∀ chunk ∈ shop.store.cache.chunks,
      chunk.serial = job.chunk.serial → chunk.status = .rendering) (outcome : RenderOutcome) :
    FailsOnly (conclude worker job outcome) shop fun failure => ¬failure.IsRefusal := by
  have pumps {ways : Failure → Prop} (shop : Workshop τ κ ω ρ) : FailsOnly pump shop ways :=
    (pump_returns shop).failsOnly
  unfold conclude
  refine failsOnly_bind.mpr ⟨trivial, ?_⟩
  rw [ensures_get]
  dsimp only
  split
  · next own =>
    -- The chunk at the place of the job is its own, and so it is rendering.
    have busy (chunk : Chunk τ) (found : shop.store.cache.get job.index = .ok chunk) :
        chunk.status = .rendering := by
      rw [found] at own
      exact owned chunk (Cache.mem_of_get found) (Option.some.inj own)
    apply (record_refuses_nothing outcome busy).bind
    intro _ recorded
    refine failsOnly_bind.mpr ⟨trivial, ?_⟩
    rw [ensures_get]
    split
    · exact (tell_refuses_nothing worker _ _).bind fun _ told => pumps told
    · exact pumps _
  · refine FailsOnly.bind ?_ fun _ next => pumps next
    exact (removeOutput_refuses_nothing outcome shop).bind
      fun _ next => (queueNew_returns _ next).failsOnly

/-- The step of a job is not refused, even where a failure to record what it did is not caught. -/
theorem attempt_refuses_nothing (tame : worker.LeavesCache)
    (owned : ∀ chunk ∈ shop.store.cache.chunks, chunk.serial = job.chunk.serial →
      chunk.status = .rendering) :
    FailsOnly (attempt worker job) shop fun failure => ¬failure.IsRefusal := by
  unfold attempt
  have reports := report?_spec tame job shop
  refine failsOnly_bind.mpr ⟨reports.failsOnly, reports.mono ?_ fun _ => False.elim⟩
  rintro outcome middle ⟨hcache, -⟩
  cases outcome with
  | none => trivial
  | some outcome =>
    dsimp only
    unfold complete
    refine failsOnly_bind.mpr ⟨trivial, ?_⟩
    rw [ensures_scheduler]
    refine failsOnly_bind.mpr ⟨trivial, ?_⟩
    rw [ensures_setScheduler]
    apply conclude_refuses_nothing
    rw [hcache]
    exact owned

end End

end WorkshopAction

end Montage
