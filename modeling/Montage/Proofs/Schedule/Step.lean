import Montage.Proofs.Schedule.Admission

/-!
# One step of a job

The step of a job has two halves. The worker does what is due; and if it has come to its end, what
it reports is recorded, and the slot of the job is given away. The first half is `report?`, and it
cannot fail. The second half is `WorkshopAction.complete`, whose failures are lost with the job,
`runJob_eq`.

A worker that leaves the chunks alone changes nothing in its half but how its own job stands.
-/

namespace Montage

variable {τ κ ω ρ : Type}

namespace WorkshopAction

/-- The worker's half of the step of a job: what it reports, if it has come to its end. -/
def report? (worker : Worker τ κ ω ρ) (job : Job τ ω ρ) :
    WorkshopAction τ κ ω ρ (Option RenderOutcome) := do
  match job.phase with
  | .due true => do
    setScheduler ((← scheduler).putJob { job with phase := .ended })
    return none
  | .due false => do
    let step ← try onWorker (worker.begin job.chunk) catch failure =>
      pure (WorkerStep.ends (broken failure))
    match step with
    | .waits kept => do
      setScheduler ((← scheduler).putJob { job with phase := .waiting kept })
      return none
    | .ends outcome => return some outcome
  | .answered kept answer => do
    let outcome ← try onWorker (worker.resume job.chunk kept answer) catch failure =>
      pure (broken failure)
    return some outcome
  | .stopping kept => do
    modify fun shop => { shop with shared := worker.abandon job.chunk kept shop.shared }
    return some { cancelled := true }
  | .waiting _ | .ended => return none

variable [Scalar τ]

/-- The step of a job as it is when no failure to record what it did is caught. -/
def attempt (worker : Worker τ κ ω ρ) (job : Job τ ω ρ) : WorkshopAction τ κ ω ρ Unit := do
  if let some outcome ← report? worker job then complete worker job outcome

/-- What is due for longest is done as `attempt` does it. -/
def attemptNext (worker : Worker τ κ ω ρ) : WorkshopAction τ κ ω ρ Unit := do
  let scheduler ← scheduler
  match scheduler.agenda with
  | [] => return
  | id :: rest =>
    setScheduler { scheduler with agenda := rest }
    if let some job := scheduler.job? id then attempt worker job

/-- A job does what is due in two halves. -/
theorem runJob_eq (worker : Worker τ κ ω ρ) (job : Job τ ω ρ) :
    runJob worker job = (do
      if let some outcome ← report? worker job then
        try complete worker job outcome catch _ => pure ()) := by
  unfold runJob report?
  cases job.phase with
  | due stop =>
    cases stop with
    | true => simp only [bind_assoc, pure_bind]; rfl
    | false =>
      simp only [bind_assoc]
      refine bind_congr fun step => ?_
      cases step with
      | waits kept => simp only [bind_assoc, pure_bind]; rfl
      | ends outcome => simp only [pure_bind]
  | waiting kept => rfl
  | answered kept answer => simp only [bind_assoc, pure_bind]
  | stopping kept => simp only [bind_assoc, pure_bind]
  | ended => rfl

end WorkshopAction

/-- A job that has something to do. -/
def Job.isDue (job : Job τ ω ρ) : Bool :=
  match job.phase with
  | .due _ | .answered _ _ | .stopping _ => true
  | .waiting _ | .ended => false

/-- A worker that leaves the chunks alone, also when it breaks down. -/
structure Worker.LeavesCache (worker : Worker τ κ ω ρ) : Prop where
  begin : ∀ chunk c, Keeps (fun state => state.1.cache = c) (worker.begin chunk)
  resume : ∀ chunk kept answer c,
    Keeps (fun state => state.1.cache = c) (worker.resume chunk kept answer)

/-- How a job stands after a step that is not its last. -/
inductive Job.Advances (job : Job τ ω ρ) : Job τ ω ρ → Prop where
  | ended (due : job.phase = .due true) : job.Advances { job with phase := .ended }
  | waits (due : job.phase = .due false) (kept : ω) :
      job.Advances { job with phase := .waiting kept }

theorem Job.Advances.same {job after : Job τ ω ρ} (h : job.Advances after) :
    after.id = job.id ∧ after.chunk = job.chunk := by
  cases h <;> exact ⟨rfl, rfl⟩

theorem Job.Advances.due {job after : Job τ ω ρ} (h : job.Advances after) : job.kept? = none := by
  cases h with
  | ended due => rw [Job.kept?, due]
  | waits due kept => rw [Job.kept?, due]

/-- What the worker's half of a step leaves: another state of the job, or the end of the worker. -/
theorem WorkshopAction.report?_spec {worker : Worker τ κ ω ρ} (tame : worker.LeavesCache)
    (job : Job τ ω ρ) (shop : Workshop τ κ ω ρ) :
    Ensures (report? worker job) shop
      (fun outcome next => next.store.cache = shop.store.cache ∧
        match outcome with
        | none => next.scheduler = shop.scheduler ∧ job.isDue = false ∨
          ∃ after, job.Advances after ∧ next.scheduler = shop.scheduler.putJob after
        | some _ => next.scheduler = shop.scheduler ∧
          (job.phase = .due false ∨ job.kept? ≠ none))
      (fun _ => False) := by
  unfold report?
  split
  · next due => exact ⟨rfl, .inr ⟨_, .ended due, rfl⟩⟩
  · next due =>
    rw [ensures_bind]
    refine Ensures.tryCatch ?_
    rw [ensures_onWorker]
    refine (tame.begin job.chunk shop.store.cache _ rfl).mono ?_ ?_
    · rintro (kept | outcome) next hnext
      · exact ⟨hnext, .inr ⟨_, .waits due kept, rfl⟩⟩
      · exact ⟨hnext, rfl, .inl due⟩
    · exact fun next hnext failure => ⟨hnext, rfl, .inl due⟩
  · next kept answer answered =>
    have busy : job.kept? ≠ none := by simp [Job.kept?, answered]
    rw [ensures_bind]
    refine Ensures.tryCatch ?_
    rw [ensures_onWorker]
    exact (tame.resume job.chunk kept answer shop.store.cache _ rfl).mono
      (fun _ next hnext => ⟨hnext, rfl, .inr busy⟩)
      fun next hnext failure => ⟨hnext, rfl, .inr busy⟩
  · next kept stopping => exact ⟨rfl, rfl, .inr (by simp [Job.kept?, stopping])⟩
  · next kept waiting => exact ⟨rfl, .inl ⟨rfl, by simp [Job.isDue, waiting]⟩⟩
  · next ended => exact ⟨rfl, .inl ⟨rfl, by simp [Job.isDue, ended]⟩⟩

end Montage
