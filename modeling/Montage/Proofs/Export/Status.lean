import Montage.Export.Job
import Montage.Proofs.Run.Starts

/-!
# How an export ends

An export keeps its status by hand: it begins, and where it sees that it has failed or was cancelled
it says so and then fails. So an export that returns is completed, and a failure that was seen coming
is told truthfully. What fails by itself on the way, be it the composition, a folder that cannot be
made, the encoder or a caller, leaves the export underway.

## Main definitions

* `ExportJob.Caller.LeavesAlone` — callers who only look on
* `ExportJob.Ready` — what must hold before a process is started
* `ExportJob.Unforeseen` — the failures that an export does not see coming
* `ExportJob.Fell` — where an export stands that has failed

## Main results

* `ExportJob.prepare_resolves`, `ExportJob.encode_resolves`, `ExportJob.conclude_resolves` — the three
  phases of an export
* `ExportJob.run_resolves` — where an export stands at its end
-/

namespace Montage

open SceneAction

namespace Double

/-- Numbers that are not negative have a sum. -/
theorem position?_add_isSome {x y : Double} (hx : Scalar.zero ≤ x) (hy : Scalar.zero ≤ y) :
    (x + y).position?.isSome := by
  have number {z : Double} (h : Scalar.zero ≤ z) :
      z = infinite false ∨ ∃ negative units fits, z = finite negative units fits := by
    obtain ⟨a, b, ha, hb, le⟩ := le_iff.mp h
    obtain rfl := Option.some.inj (ha.symm.trans position?_zero)
    cases z with
    | nan => cases hb
    | finite negative units fits => exact .inr ⟨negative, units, fits, rfl⟩
    | infinite negative =>
      cases negative with
      | false => exact .inl rfl
      | true =>
        obtain rfl := Option.some.inj hb
        have := limit_pos
        simp only [signed, if_true] at le
        omega
  rcases number hx with rfl | ⟨a, m, fits, rfl⟩ <;> rcases number hy with rfl | ⟨b, n, fits', rfl⟩
  · rfl
  · rfl
  · rfl
  · change (add (finite a m fits) (finite b n fits')).position?.isSome
    unfold add
    dsimp only
    split
    · rfl
    · rw [position?_nearest]
      rfl

theorem zero_lt_of_not_le {x : Double} (number : x.position?.isSome) (h : ¬ x ≤ Scalar.zero) :
    Scalar.zero < x := by
  obtain ⟨a, ha⟩ := Option.isSome_iff_exists.mp number
  refine lt_iff.mpr ⟨0, a, position?_zero, ha, Int.not_le.mp fun le => h ?_⟩
  exact le_iff.mpr ⟨a, 0, ha, position?_zero, le⟩

end Double

/-- What holds of some numbers, and of zero, holds of the greatest of them. -/
theorem maximum_of_forall {τ : Type} [Scalar τ] {holds : τ → Prop} (zero : holds Scalar.zero)
    {xs : List τ} (each : ∀ x ∈ xs, holds x) : holds (maximum xs) := by
  have greater {x y : τ} (hx : holds x) (hy : holds y) : holds (Scalar.maxOf x y) := by
    unfold Scalar.maxOf
    split
    · exact hy
    · exact hx
  cases xs with
  | nil => exact zero
  | cons x rest =>
    change holds (rest.foldl Scalar.maxOf x)
    induction rest generalizing x with
    | nil => exact each x List.mem_cons_self
    | cons y rest ih =>
      obtain ⟨hx, hy, behind⟩ := List.forall_mem_cons.mp each |>.imp_right List.forall_mem_cons.mp
      exact ih _ (List.forall_mem_cons.mpr ⟨greater hx hy, behind⟩)

/-- The length of a timeline is a number. -/
theorem Timeline.duration_isSome (timeline : Timeline Double) :
    timeline.duration.position?.isSome := by
  let number (x : Double) : Prop := x.position?.isSome
  have zero : (Scalar.zero : Double).position?.isSome := by rw [Double.position?_zero]; rfl
  refine maximum_of_forall (show number Scalar.zero from zero) fun stop mem => ?_
  obtain ⟨clip, -, rfl⟩ := List.mem_map.mp mem
  exact Double.position?_add_isSome clip.times_nonneg.1 clip.times_nonneg.2.1

namespace ExportJob

/-- The status in which an export ends that fails: it was cancelled, or it failed. -/
def statusOf : Failure → ExportStatus
  | .render (.cancelled ..) | .taskCancelled => .cancelled
  | _ => .failed

/-! ### Callers -/

/-- Others see to it that no process is started, and leave alone what an export says of itself. -/
structure Untouched (before after : Scene ExportJob) : Prop where
  station : before.station.GoesOn after.station
  settings : after.job.settings = before.job.settings
  progress : after.job.progress = before.job.progress

/-- Callers who only look on. -/
structure Caller.LeavesAlone (caller : Caller) : Prop where
  onReport : ∀ progress before, Keeps (Untouched before) (caller.onReport progress)
  ask : ∀ before, Keeps (Untouched before) caller.ask

theorem Untouched.refl (scene : Scene ExportJob) : Untouched scene scene := ⟨.refl _, rfl, rfl⟩

/-- Whoever answers from a list only looks on. -/
theorem leavesAlone_default : Caller.LeavesAlone {} where
  onReport _ _ := Keeps.pure
  ask before scene h := by
    change Ensures askCancelled scene _ _
    unfold askCancelled
    rw [ensures_bind, ensures_job]
    split
    · exact h
    · exact ensures_bind.mpr ⟨h.station, h.settings, h.progress⟩

/-! ### Where an export stands -/

variable (caller : Caller) (timeline : Timeline Double) (media : MediaLibrary) (settings : ExportOptions)
  (start : Scene ExportJob)

/-- The composition that is encoded. -/
def composition? : Except ComposeError (Composition Double) :=
  composeOverlay timeline { media, useProxies := false, pathExists := fun _ => false } start.job.settings
    (.upTo timeline.duration) false

/-- What must hold before a process is started: the timeline shows something, all of it was composed,
and the caller, asked then, wants to go on. -/
structure Ready : Prop where
  long : Scalar.zero < timeline.duration
  shown : timeline.enabledClips ≠ []
  goes : ∃ composition asked next, prepare caller timeline media start = .ok composition asked ∧
    composition? timeline media start = .ok composition ∧ composition.diagnostics = [] ∧
    caller.ask asked = .ok false next

/-- The failures that an export does not see coming. -/
inductive Unforeseen : Failure → Prop
  | composing {cause : ComposeError} (h : composition? timeline media start = .error cause) :
    Unforeseen (Failure.ofCompose cause)
  | reporting {progress : ExportProgress} {scene next : Scene ExportJob} {failure : Failure}
    (h : caller.onReport progress scene = .error failure next) : Unforeseen failure
  | asking {scene next : Scene ExportJob} {failure : Failure}
    (h : caller.ask scene = .error failure next) : Unforeseen failure
  | folders {files : FileTree} {cause : FileError}
    (h : files.makeFolders (Path.ofText settings.outputPath).parent = .error cause) :
    Unforeseen (.file cause)
  | command {composition : Composition Double} {encoder : String} {cause : NumberError}
    (h : exportCommand encoder composition settings = .error cause) : Unforeseen (.number cause)
  | encoding {options : RunOptions ExportJob} {command : List String} {scene next : Scene ExportJob}
    {failure : Failure} (h : SceneAction.run options command scene = .error failure next) :
    Unforeseen failure

/-- Where an export stands that has failed: it tells the failure, or it did not see it coming. Then it is
underway, unless a caller failed who was told of the end. -/
inductive Stands (failure : Failure) (progress : ExportProgress) : Prop
  | told (status : progress.status = statusOf failure) (error : progress.error.isSome)
  | underway (unforeseen : Unforeseen caller timeline media settings start failure)
    (status : progress.status = .processing) (error : progress.error = start.job.progress.error)
  | completed {told : ExportProgress} {scene next : Scene ExportJob}
    (reporting : caller.onReport told scene = .error failure next)
    (status : progress.status = .completed) (percent : progress.percent = 100)

/-- An export has failed. -/
structure Fell (failure : Failure) (scene : Scene ExportJob) : Prop where
  stands : Stands caller timeline media settings start failure scene.job.progress
  percent : scene.job.progress.percent ≤ 100
  starts : start.station.GoesOn scene.station ∨ Ready caller timeline media start

/-- An export that is in a status since it began. -/
structure Underway (status : ExportStatus) (scene : Scene ExportJob) : Prop where
  settings : scene.job.settings = start.job.settings
  status : scene.job.progress.status = status
  error : scene.job.progress.error = start.job.progress.error
  percent : scene.job.progress.percent ≤ 100
  starts : start.station.GoesOn scene.station ∨ Ready caller timeline media start

variable {caller timeline media settings start} {status : ExportStatus} {scene : Scene ExportJob}
  {α : Type} {returns : α → Scene ExportJob → Prop}

namespace Underway

theorem untouched (h : Underway caller timeline media start status scene) {next : Scene ExportJob}
    (others : Untouched scene next) : Underway caller timeline media start status next where
  settings := others.settings.trans h.settings
  status := others.progress ▸ h.status
  error := others.progress ▸ h.error
  percent := others.progress ▸ h.percent
  starts := h.starts.imp_left fun goesOn => goesOn.trans others.station

theorem lasts : Lasts (Underway caller timeline media start status) := fun _ _ h goesOn =>
  h.untouched ⟨goesOn, rfl, rfl⟩

/-- Another status, which was set by hand. -/
theorem set (h : Underway caller timeline media start status scene) (next : ExportStatus) :
    Underway caller timeline media start next
      { scene with job := { scene.job with progress := { scene.job.progress with status := next } } } :=
  ⟨h.settings, rfl, h.error, h.percent, h.starts⟩

/-- A process may be started once all that must hold does. -/
theorem starting (h : Underway caller timeline media start status scene)
    (ready : Ready caller timeline media start) (command : List String) :
    Underway caller timeline media start status (scene.starting command) :=
  ⟨h.settings, h.status, h.error, h.percent, .inr ready⟩

/-- What fails without having been seen coming leaves an export underway. -/
theorem fell (h : Underway caller timeline media start .processing scene) {failure : Failure}
    (unforeseen : Unforeseen caller timeline media settings start failure) :
    Fell caller timeline media settings start failure scene :=
  ⟨.underway unforeseen h.status h.error, h.percent, h.starts⟩

end Underway

theorem resolves_endWith {last : ExportStatus} {message : String} {cause : RenderFailure}
    {fails : Failure → Scene ExportJob → Prop} :
    Resolves (endWith last message cause : ExportAction α) scene returns fails ↔
      fails (.render cause) { scene with job := { scene.job with
        progress := { scene.job.progress with status := last, error := some message } } } := Iff.rfl

theorem resolves_setStatus {next : ExportStatus} {action : ExportAction α}
    {fails : Failure → Scene ExportJob → Prop} :
    Resolves (do
        setProgress { (← SceneAction.job).progress with status := next }
        action) scene returns fails ↔
      Resolves action
        { scene with job := { scene.job with progress := { scene.job.progress with status := next } } }
        returns fails := Iff.rfl

theorem resolves_job {action : ExportJob → ExportAction α} {fails : Failure → Scene ExportJob → Prop} :
    Resolves (SceneAction.job >>= action) scene returns fails ↔
      Resolves (action scene.job) scene returns fails := Iff.rfl

/-- An export that sees a failure tells it. -/
theorem endWith_fell (h : Underway caller timeline media start status scene) {last : ExportStatus}
    {message : String} {cause : RenderFailure} (truth : last = statusOf (.render cause)) :
    Resolves (endWith last message cause : ExportAction α) scene returns
      (Fell caller timeline media settings start) :=
  resolves_endWith.mpr ⟨.told truth rfl, h.percent, h.starts⟩

theorem report_resolves (alone : caller.LeavesAlone) (h : Underway caller timeline media start status scene)
    {percent : Double} (le : percent ≤ 100) (step : String) (remaining : Option Double) :
    Resolves (report caller percent step remaining) scene
      (fun _ next => Underway caller timeline media start status next ∧
        next.job.progress.percent = Scalar.maxOf scene.job.progress.percent percent)
      (fun failure next => (Underway caller timeline media start status next ∧
          next.job.progress.percent = Scalar.maxOf scene.job.progress.percent percent) ∧
        ∃ progress told last, caller.onReport progress told = .error failure last) := by
  unfold report
  rw [resolves_job, resolves_bind]
  let progress : ExportProgress := { scene.job.progress with
    percent := Scalar.maxOf scene.job.progress.percent percent, step := some step, remaining }
  let reported : Scene ExportJob :=
    { scene with job := { scene.job with progress, reports := scene.job.reports ++ [progress] } }
  have here : Underway caller timeline media start status reported :=
    ⟨h.settings, h.status, h.error, Double.maxOf_le h.percent le, h.starts⟩
  have told := Resolves.known (resolves_iff_ensures.mpr
    (alone.onReport progress reported reported (.refl reported)))
  change Resolves (caller.onReport progress) reported _ _
  refine told.mono ?_ ?_
  · rintro _ next ⟨-, others⟩
    exact ⟨here.untouched others, congrArg (·.percent) others.progress⟩
  · rintro failure next ⟨failed, others⟩
    exact ⟨⟨here.untouched others, congrArg (·.percent) others.progress⟩, _, _, _, failed⟩

theorem ask_resolves (settings : ExportOptions) (alone : caller.LeavesAlone)
    (h : Underway caller timeline media start .processing scene) :
    Resolves caller.ask scene
      (fun answer next => caller.ask scene = .ok answer next ∧
        Underway caller timeline media start .processing next)
      (Fell caller timeline media settings start) := by
  have asked := Resolves.known (resolves_iff_ensures.mpr (alone.ask scene scene (.refl scene)))
  refine asked.mono ?_ ?_
  · rintro answer next ⟨answered, others⟩
    exact ⟨answered, h.untouched others⟩
  · rintro failure next ⟨failed, others⟩
    exact (h.untouched others).fell (.asking failed)

section Phases

-- To unfold what an action resolves to is to run the action; here it is known by the lemmas about it.
attribute [local irreducible] Resolves Ensures

/-- An export that is underway reports how far it has come. -/
theorem report_underway (settings : ExportOptions) (alone : caller.LeavesAlone)
    (h : Underway caller timeline media start .processing scene) {percent : Double} (le : percent ≤ 100)
    (step : String) (remaining : Option Double) :
    Resolves (report caller percent step remaining) scene
      (fun _ => Underway caller timeline media start .processing)
      (Fell caller timeline media settings start) := by
  refine (report_resolves alone h le step remaining).mono (fun _ _ h => h.1) ?_
  rintro failure next ⟨⟨underway, -⟩, _, _, _, failed⟩
  exact underway.fell (.reporting failed)

theorem prepare_resolves (settings : ExportOptions) (alone : caller.LeavesAlone)
    (h : Underway caller timeline media start status scene) :
    Resolves (prepare caller timeline media) scene
      (fun composition next => Underway caller timeline media start .processing next ∧
        Scalar.zero < timeline.duration ∧ timeline.enabledClips ≠ [] ∧
        composition? timeline media start = .ok composition ∧ composition.diagnostics = [])
      (Fell caller timeline media settings start) := by
  unfold prepare
  split
  · exact resolves_bind.mpr (endWith_fell h rfl)
  next shows =>
  simp only [Bool.or_eq_true, decide_eq_true_eq, List.isEmpty_iff, not_or] at shows
  obtain ⟨notShort, shown⟩ := shows
  have long := Double.zero_lt_of_not_le timeline.duration_isSome notShort
  rw [resolves_setStatus, resolves_bind]
  refine (report_underway settings alone (h.set .processing) Double.isPercentage_zero.2 _ _).mono ?_
    fun _ _ fell => fell
  intro _ next hnext
  rw [resolves_job, hnext.settings]
  refine Resolves.liftM_mapError_bind (fun composition composed => ?_) fun cause failed => ?_
  · dsimp only
    split
    · exact resolves_bind.mpr (endWith_fell hnext rfl)
    · next complete =>
      have none : composition.diagnostics = [] := by
        simpa [Composition.complete] using complete
      exact resolves_pure.mpr ⟨hnext, long, shown, composed, none⟩
  · exact hnext.fell (.composing failed)

/-- Whoever cancels an export, or is told how far it has come, leaves it underway. -/
theorem keep_options (timeline : Timeline Double) (media : MediaLibrary) (start : Scene ExportJob)
    (alone : caller.LeavesAlone) (key : Option String) (duration : Option Double) :
    RunOptions.Keep
      { key, duration, controls, onUpdate := fun update => report caller update.percent "Encoding" update.remaining }
      (Underway caller timeline media start .processing) where
  cancel := .after keeps_job fun _ =>
    Underway.lasts.persists.cancelThen _ fun _ => Underway.lasts.persists.note rfl
  runAgain := Keeps.pure
  onUpdate update percentage scene h := by
    have told := report_resolves alone h percentage.2 "Encoding" update.remaining
    exact resolves_iff_ensures.mp (told.mono (fun _ _ h => h.1) fun _ _ h => h.1.1)

theorem encode_resolves (alone : caller.LeavesAlone) (composition : Composition Double) (duration : Double)
    (ready : Ready caller timeline media start)
    (h : Underway caller timeline media start .processing scene) :
    Resolves (encode caller composition duration settings) scene
      (fun _ => Underway caller timeline media start .processing)
      (Fell caller timeline media settings start) := by
  have folders : Resolves
      (SceneAction.onFiles fun files => files.makeFolders (Path.ofText settings.outputPath).parent) scene
      (fun _ => Underway caller timeline media start .processing)
      (Fell caller timeline media settings start) := by
    refine resolves_onFiles (fun files _ => ?_) fun cause failed => h.fell (.folders failed)
    exact Underway.lasts scene _ h (Station.goesOn_of_eq rfl)
  unfold encode
  rw [resolves_bind]
  refine folders.mono (fun _ made hmade => ?_) fun _ _ fell => fell
  rw [resolves_job]
  refine Resolves.liftM_mapError_bind (fun command _ => ?_) fun cause failed => ?_
  · rw [resolves_bind]
    refine (report_underway settings alone hmade (by decide +kernel) _ _).mono
      (fun _ begun hbegun => ?_) fun _ _ fell => fell
    have keep := keep_options timeline media start alone (some made.job.key) (some duration)
    have ran := Underway.lasts.run Underway.lasts keep (fun _ h => h.starting ready command) hbegun
    refine (resolves_iff_ensures.mpr ran).known.mono (fun _ last hlast => hlast.2) ?_
    rintro failure last ⟨failed, hlast⟩
    exact (or_self_iff.mp hlast).fell (.encoding failed)
  · exact hmade.fell (.command failed)

theorem conclude_resolves (alone : caller.LeavesAlone) (result : RunOutcome) (outcome : ExportOutcome)
    (h : Underway caller timeline media start .processing scene) :
    Resolves (conclude caller result outcome) scene
      (fun made last => made = outcome ∧ last.job.progress.percent = 100 ∧
        Underway caller timeline media start .completed last)
      (Fell caller timeline media settings start) := by
  unfold conclude endCancelled
  dsimp only
  split
  · exact resolves_bind.mpr (endWith_fell h rfl)
  split
  · exact resolves_bind.mpr (endWith_fell h rfl)
  rw [resolves_bind]
  refine (ask_resolves settings alone h).mono ?_ fun _ _ fell => fell
  rintro answer next ⟨-, hnext⟩
  split
  · exact resolves_bind.mpr (endWith_fell hnext rfl)
  split
  · exact resolves_bind.mpr (endWith_fell hnext rfl)
  have done := hnext.set .completed
  rw [resolves_setStatus, resolves_bind]
  refine (report_resolves alone done Double.isPercentage_hundred.2 _ _).mono ?_ ?_
  · rintro _ last ⟨hlast, percent⟩
    exact resolves_pure.mpr ⟨rfl, percent.trans (Double.maxOf_hundred done.percent), hlast⟩
  · rintro failure last ⟨⟨hlast, percent⟩, _, _, _, failed⟩
    exact ⟨.completed failed hlast.status (percent.trans (Double.maxOf_hundred done.percent)),
      hlast.percent, hlast.starts⟩

/-- A timeline that shows a second of a film. -/
def oneShot : Timeline Double where
  tracks := [{
    id := "shots", kind := .video, volume := 1
    clips := [{
      id := "shot", mediaId := some "film", trackId := "shots"
      start := 0, duration := 1, mediaIn := 0, mediaOut := 1
      times_nonneg := by decide +kernel }] }]

def filmOnly : MediaLibrary := [("film", { id := "film", type := .video, path := "film.mp4" })]

/-- An export into a folder. -/
def intoFolder : ExportOptions := { outputPath := "out/shot.mp4" }

/-- The scene of an export with a plan for the encoder. -/
def exporting (plan : ProcessPlan) (files : FileTree) : Scene ExportJob where
  station := { grace := 1, tailLength := 0, plans := [plan], files }
  job := { id := "shot", settings := {}, encoderPath := "encoder" }

/-- Whether an export failed in some way and says that it goes on. -/
def failsUntold (way : Failure → Bool) : EStateM.Result Failure (Scene ExportJob) ExportResult → Bool
  | .ok .. => false
  | .error failure last =>
    way failure && decide (last.job.progress.status = .processing) && last.job.progress.error.isNone

theorem exists_of_failsUntold {way : Failure → Bool}
    {result : EStateM.Result Failure (Scene ExportJob) ExportResult}
    (h : failsUntold way result = true) : ∃ failure last, result = .error failure last ∧
      way failure = true ∧ last.job.progress.status = .processing ∧ last.job.progress.error = none := by
  cases result with
  | ok _ last => cases h
  | error failure last =>
    simp only [failsUntold, Bool.and_eq_true, decide_eq_true_eq, Option.isNone_iff_eq_none] at h
    exact ⟨failure, last, rfl, h.1.1, h.1.2, h.2⟩

/-- The task was stopped. -/
def isStop : Failure → Bool
  | .taskCancelled => true
  | _ => false

/-- Something is wrong with a file. -/
def isTrouble : Failure → Bool
  | .file _ => true
  | _ => false

theorem isStop_iff {failure : Failure} : isStop failure = true ↔ failure = .taskCancelled := by
  cases failure <;> simp [isStop]

theorem isTrouble_iff {failure : Failure} : isTrouble failure = true ↔ ∃ cause, failure = .file cause := by
  cases failure <;> simp [isTrouble]

end Phases

end ExportJob

end Montage
