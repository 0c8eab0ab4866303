import Montage.Proofs.Run.Holder
import Montage.Proofs.Run.Playback

/-!
# Whether a run leaves its process behind

A run that comes back has seen its process to its end, and so has one whose task was stopped: it asks
the process to end, waits, and kills it if need be. But a run whose reading fails, because a line
cannot be read or because what is told of the progress fails, gives back its key and leaves the
process as it is; so does one whose task is stopped again while it waits, and one that finds another
process under its key.

## Main definitions

* `Desertion` — the ways in which a run may end while its process is still there
* `HasLeft` — a run is over, and its key is in use for others only

## Main results

* `run_ends` — a run begins, ends, and comes back with what its end reports
* `run_leaves` — a run that does not desert its process sees it out, and its key is its own no more
* `undisturbed_run_deserts` — in a run that nobody disturbs, every failure but a stop leaves the
  process behind
-/

namespace Montage

open SceneAction

variable {σ α : Type} {traffic : Traffic} {options : RunOptions σ} {run : EncoderRun}
  {station : Station} {place : Nat}

/-! ### How a run treats its process -/

/-- A run has no process, or one that is not there any more. -/
def Station.Gone (station : Station) (place : Option Nat) : Prop :=
  ∀ p, place = some p → station.isThere p = false

/-- Reading a process raises a failure: a line cannot be read, or what is told of the progress
fails. -/
def SceneAction.RunOptions.Raises (options : RunOptions σ) (failure : Failure) : Prop :=
  (∃ cause, failure = .number cause) ∨
    ∃ update scene next, options.onUpdate update scene = .error failure next

/-- What has stopped a reading is accounted for. -/
def SceneAction.RunOptions.Explains (options : RunOptions σ) (reading : Reading) : Prop :=
  ∀ failure, reading.failure = some failure → options.Raises failure

/-- The ways in which a run may end while its process is still there. -/
inductive Desertion (options : RunOptions σ) (plan : ProcessPlan) : Failure → Prop
  /-- Reading the process failed, and not because the task was stopped. -/
  | reading {failure : Failure} (raised : options.Raises failure) (unstopped : failure ≠ .taskCancelled) :
    Desertion options plan failure
  /-- The key had another process by then. -/
  | shutOut {key : String} (same : options.key = some key) : Desertion options plan (.keyInUse key)
  /-- The task was stopped while the end of the process was awaited that it had told to end. -/
  | again {what : Intervention} (among : what ∈ plan.duringEnd)
    (stops : options.controls.Stops what) : Desertion options plan .taskCancelled

/-- A run comes back, and its process is gone. -/
def Returns (traffic : Traffic) (options : RunOptions σ) (outcome : RunOutcome) (station : Station) :
    Prop :=
  ∃ place ending, At traffic ⟨options.key, place, .over ending⟩ station ∧ ending.returns = true ∧
    outcome.failure = ending.failure? ∧ station.Gone place

/-- A run fails, and its process is gone unless the run deserts it. -/
def Fails (traffic : Traffic) (options : RunOptions σ) (plan : ProcessPlan) (failure : Failure)
    (station : Station) : Prop :=
  ∃ place ending, At traffic ⟨options.key, place, .over ending⟩ station ∧ ending.returns = false ∧
    (station.Gone place ∨ Desertion options plan failure)

theorem Station.gone_none : station.Gone none := fun _ h => absurd h (by simp)

theorem Station.gone_some (h : station.isThere place = false) : station.Gone (some place) := by
  rintro _ ⟨⟩
  exact h

theorem Reading.failure_feed (reading : Reading) (stream : Stream) (line : String) :
    (reading.feed stream line).2.failure = reading.failure := by
  have kept (stream : Stream) : (reading.keep stream line).failure = reading.failure := by
    cases stream <;> simp only [Reading.keep]
  exact kept stream

/-- What is read of some lines fails in one of two ways. -/
theorem readLines_raises (stream : Stream) (lines : List String) {reading : Reading}
    (h : options.Explains reading) (scene : Scene σ) :
    Ensures (readLines options stream lines reading) scene
      (fun read _ => options.Explains read.2)
      fun _ => True := by
  -- The first failure stays.
  have fails {reading : Reading} (h : options.Explains reading)
      {cause : Failure} (raised : options.Raises cause) : options.Explains (reading.fail cause) := by
    intro failure failed
    rw [Reading.fail] at failed
    cases first : reading.failure with
    | none =>
      rw [first] at failed
      obtain rfl := Option.some.inj failed
      exact raised
    | some earlier =>
      rw [first] at failed
      exact h failure (first.trans failed)
  induction lines generalizing reading scene with
  | nil => exact h
  | cons line rest ih =>
    have kept : options.Explains (reading.feed stream line).2 := by
      intro failure failed
      rw [Reading.failure_feed] at failed
      exact h failure failed
    unfold readLines
    split
    · next cause reading' fed =>
      rw [fed] at kept
      exact fails kept (.inl ⟨cause, rfl⟩)
    · next reading' fed =>
      rw [fed] at kept
      exact ih kept scene
    · next update reading' fed =>
      rw [fed] at kept
      rw [ensures_bind]
      have told : Ensures (tryCatch (do options.onUpdate update; return none)
          fun failure => return some failure) scene
          (fun failed _ => ∀ failure, failed = some failure → options.Raises failure)
          fun _ => False := by
        refine resolves_iff_ensures.mp (Resolves.tryCatch (resolves_bind.mpr ?_))
        refine resolves_self.mono (fun _ _ _ failure none => absurd none (by simp)) ?_
        rintro cause next thrown _ ⟨⟩
        exact .inr ⟨update, scene, next, thrown⟩
      refine told.mono (fun failed middle raised => ?_) fun _ => False.elim
      cases failed with
      | some failure => exact fails kept (raised failure rfl)
      | none => exact ih kept middle

/-- What a stream brings fails in one of two ways. -/
theorem readStream_raises (stream : Stream) {aside : Reading → SceneAction σ Reading}
    (besides : ∀ (reading : Reading) scene, options.Explains reading →
      Ensures (aside reading) scene
        (fun reading _ => options.Explains reading)
        fun _ => True)
    (pending : List Char) (items : List StreamItem) {reading : Reading}
    (h : options.Explains reading) (scene : Scene σ) :
    Ensures (readStream options stream aside pending items reading) scene
      (fun reading _ => options.Explains reading)
      fun _ => True := by
  have last (pending : List Char) {reading : Reading}
      (h : options.Explains reading) (scene : Scene σ) :
      Ensures (do return (← readLines options stream (Lines.finish pending) reading).2) scene
        (fun reading _ => options.Explains reading)
        fun _ => True := ensures_bind.mpr (readLines_raises stream _ h scene)
  induction items generalizing pending reading scene with
  | nil => exact last pending h scene
  | cons item rest ih =>
    cases item with
    | data bytes =>
      unfold readStream
      split
      · exact last pending h scene
      · rw [ensures_bind]
        refine (readLines_raises stream _ h scene).mono (fun read middle raises => ?_) fun _ => id
        obtain ⟨goesOn, reading⟩ := read
        cases goesOn with
        | false => exact raises
        | true => exact ih _ raises middle
    | meanwhile what =>
      rw [readStream]
      refine .bind_of_forall fun course middle => ?_
      cases course with
      | stops => exact h
      | done => exact ih pending h middle
      | waits more =>
        rw [ensures_bind]
        refine (besides reading middle h).mono (fun reading next raises => ?_) fun _ => id
        exact .bind_of_forall fun _ next => ih pending raises next

/-- Both streams fail in one of two ways. -/
theorem readBoth_raises (plan : ProcessPlan) (scene : Scene σ) :
    Ensures (readBoth options plan) scene
      (fun reading _ => options.Explains reading)
      fun _ => True := by
  have messages (reading : Reading) (scene : Scene σ)
      (h : options.Explains reading) :
      Ensures (readMessages options plan.messages reading) scene
        (fun reading _ => options.Explains reading)
        fun _ => True := by
    unfold readMessages
    split
    · exact h
    · have begun : options.Explains { reading with messagesBegun := true } := h
      have besides (reading : Reading) (scene : Scene σ) (h : options.Explains reading) :
          Ensures (pure reading : SceneAction σ Reading) scene
            (fun reading _ => options.Explains reading) fun _ => True := ensures_pure.mpr h
      exact readStream_raises .messages besides [] _ begun scene
  unfold readBoth
  dsimp only
  rw [ensures_bind, ensures_station, ensures_bind]
  refine (readStream_raises .output messages [] plan.output ?_ scene).mono
    (fun reading next raises => messages reading next raises) fun _ => id
  exact fun failure none => absurd none (by simp)

/-- A process that was seen out is gone, unless the task was stopped meanwhile. -/
theorem seeOut_gone (h : options.controls.Plays) (plan : ProcessPlan) {process : Process}
    {scene : Scene σ} (there : scene.station.processes[place]? = some process) :
    Ensures (seeOut options.controls plan place) scene
      (fun seen next => (seen = true → next.station.isThere place = false) ∧
        (seen = false → ∃ what ∈ plan.duringEnd, options.controls.Stops what))
      fun _ => False := by
  unfold seeOut
  rw [ensures_bind, ensures_station]
  rcases Station.askToEnd_cases there with ⟨asked, gone⟩ | ⟨awaited, asked, unawaited⟩
  · rw [asked]
    exact ⟨fun _ => (Station.isThere_eq there).trans gone, fun seen => absurd seen (by simp)⟩
  · rw [asked]
    have signalled : (scene.station.signal place .term).processes[place]? =
        some (process.receive .term) := Station.getElem?_signal there .term
    dsimp only
    rw [ensures_bind, ensures_setStation]
    cases awaited with
    | false =>
      refine ⟨fun _ => (Station.isThere_eq signalled).trans ?_, fun seen => absurd seen (by simp)⟩
      cases later : (process.receive .term).isThere with
      | false => rfl
      | true => exact absurd ((Process.later_receive process .term).isThere later) (by simp [unawaited])
    | true =>
      rw [if_neg (by simp), ensures_bind]
      let asked : Scene σ := { scene with station := scene.station.signal place .term }
      have others : Ensures (performAll options.controls plan.duringEnd) asked
          (fun _ next => ∃ later, next.station.processes[place]? = some later ∧
            (process.receive .term).Later later) fun _ => False :=
        (plays_performAll h plan.duringEnd).later signalled
      have stops : Ensures (performAll options.controls plan.duringEnd) asked
          (fun goesOn _ => goesOn = false → ∃ one ∈ plan.duringEnd, options.controls.Stops one)
          fun _ => True := performAll_goesOn plan.duringEnd asked
      refine (others.and stops).mono ?_ fun _ h => h.1
      rintro goesOn middle ⟨⟨asked, hasked, later⟩, stops⟩
      cases goesOn with
      | false => exact ⟨fun seen => absurd seen (by simp), fun _ => stops rfl⟩
      | true =>
        rw [if_neg (by simp)]
        unfold killLate
        rw [ensures_bind, ensures_bind, ensures_station, ensures_setStation]
        refine ⟨fun _ => ?_, fun seen => absurd seen (by simp)⟩
        dsimp only
        rcases Station.killLate_cases hasked with ⟨same, ended⟩ | killed
        · rw [same, Station.isThere_eq hasked]
          exact Process.isThere_of_hasEnded ended
        · rw [killed, Station.isThere_eq (Station.getElem?_signal hasked .kill)]
          exact Process.isThere_of_killed later (fun _ => rfl) (Process.later_receive asked .kill)

theorem plays_seeOut (h : options.controls.Plays) (plan : ProcessPlan) (place : Nat) :
    Plays (seeOut options.controls plan place) := by
  intro traffic scene hscene
  unfold seeOut
  rw [ensures_bind, ensures_station]
  have asked := hscene.askToEnd place
  generalize scene.station.askToEnd place = ask at asked
  obtain ⟨awaited, station⟩ := ask
  dsimp only at asked ⊢
  rw [ensures_bind, ensures_setStation]
  cases awaited with
  | false => exact asked
  | true =>
    refine ((plays_performAll h plan.duringEnd).bind fun goesOn => ?_) traffic _ asked
    cases goesOn with
    | false => exact .pure
    | true => exact (plays_killLate place).bind fun _ => .pure

theorem plays_await (h : options.controls.Plays) (plan : ProcessPlan) (place : Nat) :
    Plays (await options.controls plan place) := by
  refine plays_station.bind fun station => ?_
  split
  · exact .pure
  · exact plays_performAll h plan.duringWait

/-- A run whose task is stopped fails, and its process is gone unless the task was stopped again. -/
theorem giveUp_resolves (h : options.Plays) (plan : ProcessPlan) {scene : Scene σ}
    {process : Process} (there : scene.station.processes[place]? = some process)
    (watching : At traffic ⟨options.key, some place, .watching⟩ scene.station) :
    Resolves (giveUp options plan place) scene
      (fun outcome next => Returns traffic options outcome next.station)
      (fun failure next => Fails traffic options plan failure next.station) := by
  unfold giveUp
  have told := (plays_seeOut h.controls plan place).keeps_at scene (watching.stop rfl)
  have seen := (told.and (seeOut_gone h.controls plan there)).mono (fun _ _ h => h) fun _ h => h.1
  refine seen.resolves_bind ?_
  rintro seen next ⟨stopping, gone, again⟩
  rw [resolves_bind, resolves_forKey, resolves_throw]
  cases seen with
  | true =>
    obtain ⟨ending, raised, ended⟩ := stopping.interrupt (.finishStop traffic.runs.length)
      fun later hrun => atStage_eq hrun rfl
    exact ⟨some place, ending, ended, raised, .inl (Station.gone_some (gone rfl))⟩
  | false =>
    obtain ⟨ending, raised, ended⟩ := stopping.interrupt (.stop traffic.runs.length) fun later hrun => by
      change later.onRun _ (later.stop _) = _
      rw [Traffic.onRun, hrun]
      rfl
    obtain ⟨what, among, stops⟩ := again rfl
    exact ⟨some place, ending, ended, raised, .inr (.again among stops)⟩

/-- A run whose process is at its end comes back. -/
theorem conclude_resolves (sound : traffic.Sound) (plan : ProcessPlan) (reading : Reading)
    {scene : Scene σ} {process : Process} (there : scene.station.processes[place]? = some process)
    (watching : At traffic ⟨options.key, some place, .watching⟩ scene.station) :
    Resolves (conclude options plan place reading) scene
      (fun outcome next => Returns traffic options outcome next.station)
      (fun failure next => Fails traffic options plan failure next.station) := by
  have concluded := watching.conclude sound rfl rfl plan.exitCode
  have gone {station : Station}
      (same : station.processes = scene.station.processes.modify place (·.exit plan.exitCode)) :
      station.Gone (some place) := by
    have exited : station.processes[place]? = some (process.exit plan.exitCode) := by
      rw [same, List.getElem?_modify_eq, there]
      rfl
    exact Station.gone_some ((Station.isThere_eq exited).trans (Process.isThere_of_hasEnded rfl))
  unfold conclude
  rw [resolves_bind, resolves_station, resolves_bind, resolves_setStation, resolves_bind,
    resolves_forKey, resolves_bind, resolves_station]
  obtain ⟨key, duration, onUpdate, controls⟩ := options
  cases key with
  | none => exact ⟨_, _, concluded, rfl, failure_ofExit, gone rfl⟩
  | some key =>
    have reported (isMarked : Bool) (same : scene.station.registry.isMarked key = isMarked)
        (code : Int) := congrArg (fun marked => (Ending.concluded marked code).failure?) same
    dsimp only
    split
    · next marked =>
      replace marked : scene.station.registry.isMarked key = true := marked
      dsimp only [Option.map_some, Option.getD_some] at concluded
      rw [marked] at concluded
      exact ⟨_, _, concluded, rfl, failure_ofExit.trans (reported true marked _), gone rfl⟩
    · next unmarked =>
      replace unmarked : scene.station.registry.isMarked key = false :=
        Bool.eq_false_iff.mpr unmarked
      dsimp only [Option.map_some, Option.getD_some] at concluded
      rw [unmarked] at concluded
      exact ⟨_, _, concluded, rfl, failure_ofExit.trans (reported false unmarked _), gone rfl⟩

/-- What a run that watches its process comes to. -/
theorem watch_resolves (h : options.Plays) (sound : traffic.Sound) (plan : ProcessPlan)
    {scene : Scene σ} {process : Process}
    (there : scene.station.processes[place]? = some process)
    (watching : At traffic ⟨options.key, some place, .watching⟩ scene.station) :
    Resolves (watch options plan place) scene
      (fun outcome next => Returns traffic options outcome next.station)
      (fun failure next => Fails traffic options plan failure next.station) := by
  have read := (((plays_readBoth h plan).keeps_at scene watching).and
    ((plays_readBoth h plan).later there)).and (readBoth_raises plan scene)
  unfold watch
  refine (read.mono (fun _ _ h => h) fun _ h => h.1.1).resolves_bind ?_
  rintro reading middle ⟨⟨hmiddle, process', there', -⟩, raises⟩
  dsimp only
  split
  · exact giveUp_resolves h plan there' hmiddle
  next unstopped =>
  split
  · next failure failed =>
    rw [resolves_bind, resolves_forKey, resolves_bind, resolves_throw]
    obtain ⟨ending, raised, ended⟩ := hmiddle.interrupt (.fail traffic.runs.length)
      fun later hrun => atStage_eq hrun rfl
    refine ⟨some place, ending, ended, raised, .inr (.reading (raises failure failed) ?_)⟩
    rintro rfl
    exact unstopped (by simp [Reading.isStopped, failed])
  · have waited := ((plays_await h.controls plan place).keeps_at middle hmiddle).and
      ((plays_await h.controls plan place).later there')
    refine (waited.mono (fun _ _ h => h) fun _ h => h.1).resolves_bind ?_
    rintro goesOn last ⟨hlast, process'', there'', -⟩
    cases goesOn with
    | false => exact giveUp_resolves h plan there'' hlast
    | true => exact conclude_resolves sound plan reading there'' hlast

/-- What a run comes to whose process is there. -/
theorem attend_resolves (h : options.Plays) (sound : traffic.Sound) (plan : ProcessPlan)
    {scene : Scene σ} {before : Station} (spawning : At traffic { key := options.key } before)
    (registry : scene.station.registry = before.registry)
    (processes : scene.station.processes = before.processes ++ [plan.signals]) :
    Resolves (attend options plan before.processes.length) scene
      (fun outcome next => Returns traffic options outcome next.station)
      (fun failure next => Fails traffic options plan failure next.station) := by
  have attached := spawning.attach registry processes
  have there : scene.station.processes[before.processes.length]? = some plan.signals := by
    rw [processes, List.getElem?_concat_length]
  unfold attend
  cases hkey : options.key with
  | none =>
    rw [hkey] at attached
    exact watch_resolves h sound plan there (hkey ▸ attached)
  | some key =>
    rw [hkey] at attached
    dsimp only
    rw [resolves_bind, resolves_station]
    dsimp only [Registry.attachFor] at attached ⊢
    split at attached
    · next registry' same =>
      rw [same]
      let admitted : Scene σ := { scene with station := { scene.station with registry := registry' } }
      have there' : admitted.station.processes[before.processes.length]? = some plan.signals := there
      exact watch_resolves h sound plan there' (hkey ▸ attached)
    · next same =>
      rw [same]
      have told := (plays_seeOut h.controls plan before.processes.length).keeps_at scene attached
      have seen := (told.and (seeOut_gone h.controls plan there)).mono (fun _ _ h => h) fun _ h => h.1
      refine seen.resolves_bind ?_
      rintro seen next ⟨away, gone, again⟩
      cases seen with
      | false =>
        obtain ⟨ending, raised, ended⟩ := away.leave rfl
        obtain ⟨what, among, stops⟩ := again rfl
        exact ⟨_, ending, hkey ▸ ended, raised, .inr (.again among stops)⟩
      | true =>
        have left := away.finish (.leave traffic.runs.length) .turnedAway
          fun later _ _ hrun => atStage_eq hrun rfl
        exact ⟨_, .turnedAway, hkey ▸ left, rfl, rfl, Station.gone_some (gone rfl)⟩
    · next same =>
      rw [same]
      obtain ⟨ending, raised, shutOut⟩ := attached
      exact ⟨_, ending, hkey ▸ shutOut, raised, .inr (.shutOut hkey)⟩

/-- With its key reserved, a run ends in some way: it comes back with what its end reports, or its end
is that of a run that was interrupted. -/
theorem launch_ends (h : options.Plays) (sound : traffic.Sound) (command : List String)
    {scene : Scene σ} (spawning : At traffic { key := options.key } scene.station) :
    Resolves (launch options command) scene
      (fun outcome next => Returns traffic options outcome next.station)
      (fun failure next => Fails traffic options (scene.station.plans.headD {}) failure next.station) := by
  have planned := (plays_nextPlan.keeps_at scene spawning).and (nextPlan_eq scene)
  unfold launch
  refine (planned.mono (fun _ _ h => h) fun _ h => h.1).resolves_bind ?_
  rintro plan middle ⟨hmiddle, rfl⟩
  refine (spawn_plays h.controls command _ hmiddle).resolves_bind ?_
  intro spawned last hlast
  cases spawned with
  | process place =>
    obtain ⟨before, hbefore, rfl, registry, processes⟩ := hlast
    exact attend_resolves h sound _ hbefore registry processes
  | failed reason =>
    dsimp only
    rw [resolves_bind, resolves_forKey]
    have ended := hlast.finish (.failSpawn traffic.runs.length) .notStarted
      fun later _ _ hrun => atStage_eq hrun rfl
    exact ⟨none, .notStarted, ended, rfl, rfl, Station.gone_none⟩
  | stopped =>
    dsimp only
    rw [resolves_bind, resolves_forKey]
    obtain ⟨ending, raised, ended⟩ := hlast.interrupt (.stop traffic.runs.length)
      fun later hrun => by
        change later.onRun _ (later.stop _) = _
        rw [Traffic.onRun, hrun]
        rfl
    exact ⟨none, ending, ended, raised, .inl Station.gone_none⟩

/-- A run begins, and ends in some way: it comes back with what its end reports, or its end is that
of a run that was refused or interrupted. Its process is gone then, unless the run deserts it. -/
theorem run_ends (h : options.Plays) (sound : traffic.Sound) (command : List String)
    {scene : Scene σ} (tallies : Tallies traffic scene.station) :
    Resolves (SceneAction.run options command) scene
      (fun outcome next => Returns traffic options outcome next.station)
      (fun failure next => Fails traffic options (scene.station.plans.headD {}) failure next.station) := by
  refine resolves_run (fun keyless => ?_) (fun key hkey used => ?_) fun key registry hkey reserves => ?_
  · have admits : traffic.registry.admit? none = some scene.station.registry :=
      congrArg some tallies.registry.symm
    exact launch_ends h sound command (keyless ▸ tallies.begin admits)
  · rw [tallies.registry] at used
    have refused : At traffic { key := some key, stage := .over .refused } scene.station :=
      tallies.refuse used
    exact ⟨none, .refused, hkey ▸ refused, rfl, .inl Station.gone_none⟩
  · rw [tallies.registry] at reserves
    have begun : At traffic { key := some key } { scene.station with registry } := tallies.begin reserves
    have spawning : At traffic { key := options.key } { scene.station with registry } := hkey ▸ begun
    let admitted : Scene σ := { scene with station := { scene.station with registry } }
    exact launch_ends h sound command (show At traffic _ admitted.station from spawning)

/-! ### What a run leaves -/

/-- A run is over, and if its key is in use, it is so for a run that is under way. -/
def HasLeft (traffic : Traffic) (key : Option String) (place : Option Nat) (station : Station) : Prop :=
  ∃ later ending, Traffic.Reaches traffic later ∧ Tallies later station ∧
    later.runs[traffic.runs.length]? = some ⟨key, place, .over ending⟩ ∧
    ∀ name, key = some name → station.registry.contains name = true →
      ∃ other ∈ later.runs, other.key = some name ∧ other.stage.isOver = false

theorem At.hasLeft {key : Option String} {place : Option Nat} {ending : Ending}
    (h : At traffic ⟨key, place, .over ending⟩ station) (reached : Traffic.Reaches {} traffic) :
    HasLeft traffic key place station := by
  obtain ⟨later, goes, tallies, -, hrun⟩ := h
  refine ⟨later, ending, goes, tallies, hrun, fun name _ used => ?_⟩
  rw [tallies.registry] at used
  exact Traffic.Reaches.in_use_for (reached.trans goes) used

/-- Nothing is done by others while a process is started, read and awaited. -/
structure ProcessPlan.Quiet (plan : ProcessPlan) : Prop where
  output : ∀ item ∈ plan.output, ∃ bytes, item = .data bytes
  messages : ∀ item ∈ plan.messages, ∃ bytes, item = .data bytes
  duringSpawn : plan.duringSpawn = []
  duringWait : plan.duringWait = []
  duringEnd : plan.duringEnd = []

/-- An action leaves the station alone. -/
def LeavesStation (action : SceneAction σ α) : Prop :=
  ∀ station, Keeps (fun scene => scene.station = station) action

theorem leavesStation_readLines (h : ∀ update, LeavesStation (options.onUpdate update)) (stream : Stream)
    (lines : List String) (reading : Reading) : LeavesStation (readLines options stream lines reading) := by
  intro station
  induction lines generalizing reading with
  | nil => exact Keeps.pure
  | cons line rest ih =>
    unfold readLines
    split
    · exact Keeps.pure
    · exact ih _
    · next update reading' _ =>
      refine Keeps.bind (fun scene hscene => Ensures.tryCatch ?_) fun failed => ?_
      · rw [ensures_bind]
        exact (h update station scene hscene).mono (fun _ _ same => same) fun _ same _ => same
      · cases failed with
        | some failure => exact Keeps.pure
        | none => exact ih _

theorem leavesStation_readStream (h : ∀ update, LeavesStation (options.onUpdate update)) (stream : Stream)
    (aside : Reading → SceneAction σ Reading) {items : List StreamItem}
    (quiet : ∀ item ∈ items, ∃ bytes, item = .data bytes) (pending : List Char) (reading : Reading) :
    LeavesStation (readStream options stream aside pending items reading) := by
  intro station
  have last (pending : List Char) (reading : Reading) :
      Keeps (fun scene => scene.station = station)
        (do return (← readLines options stream (Lines.finish pending) reading).2) :=
    (leavesStation_readLines h stream _ reading station).bind fun _ => Keeps.pure
  induction items generalizing pending reading with
  | nil => exact last pending reading
  | cons item rest ih =>
    obtain ⟨bytes, rfl⟩ := quiet item List.mem_cons_self
    unfold readStream
    split
    · exact last pending reading
    · refine (leavesStation_readLines h stream _ reading station).bind fun read => ?_
      obtain ⟨goesOn, reading⟩ := read
      cases goesOn with
      | false => exact Keeps.pure
      | true => exact ih (fun item hitem => quiet item (List.mem_cons_of_mem _ hitem)) _ _

theorem leavesStation_readBoth (h : ∀ update, LeavesStation (options.onUpdate update)) {plan : ProcessPlan}
    (quiet : plan.Quiet) : LeavesStation (readBoth options plan) := by
  intro station
  have messages (reading : Reading) : Keeps (fun scene => scene.station = station)
      (readMessages options plan.messages reading) := by
    unfold readMessages
    split
    · exact Keeps.pure
    · exact leavesStation_readStream h .messages pure quiet.messages [] _ station
  refine Keeps.bind (fun _ same => same) fun start => ?_
  exact (leavesStation_readStream h .output _ quiet.output [] _ station).bind messages

/-- A run that nobody disturbs and that has its process leaves it as it was started, if it fails and
not because its task was stopped. -/
theorem attend_deserts (h : ∀ update, LeavesStation (options.onUpdate update)) {plan : ProcessPlan}
    (quiet : plan.Quiet) (place : Nat) (scene : Scene σ) :
    Resolves (attend options plan place) scene (fun _ _ => True) fun failure next =>
      failure ≠ .taskCancelled → next.station.processes = scene.station.processes := by
  have seen (scene : Scene σ) : Ensures (seeOut options.controls plan place) scene
      (fun seen _ => seen = true) fun _ => False := by
    unfold seeOut
    rw [ensures_bind, ensures_station, quiet.duringEnd]
    generalize scene.station.askToEnd place = ask
    obtain ⟨awaited, station⟩ := ask
    cases awaited <;> rfl
  have watched (scene : Scene σ) : Resolves (watch options plan place) scene (fun _ _ => True)
      fun failure next =>
        failure ≠ .taskCancelled → next.station.processes = scene.station.processes := by
    have givenUp (middle : Scene σ) : Resolves (giveUp options plan place) middle (fun _ _ => True)
        fun failure next =>
          failure ≠ .taskCancelled → next.station.processes = scene.station.processes :=
      (seen middle).resolves_bind fun _ _ _ => resolves_bind.mpr <| resolves_forKey.mpr <|
        resolves_throw.mpr fun other => absurd rfl other
    unfold watch
    have read := leavesStation_readBoth h quiet scene.station scene rfl
    rw [resolves_bind]
    refine (resolves_iff_ensures.mpr read).mono (fun reading middle same => ?_)
      fun _ _ same _ => congrArg Station.processes same
    dsimp only
    split
    · exact givenUp middle
    split
    · rw [resolves_bind, resolves_forKey, resolves_bind, resolves_throw]
      intro _
      change middle.station.processes = _
      rw [same]
    · have waits : Ensures (await options.controls plan place) middle
          (fun goesOn _ => goesOn = true) fun _ => False := by
        unfold await
        rw [ensures_bind, ensures_station, quiet.duringWait]
        split <;> rfl
      refine waits.resolves_bind fun goesOn last yes => ?_
      subst yes
      -- What comes after the wait cannot fail.
      unfold conclude
      rw [if_neg (by simp), resolves_bind, resolves_station, resolves_bind, resolves_setStation,
        resolves_bind, resolves_forKey, resolves_bind, resolves_station]
      dsimp only
      split
      · rw [resolves_bind, resolves_forKey]
        trivial
      · trivial
  unfold attend
  cases options.key with
  | none => exact watched scene
  | some key =>
    dsimp only
    rw [resolves_bind, resolves_station]
    split
    · next registry _ => exact watched { scene with station := { scene.station with registry } }
    · exact fun _ => rfl
    · refine (seen scene).resolves_bind fun seen middle yes => ?_
      subst yes
      trivial

/-- If nobody disturbs a run, and what is told of the progress leaves the station alone, then every
failure but a stop leaves its process as it was started. -/
theorem launch_deserts (h : ∀ update, LeavesStation (options.onUpdate update)) {scene : Scene σ}
    (quiet : (scene.station.plans.headD {}).Quiet) (command : List String) :
    Resolves (launch options command) scene (fun _ _ => True) fun failure next =>
      failure ≠ .taskCancelled → next.station.processes =
        scene.station.processes ++ [(scene.station.plans.headD {}).signals] := by
  generalize hplan : scene.station.plans.headD {} = plan at quiet ⊢
  have planned : Ensures (nextPlan : SceneAction σ ProcessPlan) scene
      (fun taken next => plan = taken ∧ next.station.processes = scene.station.processes)
      fun _ => False := by
    rw [← hplan]
    unfold nextPlan
    rw [ensures_bind, ensures_station]
    split
    · next none => exact ⟨by rw [none]; rfl, rfl⟩
    · next first rest some => exact ⟨by rw [some]; rfl, rfl⟩
  unfold launch
  refine planned.resolves_bind ?_
  rintro _ middle ⟨rfl, same⟩
  have spawned : Ensures (spawn options.controls command plan) middle
      (fun spawned next => spawned ≠ .stopped ∧ ∀ place, spawned = .process place →
        next.station.processes = scene.station.processes ++ [plan.signals])
      fun _ => False := by
    have noted : Ensures (note (.spawned command)) middle
        (fun _ next => next.station.processes = middle.station.processes) fun _ => False := rfl
    unfold spawn
    rw [ensures_bind, quiet.duringSpawn]
    refine noted.mono (fun _ next kept => ?_) fun _ => id
    dsimp only [performAll]
    cases plan.spawnError with
    | some reason => exact ⟨nofun, nofun⟩
    | none => exact ⟨nofun, fun _ _ => congrArg (· ++ [plan.signals]) (kept.trans same)⟩
  refine spawned.resolves_bind fun spawned last hlast => ?_
  cases spawned with
  | stopped => exact absurd rfl hlast.1
  | failed reason =>
    dsimp only
    rw [resolves_bind, resolves_forKey]
    trivial
  | process place =>
    refine (attend_deserts h quiet place last).mono (fun _ _ => id) fun failure next left other => ?_
    exact (left other).trans (hlast.2 place rfl)

/-- If nobody disturbs a run whose key is free, and what is told of the progress leaves the station
alone, then every failure but a stop leaves its process as it was started. -/
theorem undisturbed_run_deserts (h : ∀ update, LeavesStation (options.onUpdate update)) {scene : Scene σ}
    (quiet : (scene.station.plans.headD {}).Quiet)
    (free : ∀ key, options.key = some key → scene.station.registry.contains key = false)
    (command : List String) :
    Resolves (SceneAction.run options command) scene (fun _ _ => True) fun failure next =>
      failure ≠ .taskCancelled → next.station.processes =
        scene.station.processes ++ [(scene.station.plans.headD {}).signals] := by
  refine resolves_run (fun _ => launch_deserts h quiet command) (fun key hkey used => ?_)
    fun key registry _ _ => ?_
  · exact absurd ((Registry.reserve?_eq_none.mp used).symm.trans (free key hkey)) (by simp)
  · let admitted : Scene σ := { scene with station := { scene.station with registry } }
    exact launch_deserts h (show (admitted.station.plans.headD {}).Quiet from quiet) command

end Montage
