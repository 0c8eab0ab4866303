import Montage.Export.Job
import Montage.Preview.Full
import Montage.Proofs.Action
import Montage.Proofs.Run.Traffic

/-!
# A run of the encoder as traffic

What a scene does to its registry and to its processes is a sequence of events: to cancel a key, to
signal a process, and the stages of a run. So what is known of all traffic is known of every run.

## Main definitions

* `Plays` — an action is no more than events that leave the runs alone that were there before
* `JobControls.Plays` — the same of what others may do meanwhile

## Main results

* `plays_performAll`, `plays_readBoth` — what others do, and the reading of a process
* `At.stop`, `At.interrupt`, `At.conclude`, `At.attach` — the stages of a run
* `resolves_run` — a run is refused, or does what it does with its key reserved
* `run_of_contains` — a run whose key is in use fails
* `PreviewMaker.controls_plays`, `ExportJob.controls_plays` — what others may do to a preview or an
  export
-/

namespace Montage

open SceneAction

variable {σ α β : Type}

/-- A station has the registry and the processes of some traffic. -/
structure Tallies (traffic : Traffic) (station : Station) : Prop where
  registry : station.registry = traffic.registry
  processes : station.processes = traffic.processes

/-- A station shows what events have led to that leave all runs alone that are there. -/
def Continues (traffic : Traffic) (station : Station) : Prop :=
  ∃ later, Traffic.Reaches traffic later ∧ Tallies later station ∧ traffic.runs <+: later.runs

section Stations

variable {traffic : Traffic} {station after : Station}

theorem Tallies.continues (h : Tallies traffic station) : Continues traffic station :=
  ⟨traffic, .refl, h, List.prefix_rfl⟩

theorem Tallies.isAlive (h : Tallies traffic station) : traffic.isAlive = station.isAlive := by
  funext place
  unfold Traffic.isAlive Station.isAlive
  rw [h.processes]
  cases traffic.processes[place]? <;> rfl

/-- An event continues what was before. -/
theorem Continues.next (h : Continues traffic station) (event : RunEvent)
    (tallies : ∀ later, Tallies later station →
      Tallies (later.next event) after ∧ (later.next event).runs = later.runs) :
    Continues traffic after := by
  obtain ⟨later, reached, here, front⟩ := h
  obtain ⟨there, same⟩ := tallies later here
  exact ⟨later.next event, reached.tail ⟨event, trivial, rfl⟩, there, same ▸ front⟩

/-- What else a station knows plays no part. -/
theorem Continues.of_eq (h : Continues traffic station) (registry : after.registry = station.registry)
    (processes : after.processes = station.processes) : Continues traffic after := by
  obtain ⟨later, reached, tallies, front⟩ := h
  exact ⟨later, reached, ⟨registry.trans tallies.registry, processes.trans tallies.processes⟩, front⟩

theorem Continues.signal (h : Continues traffic station) (place : Nat) (signal : Signal) :
    Continues traffic (station.signal place signal) :=
  h.next (.signal place signal) fun _ tallies =>
    ⟨⟨tallies.registry, congrArg (fun processes => processes.modify place (·.receive signal)) tallies.processes⟩, rfl⟩

theorem Continues.askToEnd (h : Continues traffic station) (place : Nat) :
    Continues traffic (station.askToEnd place).2 := by
  unfold Station.askToEnd
  split
  · exact h
  · split
    · exact h
    · exact h.signal place .term

theorem Continues.killLate (h : Continues traffic station) (place : Nat) :
    Continues traffic (station.killLate place) := by
  unfold Station.killLate
  split
  · exact h.signal place .kill
  · exact h

theorem Continues.cancel (h : Continues traffic station) {key : String}
    {found : Option Nat × Registry Nat} (used : station.registry.cancel? key = some found) :
    Continues traffic { station with registry := found.2 } := by
  refine h.next (.cancel key) fun later tallies => ?_
  have cancelled : later.next (.cancel key) =
      { later with registry := found.2, diary := later.diary ++ [.cancels key] } := by
    change later.cancel key = _
    rw [Traffic.cancel, ← tallies.registry, used]
  rw [cancelled]
  exact ⟨⟨rfl, tallies.processes⟩, rfl⟩

end Stations

/-! ### What others do -/

/-- An action is no more than events that leave the runs alone that were there before, and it may
fail. -/
def Attempts (action : SceneAction σ α) : Prop :=
  ∀ traffic, Keeps (fun scene => Continues traffic scene.station) action

/-- The same of an action that does not fail. -/
def Plays (action : SceneAction σ α) : Prop :=
  ∀ traffic scene, Continues traffic scene.station →
    Ensures action scene (fun _ next => Continues traffic next.station) fun _ => False

/-- What is left for later is no more than such events. -/
def Course.Plays : Course σ → Prop
  | .waits rest => Montage.Plays rest
  | .done | .stops => True

/-- The same of an action that may leave something for later. -/
def PlaysCourse (action : SceneAction σ (Course σ)) : Prop :=
  ∀ traffic scene, Continues traffic scene.station →
    Ensures action scene (fun course next => Continues traffic next.station ∧ course.Plays)
      fun _ => False

structure JobControls.Plays (controls : JobControls σ) : Prop where
  cancel : PlaysCourse controls.cancel
  runAgain : Attempts controls.runAgain

section Actions

theorem ensures_station {scene : Scene σ} {returns : Station → Scene σ → Prop}
    {fails : Scene σ → Prop} :
    Ensures station scene returns fails ↔ returns scene.station scene := Iff.rfl

theorem ensures_setStation {scene : Scene σ} {next : Station} {returns : Unit → Scene σ → Prop}
    {fails : Scene σ → Prop} :
    Ensures (setStation next) scene returns fails ↔ returns () { scene with station := next } :=
  Iff.rfl

theorem Plays.pure {a : α} : Plays (Pure.pure a : SceneAction σ α) := fun _ _ h => h

theorem Plays.bind {action : SceneAction σ α} {next : α → SceneAction σ β} (first : Plays action)
    (then' : ∀ a, Plays (next a)) : Plays (action >>= next) := fun traffic scene h =>
  ensures_bind.mpr ((first traffic scene h).mono (fun a middle hm => then' a traffic middle hm)
    fun _ => id)

theorem Attempts.tryCatch {action : SceneAction σ α} {handler : Failure → SceneAction σ α}
    (first : Attempts action) (then' : ∀ failure, Plays (handler failure)) :
    Plays (tryCatch action handler) := fun traffic scene h =>
  Ensures.tryCatch ((first traffic scene h).mono (fun _ _ hnext => hnext)
    fun next hnext failure => then' failure traffic next hnext)

/-- A process stays what it is while others act. -/
theorem Plays.later {action : SceneAction σ α} (h : Plays action) {scene : Scene σ} {place : Nat}
    {process : Process} (there : scene.station.processes[place]? = some process) :
    Ensures action scene
      (fun _ next => ∃ later, next.station.processes[place]? = some later ∧ process.Later later)
      fun _ => False := by
  let traffic : Traffic :=
    { registry := scene.station.registry, processes := scene.station.processes }
  have tallies : Tallies traffic scene.station := ⟨rfl, rfl⟩
  refine (h traffic scene tallies.continues).mono ?_ fun _ => id
  rintro _ next ⟨later, reached, tallies', -⟩
  obtain ⟨last, hlast, follows⟩ := reached.later there
  exact ⟨last, tallies'.processes ▸ hlast, follows⟩

theorem plays_station : Plays (station : SceneAction σ Station) := fun _ _ h => h

theorem plays_note (what : Happening) : Plays (note what : SceneAction σ Unit) :=
  fun _ _ h => h.of_eq rfl rfl

theorem plays_killLate (place : Nat) : Plays (killLate place : SceneAction σ Unit) :=
  fun _ _ h => h.killLate place

theorem plays_beginCancel (key : String) : Plays (beginCancel key : SceneAction σ CancelStart) := by
  intro traffic scene h
  unfold beginCancel
  rw [ensures_bind, ensures_station]
  split
  · exact h
  · next used => exact h.cancel used
  · next place registry used => exact (h.cancel used).askToEnd place

theorem plays_cancel (key : String) : Plays (cancel key : SceneAction σ Bool) := by
  refine (plays_beginCancel key).bind fun start => ?_
  cases start with
  | notFound | done => exact .pure
  | awaits place => exact (plays_killLate place).bind fun _ => .pure

theorem Plays.mapM {visit : α → SceneAction σ β} (each : ∀ a, Plays (visit a)) (items : List α) :
    Plays (items.mapM visit) := by
  induction items with
  | nil => exact .pure
  | cons a rest ih =>
    rw [List.mapM_cons]
    exact (each a).bind fun _ => ih.bind fun _ => .pure

theorem Plays.forIn {visit : α → PUnit → SceneAction σ (ForInStep PUnit)}
    (each : ∀ a, Plays (visit a ⟨⟩)) (items : List α) : Plays (forIn items ⟨⟩ visit) := by
  induction items with
  | nil => exact .pure
  | cons a rest ih =>
    rw [List.forIn_cons]
    refine (each a).bind fun step => ?_
    cases step with
    | done _ => exact .pure
    | yield _ => exact ih

theorem plays_cancelEach (keys : List String) : Plays (cancelEach keys : SceneAction σ Unit) := by
  refine (Plays.mapM plays_beginCancel keys).bind fun starts => ?_
  refine (Plays.forIn (fun start => ?_) starts).bind fun _ => .pure
  cases start with
  | notFound | done => exact .pure
  | awaits place => exact (plays_killLate place).bind fun _ => .pure

/-- An action that is done at once leaves nothing for later. -/
theorem Plays.course {action : SceneAction σ Unit} {course : Course σ} (now : Plays action)
    (later : course.Plays) : PlaysCourse (do action; return course) := fun traffic scene h =>
  ensures_bind.mpr ((now traffic scene h).mono (fun _ _ hnext => ⟨hnext, later⟩) fun _ => id)

theorem PlaysCourse.after {action : SceneAction σ α} {next : α → SceneAction σ (Course σ)}
    (first : Plays action) (then' : ∀ a, PlaysCourse (next a)) : PlaysCourse (action >>= next) :=
  fun traffic scene h => ensures_bind.mpr
    ((first traffic scene h).mono (fun a middle hm => then' a traffic middle hm) fun _ => id)

theorem playsCourse_pure {course : Course σ} (h : course.Plays) :
    PlaysCourse (Pure.pure course) := fun _ _ hscene => ⟨hscene, h⟩

theorem playsCourse_cancelThen (key : String) {after : Bool → SceneAction σ Unit}
    (each : ∀ found, Plays (after found)) : PlaysCourse (cancelThen key after) := by
  refine .after (plays_beginCancel key) fun start => ?_
  cases start with
  | notFound => exact (each false).course trivial
  | done => exact (each true).course trivial
  | awaits place => exact playsCourse_pure ((plays_killLate place).bind fun _ => each true)

variable {controls : JobControls σ}

theorem playsCourse_perform (h : controls.Plays) (what : Intervention) :
    PlaysCourse (perform controls what) := by
  cases what with
  | cancel key => exact playsCourse_cancelThen key fun found => plays_note _
  | cancelFrom start =>
    refine .after plays_station fun station => ?_
    dsimp only
    split
    · exact (plays_note _).course trivial
    · exact playsCourse_pure ((plays_cancelEach _).bind fun _ => plays_note _)
  | cancelJob => exact h.cancel
  | listKeys =>
    exact .after plays_station fun station => (plays_note _).course trivial
  | runAgain => exact (h.runAgain.tryCatch fun _ => plays_note _).course trivial
  | stopTask => exact playsCourse_pure trivial

theorem plays_performAll (h : controls.Plays) (what : List Intervention) :
    Plays (performAll controls what) := by
  induction what with
  | nil => exact .pure
  | cons first rest ih =>
    intro traffic scene hscene
    rw [performAll, ensures_bind]
    refine (playsCourse_perform h first traffic scene hscene).mono ?_ fun _ => id
    rintro course middle ⟨hmiddle, plays⟩
    cases course with
    | stops => exact hmiddle
    | done => exact ih traffic middle hmiddle
    | waits more => exact (plays.bind fun _ => ih) traffic middle hmiddle

/-- Something that others do may stop the task. -/
def JobControls.Stops (controls : JobControls σ) (what : Intervention) : Prop :=
  ∃ scene next, perform controls what scene = .ok .stops next

/-- A task goes on unless something stops it. -/
theorem performAll_goesOn (what : List Intervention) (scene : Scene σ) :
    Ensures (performAll controls what) scene
      (fun goesOn _ => goesOn = false → ∃ one ∈ what, controls.Stops one) fun _ => True := by
  induction what generalizing scene with
  | nil => exact fun stopped => absurd stopped (by simp)
  | cons first rest ih =>
    have behind (action : SceneAction σ Unit) (scene : Scene σ) :
        Ensures (do action; performAll controls rest) scene
          (fun goesOn _ => goesOn = false → ∃ one ∈ first :: rest, controls.Stops one)
          fun _ => True := by
      refine .bind_of_forall fun _ middle => (ih middle).mono (fun _ _ stops stopped => ?_) fun _ => id
      obtain ⟨one, hone, h⟩ := stops stopped
      exact ⟨one, List.mem_cons_of_mem _ hone, h⟩
    rw [performAll, ensures_bind]
    unfold Ensures
    cases hrun : perform controls first scene with
    | error failure next => trivial
    | ok course next =>
      cases course with
      | stops => exact fun _ => ⟨first, List.mem_cons_self, scene, next, hrun⟩
      | done => exact behind (pure ()) next
      | waits more => exact behind more next

/-! ### Reading a process -/

variable {options : RunOptions σ}

structure SceneAction.RunOptions.Plays (options : RunOptions σ) : Prop where
  controls : options.controls.Plays
  onUpdate : ∀ update, Attempts (options.onUpdate update)

theorem plays_readLines (h : options.Plays) (stream : Stream) (lines : List String)
    (reading : Reading) : Plays (readLines options stream lines reading) := by
  induction lines generalizing reading with
  | nil => exact .pure
  | cons line rest ih =>
    unfold readLines
    split
    · exact .pure
    · exact ih _
    · refine Plays.bind (Attempts.tryCatch ?_ fun _ => .pure) fun failed => ?_
      · exact fun traffic => (h.onUpdate _ traffic).bind fun _ => Keeps.pure
      · cases failed with
        | some failure => exact .pure
        | none => exact ih _

theorem plays_readStream (h : options.Plays) (stream : Stream)
    {aside : Reading → SceneAction σ Reading} (besides : ∀ reading, Plays (aside reading))
    (pending : List Char) (items : List StreamItem) (reading : Reading) :
    Plays (readStream options stream aside pending items reading) := by
  induction items generalizing pending reading with
  | nil => exact (plays_readLines h stream _ _).bind fun _ => .pure
  | cons item rest ih =>
    cases item with
    | data bytes =>
      unfold readStream
      split
      · exact (plays_readLines h stream _ _).bind fun _ => .pure
      · refine (plays_readLines h stream _ _).bind fun read => ?_
        obtain ⟨goesOn, reading⟩ := read
        cases goesOn with
        | false => exact .pure
        | true => exact ih _ reading
    | meanwhile what =>
      intro traffic scene hscene
      rw [readStream, ensures_bind]
      refine (playsCourse_perform h.controls what traffic scene hscene).mono ?_ fun _ => id
      rintro course middle ⟨hmiddle, plays⟩
      cases course with
      | stops => exact hmiddle
      | done => exact ih pending reading traffic middle hmiddle
      | waits more =>
        exact ((besides reading).bind fun reading => plays.bind fun _ => ih pending reading)
          traffic middle hmiddle

theorem plays_readMessages (h : options.Plays) (items : List StreamItem) (reading : Reading) :
    Plays (readMessages options items reading) := by
  unfold readMessages
  split
  · exact .pure
  · exact plays_readStream h .messages (fun _ => .pure) [] items _

theorem plays_readBoth (h : options.Plays) (plan : ProcessPlan) : Plays (readBoth options plan) := by
  have messages := plays_readMessages h plan.messages
  exact plays_station.bind fun station =>
    (plays_readStream h .output messages [] plan.output _).bind messages

end Actions

/-! ### A run -/

/-- Events have led to what a station shows, a run with its stage among them; the runs that were
there before are left alone. -/
def At (traffic : Traffic) (run : EncoderRun) (station : Station) : Prop :=
  ∃ later, Traffic.Reaches traffic later ∧ Tallies later station ∧ traffic.runs <+: later.runs ∧
    later.runs[traffic.runs.length]? = some run

section Stages

variable {traffic later : Traffic} {run goes : EncoderRun} {station after : Station}

theorem At.of_continues (reached : Traffic.Reaches traffic later) (front : traffic.runs <+: later.runs)
    (hrun : later.runs[traffic.runs.length]? = some run) (h : Continues later after) :
    At traffic run after := by
  obtain ⟨last, reached', tallies, tail, grown⟩ := h
  refine ⟨last, reached.trans reached', tallies, front.trans ⟨tail, grown⟩, ?_⟩
  rw [← grown, List.getElem?_append_left (List.getElem?_eq_some_iff.mp hrun).1, hrun]

theorem At.continues (h : At traffic run station)
    (plays : ∀ later, Continues later station → Continues later after) : At traffic run after := by
  obtain ⟨later, reached, tallies, front, hrun⟩ := h
  exact .of_continues reached front hrun (plays later tallies.continues)

theorem Plays.keeps_at {action : SceneAction σ α} (h : Plays action) :
    ∀ scene, At traffic run scene.station →
      Ensures action scene (fun _ next => At traffic run next.station) fun _ => False := by
  rintro scene ⟨later, reached, tallies, front, hrun⟩
  exact (h later scene tallies.continues).mono (fun _ _ => .of_continues reached front hrun) fun _ => id

/-- An event takes the run to its next stage. -/
theorem At.next (h : At traffic run station) (event : RunEvent)
    (gets : ∀ later, Traffic.Reaches traffic later → Tallies later station →
      later.runs[traffic.runs.length]? = some run →
      Tallies (later.next event) after ∧
        (later.next event).runs = later.runs.set traffic.runs.length goes) :
    At traffic goes after := by
  obtain ⟨later, reached, tallies, ⟨tail, grown⟩, hrun⟩ := h
  obtain ⟨there, put⟩ := gets later reached tallies hrun
  refine ⟨later.next event, reached.tail ⟨event, trivial, rfl⟩, there, ?_, ?_⟩
  · rw [put, ← grown, List.set_append_right _ _ (Nat.le_refl _)]
    exact List.prefix_append _ _
  · rw [put, List.getElem?_set_self (List.getElem?_eq_some_iff.mp hrun).1]

/-- A station whose registry a run has left. -/
def settled (station : Station) (key : Option String) (ending : Ending) : Station :=
  { station with registry := key.elim station.registry (ending.settle station.registry) }

/-- An event ends the run. -/
theorem At.finish (h : At traffic run station) (event : RunEvent) (ending : Ending)
    (ends : ∀ later, Traffic.Reaches traffic later → Tallies later station →
      later.runs[traffic.runs.length]? = some run →
      later.next event = later.finish traffic.runs.length run ending) :
    At traffic { run with stage := .over ending } (settled station run.key ending) := by
  refine h.next event fun later reached tallies hrun => ?_
  rw [ends later reached tallies hrun]
  refine ⟨⟨?_, tallies.processes⟩, rfl⟩
  change run.key.elim station.registry (ending.settle station.registry) =
    run.key.elim later.registry (ending.settle later.registry)
  rw [tallies.registry]

end Stages

section Ends

variable {traffic : Traffic} {options : RunOptions σ} {run : EncoderRun} {station : Station}
  {place : Nat}

theorem atStage_eq {later : Traffic} {n : Nat} {stage : RunStage} {gets : EncoderRun → Traffic}
    (hrun : later.runs[n]? = some run) (same : run.stage = stage) :
    later.atStage n stage gets = gets run := by
  rw [Traffic.atStage, Traffic.onRun, hrun]
  exact if_pos same

/-- The process of a run is told to end once the run is stopped. -/
theorem At.stop (h : At traffic run station) (watching : run.stage = .watching) :
    At traffic { run with stage := .stopping } station := by
  refine h.next (.stop traffic.runs.length) fun later _ tallies hrun => ?_
  have stops : later.next (.stop traffic.runs.length) =
      later.put traffic.runs.length { run with stage := .stopping } := by
    change later.onRun _ (later.stop _) = _
    rw [Traffic.onRun, hrun]
    simp only [Traffic.stop, watching]
  rw [stops]
  exact ⟨⟨tallies.registry, tallies.processes⟩, rfl⟩

/-- A run is interrupted, and gives its key back. -/
theorem At.interrupt (h : At traffic run station) (event : RunEvent)
    (interrupts : ∀ later : Traffic, later.runs[traffic.runs.length]? = some run →
      later.next event = later.interrupt traffic.runs.length run true) :
    ∃ ending, ending.returns = false ∧ At traffic { run with stage := .over ending }
      { station with registry := run.key.elim station.registry station.registry.release } := by
  let ending : Ending := .interrupted true (run.place.any station.isAlive)
  refine ⟨ending, rfl, ?_⟩
  have finished := h.finish event ending fun later _ tallies hrun => by
    rw [interrupts later hrun, Traffic.interrupt, tallies.isAlive]
  exact finished

/-- A run that watches finds its process at its end. -/
theorem At.conclude (h : At traffic run station) (sound : traffic.Sound)
    (watching : run.stage = .watching) (hplace : run.place = some place) (exitCode : Int) :
    let code := (station.processes[place]?.bind (·.exitCode)).getD exitCode
    let ended := { station with processes := station.processes.modify place (·.exit exitCode) }
    let isMarked := (run.key.map station.registry.isMarked).getD false
    At traffic { run with stage := .over (.concluded isMarked code) }
      (settled ended run.key (.concluded isMarked code)) := by
  intro code ended isMarked
  have exited : At traffic run ended := h.continues fun later hlater =>
    hlater.next (.exit place exitCode) fun _ tallies =>
      ⟨⟨tallies.registry, congrArg (fun processes => processes.modify place (·.exit exitCode))
        tallies.processes⟩, rfl⟩
  refine exited.finish (.conclude traffic.runs.length) _ fun later reached tallies hrun => ?_
  have marks : later.marks run = isMarked := by
    unfold Traffic.marks
    rw [← tallies.registry]
  have known : later.exitCode? place = some code := by
    have inside := (sound.reaches reached).places run (List.mem_of_getElem? hrun) place hplace
    rw [← tallies.processes, List.length_modify] at inside
    unfold Traffic.exitCode?
    rw [← tallies.processes, List.getElem?_modify_eq, List.getElem?_eq_getElem inside]
    simp only [code, List.getElem?_eq_getElem inside]
    rfl
  refine (atStage_eq hrun watching).trans ?_
  rw [Traffic.conclude, hplace, Option.bind_some, known, ← marks]

theorem failure_ofExit {isMarked : Bool} {code : Int} {output messageTail : String} :
    (RunOutcome.ofExit isMarked code output messageTail).failure =
      (Ending.concluded isMarked code).failure? := by
  change _ = (RunOutcome.ofExit isMarked code "" "").failure
  unfold RunOutcome.ofExit
  split
  · rfl
  · split <;> rfl

/-- Where it leads to attach the process of a run. -/
theorem At.attach {before : Station} {key : Option String} {process : Process}
    (h : At traffic { key } before) (registry : station.registry = before.registry)
    (processes : station.processes = before.processes ++ [process]) :
    match station.registry.attachFor before.processes.length key with
    | .attached registry =>
      At traffic ⟨key, some before.processes.length, .watching⟩ { station with registry }
    | .cancelled => At traffic ⟨key, some before.processes.length, .turnedAway⟩ station
    | .inUse => ∃ ending, ending.returns = false ∧
        At traffic ⟨key, some before.processes.length, .over ending⟩ station := by
  have place (later : Traffic) (tallies : Tallies later before) :
      later.processes.length = before.processes.length := congrArg List.length tallies.processes.symm
  have attached (later : Traffic) (tallies : Tallies later before)
      (hrun : later.runs[traffic.runs.length]? = some { key }) :
      later.next (.spawn traffic.runs.length process) =
        later.attachProcess traffic.runs.length { key } process := atStage_eq hrun rfl
  have started (later : Traffic) (tallies : Tallies later before) :
      Tallies { later with processes := later.processes ++ [process] } station :=
    ⟨registry.trans tallies.registry, processes.trans (by rw [tallies.processes])⟩
  rw [registry]
  split
  · next registry' same =>
    refine h.next (.spawn traffic.runs.length process) fun later _ tallies hrun => ?_
    rw [tallies.registry] at same
    rw [attached later tallies hrun, Traffic.attachProcess, place later tallies, same]
    exact ⟨⟨rfl, (started later tallies).processes⟩, rfl⟩
  · next same =>
    refine h.next (.spawn traffic.runs.length process) fun later _ tallies hrun => ?_
    rw [tallies.registry] at same
    rw [attached later tallies hrun, Traffic.attachProcess, place later tallies, same]
    exact ⟨⟨(started later tallies).registry, (started later tallies).processes⟩, rfl⟩
  · next same =>
    let ending : Ending := .interrupted false (station.isAlive before.processes.length)
    refine ⟨ending, rfl, h.next (.spawn traffic.runs.length process) fun later _ tallies hrun => ?_⟩
    have here := started later tallies
    rw [tallies.registry] at same
    rw [attached later tallies hrun, Traffic.attachProcess, place later tallies, same]
    have kept : key.elim later.registry (ending.settle later.registry) = later.registry := by
      cases key <;> rfl
    change Tallies (Traffic.interrupt _ _ _ _) _ ∧ (Traffic.interrupt _ _ _ _).runs = _
    rw [Traffic.interrupt, here.isAlive]
    exact ⟨⟨here.registry.trans kept.symm, here.processes⟩, rfl⟩

/-- A run that was turned away is stopped, and leaves its key alone. -/
theorem At.leave (h : At traffic run station) (away : run.stage = .turnedAway) :
    ∃ ending, ending.returns = false ∧ At traffic { run with stage := .over ending } station := by
  let ending : Ending := .interrupted false (run.place.any station.isAlive)
  refine ⟨ending, rfl, ?_⟩
  have finished := h.finish (.stop traffic.runs.length) ending fun later _ tallies hrun => by
    change later.onRun _ (later.stop _) = _
    rw [Traffic.onRun, hrun]
    simp only [Traffic.stop, away, Traffic.interrupt, tallies.isAlive, ending]
  have kept : settled station run.key ending = station := by
    unfold settled
    cases run.key <;> rfl
  exact kept ▸ finished

/-- What a run needs before it is there. -/
theorem spawn_plays (h : options.controls.Plays) (command : List String) (plan : ProcessPlan)
    {scene : Scene σ} (spawning : At traffic run scene.station) :
    Ensures (spawn options.controls command plan) scene
      (fun spawned next =>
        match spawned with
        | .process place => ∃ before, At traffic run before ∧ place = before.processes.length ∧
            next.station.registry = before.registry ∧
            next.station.processes = before.processes ++ [plan.signals]
        | .failed _ | .stopped => At traffic run next.station)
      (fun _ => False) := by
  unfold spawn
  rw [ensures_bind]
  refine ((plays_note _).keeps_at scene spawning).mono ?_ fun _ => False.elim
  intro _ middle hmiddle
  dsimp only
  rw [ensures_bind]
  refine ((plays_performAll h plan.duringSpawn).keeps_at middle hmiddle).mono ?_ fun _ => False.elim
  intro goesOn last hlast
  cases goesOn with
  | false => exact hlast
  | true =>
    cases plan.spawnError with
    | some reason => exact hlast
    | none => exact ⟨last.station, hlast, rfl, rfl, rfl⟩

theorem plays_nextPlan : Plays (nextPlan : SceneAction σ ProcessPlan) := by
  intro traffic scene h
  unfold nextPlan
  rw [ensures_bind, ensures_station]
  split
  · exact h
  · exact h.of_eq rfl rfl

/-- The plan of the next process is the first that is left. -/
theorem nextPlan_eq (scene : Scene σ) : Ensures (nextPlan : SceneAction σ ProcessPlan) scene
    (fun plan _ => plan = scene.station.plans.headD {}) fun _ => False := by
  unfold nextPlan
  rw [ensures_bind, ensures_station]
  split
  · next none =>
    rw [none]
    rfl
  · next plan rest some =>
    rw [some]
    rfl

/-- A run begins that is admitted. -/
theorem Tallies.begin {key : Option String} {registry : Registry Nat} (h : Tallies traffic station)
    (admitted : traffic.registry.admit? key = some registry) :
    At traffic { key } { station with registry } := by
  refine ⟨traffic.begin key, .single ⟨.begin key, trivial, rfl⟩, ?_, ?_, ?_⟩ <;>
    rw [Traffic.begin, admitted]
  · exact ⟨rfl, h.processes⟩
  · exact List.prefix_append _ _
  · exact List.getElem?_concat_length

/-- A run does not begin whose key is in use. -/
theorem Tallies.refuse {key : Option String} (h : Tallies traffic station)
    (used : traffic.registry.admit? key = none) :
    At traffic { key, stage := .over .refused } station := by
  refine ⟨traffic.begin key, .single ⟨.begin key, trivial, rfl⟩, ?_, ?_, ?_⟩ <;> rw [Traffic.begin, used]
  · exact ⟨h.registry, h.processes⟩
  · exact List.prefix_append _ _
  · exact List.getElem?_concat_length

theorem resolves_station {scene : Scene σ} {returns : Station → Scene σ → Prop}
    {fails : Failure → Scene σ → Prop} :
    Resolves SceneAction.station scene returns fails ↔ returns scene.station scene := Iff.rfl

theorem resolves_setStation {scene : Scene σ} {next : Station} {returns : Unit → Scene σ → Prop}
    {fails : Failure → Scene σ → Prop} :
    Resolves (setStation next) scene returns fails ↔ returns () { scene with station := next } :=
  Iff.rfl

theorem resolves_forKey {key : Option String} {change : Registry Nat → String → Registry Nat}
    {scene : Scene σ} {returns : Unit → Scene σ → Prop} {fails : Failure → Scene σ → Prop} :
    Resolves (forKey key change) scene returns fails ↔
      returns () { scene with station := { scene.station with
        registry := key.elim scene.station.registry (change scene.station.registry) } } := by
  cases key <;> exact Iff.rfl

/-- What a run does once its key is reserved. -/
def SceneAction.launch (options : RunOptions σ) (command : List String) :
    SceneAction σ RunOutcome := do
  let plan ← nextPlan
  match ← spawn options.controls command plan with
  | .stopped => do
    forKey options.key Registry.release
    throw .taskCancelled
  | .failed reason => do
    forKey options.key fun registry key => (registry.release key).forgetCancelled key
    return .notStarted (command.head?.getD "") reason
  | .process place => attend options plan place

/-- A run is refused, or does what it does with its key reserved. -/
theorem resolves_run {command : List String} {scene : Scene σ}
    {returns : RunOutcome → Scene σ → Prop} {fails : Failure → Scene σ → Prop}
    (keyless : options.key = none → Resolves (launch options command) scene returns fails)
    (used : ∀ key, options.key = some key → scene.station.registry.reserve? key = none →
      fails (.keyInUse key) scene)
    (reserved : ∀ key registry, options.key = some key →
      scene.station.registry.reserve? key = some registry →
      Resolves (launch options command) { scene with station := { scene.station with registry } }
        returns fails) :
    Resolves (SceneAction.run options command) scene returns fails := by
  unfold SceneAction.run
  cases hkey : options.key with
  | none =>
    have goes := keyless hkey
    unfold launch at goes
    rwa [hkey] at goes
  | some key =>
    dsimp only
    rw [resolves_bind, resolves_station]
    cases reserves : scene.station.registry.reserve? key with
    | none => exact used key hkey reserves
    | some registry =>
      have goes := reserved key registry hkey reserves
      unfold launch at goes
      rw [hkey] at goes
      exact goes

/-- A run whose key is in use fails, and changes nothing. -/
theorem run_of_contains {key : String} {scene : Scene σ} (hkey : options.key = some key)
    (used : scene.station.registry.contains key = true) (command : List String) :
    SceneAction.run options command scene = .error (.keyInUse key) scene := by
  obtain ⟨_, duration, onUpdate, controls⟩ := options
  cases hkey
  have refused : scene.station.registry.reserve? key = none := Registry.reserve?_eq_none.mpr used
  have there : (SceneAction.station : SceneAction σ Station) scene = .ok scene.station scene := rfl
  unfold SceneAction.run
  refine (bind_of_ok there).trans ?_
  rw [refused]
  rfl

end Ends

/-! ### What others do to a preview or an export -/

theorem plays_job : Plays (job : SceneAction σ σ) := fun _ _ h => h

theorem plays_setJob (next : σ) : Plays (setJob next) := fun _ _ h => h

theorem PreviewMaker.plays_requestStop : Plays PreviewMaker.requestStop :=
  plays_job.bind fun _ => plays_station.bind fun _ => plays_setJob _

theorem PreviewMaker.controls_plays : PreviewMaker.controls.Plays where
  cancel := by
    refine .after plays_job fun job => ?_
    dsimp only
    split
    · exact (plays_note _).course trivial
    refine .after plays_requestStop fun _ => .after plays_station fun station => ?_
    split
    · exact playsCourse_cancelThen _ fun _ => plays_note _
    · exact playsCourse_pure ((plays_cancelEach _).bind fun _ => (plays_cancel _).bind fun _ =>
        plays_note _)
  runAgain := by
    intro traffic
    refine Keeps.bind (fun _ h => h) fun job => ?_
    split
    · exact Keeps.throw
    · exact Keeps.pure

theorem ExportJob.controls_plays : ExportJob.controls.Plays where
  cancel := .after plays_job fun _ => playsCourse_cancelThen _ fun _ => plays_note _
  runAgain := fun _ => Keeps.pure

end Montage
