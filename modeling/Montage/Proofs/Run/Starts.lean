import Montage.Proofs.Run.Playback
import Montage.Proofs.Run.Progress

/-!
# A run starts one process

An observer sees which processes are started. Whoever cancels, waits or kills starts none, and a run
of the encoder starts its own before anything else is done. Nor does anybody touch a file meanwhile, but
for the process itself when it is there. So whatever is true of a scene until the next process is started
or the next file is touched stays true while others act, and what is true right after the start of its
process stays true to the end of a run.

## Main definitions

* `Station.GoesOn` — a station goes on without the start of a process
* `Station.Idles` — it goes on with its files and its processes
* `Persists` — a property of scenes that lasts as long as the station idles
* `Lasts` — a property of scenes that only the start of a process can end
* `SceneAction.RunOptions.Keep` — what others do, and what is told, keeps such a property

## Main results

* `Persists.performAll`, `Persists.readBoth` — what others do keeps such a property, and so does reading
* `Persists.run` — a run before its process is started, while it is being started, and once it is there
* `Lasts.run` — what holds right after the start of its process holds at the end of a run
-/

namespace Montage

open SceneAction

variable {σ α β : Type}

/-- Whether a process is started. -/
def Happening.isStart : Happening → Bool
  | .spawned _ => true
  | .signalled _ | .cancelled .. | .cancelledFrom _ | .cancelledJob _ | .listed _ | .ranAgain _ => false

namespace Station

variable {before after station : Station}

/-- A station goes on without the start of a process. -/
def GoesOn (before after : Station) : Prop :=
  ∃ more, after.happenings = before.happenings ++ more ∧ ∀ what ∈ more, what.isStart = false

theorem goesOn_of_eq (h : after.happenings = before.happenings) : before.GoesOn after :=
  ⟨[], by rw [h, List.append_nil], fun _ h => absurd h List.not_mem_nil⟩

protected theorem GoesOn.refl (station : Station) : station.GoesOn station := goesOn_of_eq rfl

theorem GoesOn.trans {last : Station} (h : before.GoesOn after) (h' : after.GoesOn last) :
    before.GoesOn last := by
  obtain ⟨more, seen, quiet⟩ := h
  obtain ⟨more', seen', quiet'⟩ := h'
  refine ⟨more ++ more', by rw [seen', seen, List.append_assoc], fun what hwhat => ?_⟩
  exact (List.mem_append.mp hwhat).elim (quiet what) (quiet' what)

theorem goesOn_happening {what : Happening} (quiet : what.isStart = false)
    (h : after.happenings = before.happenings ++ [what]) : before.GoesOn after :=
  ⟨[what], h, fun _ hwhat => List.mem_singleton.mp hwhat ▸ quiet⟩

/-- A station goes on with its files and its processes; signals may have been sent to these. -/
structure Idles (before after : Station) : Prop where
  goesOn : before.GoesOn after
  files : after.files = before.files
  processes : after.processes.length = before.processes.length

/-- Only the registry and the plans change. -/
theorem idles_of_eq (happenings : after.happenings = before.happenings)
    (files : after.files = before.files) (processes : after.processes = before.processes) :
    before.Idles after := ⟨goesOn_of_eq happenings, files, congrArg List.length processes⟩

protected theorem Idles.refl (station : Station) : station.Idles station := idles_of_eq rfl rfl rfl

theorem Idles.trans {last : Station} (h : before.Idles after) (h' : after.Idles last) :
    before.Idles last :=
  ⟨h.goesOn.trans h'.goesOn, h'.files.trans h.files, h'.processes.trans h.processes⟩

theorem idles_happening {what : Happening} (quiet : what.isStart = false) (station : Station) :
    station.Idles { station with happenings := station.happenings ++ [what] } :=
  ⟨goesOn_happening quiet rfl, rfl, rfl⟩

theorem idles_signal (station : Station) (place : Nat) (signal : Signal) :
    station.Idles (station.signal place signal) :=
  ⟨goesOn_happening rfl rfl, rfl, List.length_modify ..⟩

theorem idles_askToEnd (station : Station) (place : Nat) :
    station.Idles (station.askToEnd place).2 := by
  unfold askToEnd
  split
  · exact .refl station
  · split
    · exact .refl station
    · exact station.idles_signal place .term

theorem idles_killLate (station : Station) (place : Nat) :
    station.Idles (station.killLate place) := by
  unfold killLate
  split
  · exact station.idles_signal place .kill
  · exact .refl station

end Station

/-- A property of scenes that lasts as long as the station idles. -/
def Persists (holds : Scene σ → Prop) : Prop :=
  ∀ scene after, holds scene → scene.station.Idles after → holds { scene with station := after }

/-- A property of scenes that only the start of a process can end, as far as the station goes. -/
def Lasts (holds : Scene σ → Prop) : Prop :=
  ∀ scene after, holds scene → scene.station.GoesOn after → holds { scene with station := after }

theorem Lasts.persists {holds : Scene σ → Prop} (lasts : Lasts holds) : Persists holds :=
  fun scene after h idles => lasts scene after h idles.goesOn

/-- What is left for later keeps a property. -/
def Course.Keep (holds : Scene σ → Prop) : Course σ → Prop
  | .waits rest => Keeps holds rest
  | .done | .stops => True

/-- An action keeps a property, and what it leaves for later does. -/
def KeepsCourse (holds : Scene σ → Prop) (action : SceneAction σ (Course σ)) : Prop :=
  ∀ scene, holds scene → Ensures action scene (fun course next => holds next ∧ course.Keep holds) holds

/-- Whoever cancels a job, runs it once more or is told of its progress keeps a property. -/
structure SceneAction.RunOptions.Keep (options : RunOptions σ) (holds : Scene σ → Prop) : Prop where
  cancel : KeepsCourse holds options.controls.cancel
  runAgain : Keeps holds options.controls.runAgain
  onUpdate : ∀ update, update.percent.IsPercentage → Keeps holds (options.onUpdate update)

section Courses

variable {holds : Scene σ → Prop}

theorem KeepsCourse.after {action : SceneAction σ α} {next : α → SceneAction σ (Course σ)}
    (first : Keeps holds action) (then' : ∀ a, KeepsCourse holds (next a)) :
    KeepsCourse holds (action >>= next) := fun scene h =>
  ensures_bind.mpr ((first scene h).mono (fun a middle hm => then' a middle hm) fun _ => id)

theorem Keeps.course {action : SceneAction σ Unit} {course : Course σ} (now : Keeps holds action)
    (later : course.Keep holds) : KeepsCourse holds (do action; return course) := fun scene h =>
  ensures_bind.mpr ((now scene h).mono (fun _ _ hnext => ⟨hnext, later⟩) fun _ => id)

theorem keepsCourse_pure {course : Course σ} (later : course.Keep holds) :
    KeepsCourse holds (pure course) := fun _ h => ⟨h, later⟩

theorem ensures_job {scene : Scene σ} {returns : σ → Scene σ → Prop} {fails : Scene σ → Prop} :
    Ensures job scene returns fails ↔ returns scene.job scene := Iff.rfl

theorem ensures_setJob {scene : Scene σ} {next : σ} {returns : Unit → Scene σ → Prop}
    {fails : Scene σ → Prop} :
    Ensures (setJob next) scene returns fails ↔ returns () { scene with job := next } := Iff.rfl

/-- A change of the files is made, or it fails. -/
theorem resolves_onFiles {change : FileTree → Except FileError FileTree} {scene : Scene σ}
    {returns : Unit → Scene σ → Prop} {fails : Failure → Scene σ → Prop}
    (changed : ∀ files, change scene.station.files = .ok files →
      returns () { scene with station := { scene.station with files } })
    (failed : ∀ cause, change scene.station.files = .error cause → fails (.file cause) scene) :
    Resolves (onFiles change) scene returns fails := by
  unfold onFiles
  rw [resolves_bind, resolves_station]
  split
  · next files done => exact changed files done
  · next cause broken => exact failed cause broken

theorem keeps_station : Keeps holds (station : SceneAction σ Station) := fun _ h => h

theorem keeps_job : Keeps holds (job : SceneAction σ σ) := fun _ h => h

end Courses

namespace Persists

variable {holds : Scene σ → Prop} (persists : Persists holds)

include persists

/-! ### What others do -/

theorem update {change : Station → Station} (quiet : ∀ station : Station, station.Idles (change station)) :
    Keeps holds (do setStation (change (← station))) := fun scene h =>
  persists scene _ h (quiet scene.station)

theorem note {what : Happening} (quiet : what.isStart = false) :
    Keeps holds (SceneAction.note what) :=
  persists.update (Station.idles_happening quiet)

theorem setRegistry (registry : Registry Nat) : Keeps holds (SceneAction.setRegistry registry) :=
  persists.update fun _ => Station.idles_of_eq rfl rfl rfl

theorem killLate (place : Nat) : Keeps holds (SceneAction.killLate place) :=
  persists.update fun station => station.idles_killLate place

theorem beginCancel (key : String) : Keeps holds (SceneAction.beginCancel key) := by
  intro scene h
  unfold SceneAction.beginCancel
  rw [ensures_bind, ensures_station]
  split
  · exact h
  · exact persists scene _ h (Station.idles_of_eq rfl rfl rfl)
  · next place registry _ =>
    have taken : scene.station.Idles { scene.station with registry } := Station.idles_of_eq rfl rfl rfl
    have asked := Station.idles_askToEnd { scene.station with registry } place
    exact persists scene _ h (taken.trans asked)

theorem cancel (key : String) : Keeps holds (SceneAction.cancel key) := by
  refine (persists.beginCancel key).bind fun start => ?_
  cases start with
  | notFound | done => exact Keeps.pure
  | awaits place => exact (persists.killLate place).bind fun _ => Keeps.pure

theorem cancelEach (keys : List String) : Keeps holds (SceneAction.cancelEach keys) := by
  have starts : Keeps holds (keys.mapM SceneAction.beginCancel) := by
    induction keys with
    | nil => exact Keeps.pure
    | cons key rest ih =>
      rw [List.mapM_cons]
      exact (persists.beginCancel key).bind fun _ => ih.bind fun _ => Keeps.pure
  refine starts.bind fun starts => (Keeps.forIn (fun start _ => ?_) starts _).bind fun _ => Keeps.pure
  cases start with
  | notFound | done => exact Keeps.pure
  | awaits place => exact (persists.killLate place).bind fun _ => Keeps.pure

theorem cancelFrom (start : String) : Keeps holds (SceneAction.cancelFrom start) :=
  keeps_station.bind fun _ => (persists.cancelEach _).bind fun _ => Keeps.pure

theorem cancelThen (key : String) {after : Bool → SceneAction σ Unit}
    (each : ∀ found, Keeps holds (after found)) : KeepsCourse holds (SceneAction.cancelThen key after) := by
  refine .after (persists.beginCancel key) fun start => ?_
  cases start with
  | notFound => exact (each false).course trivial
  | done => exact (each true).course trivial
  | awaits place => exact keepsCourse_pure ((persists.killLate place).bind fun _ => each true)

variable {options : RunOptions σ} (keep : options.Keep holds)

include keep

theorem perform (what : Intervention) : KeepsCourse holds (SceneAction.perform options.controls what) := by
  cases what with
  | cancel key => exact persists.cancelThen key fun found => persists.note rfl
  | cancelFrom start =>
    refine .after (fun _ h => h) fun station => ?_
    dsimp only
    split
    · exact (persists.note rfl).course trivial
    · exact keepsCourse_pure ((persists.cancelEach _).bind fun _ => persists.note rfl)
  | cancelJob => exact keep.cancel
  | listKeys =>
    refine .after (fun _ h => h) fun station => ?_
    exact (persists.note rfl).course trivial
  | runAgain =>
    refine Keeps.course (fun scene h => Ensures.tryCatch ?_) trivial
    exact (keep.runAgain scene h).mono (fun _ _ => id) fun next hnext failure => persists.note rfl next hnext
  | stopTask => exact keepsCourse_pure trivial

theorem performAll (what : List Intervention) :
    Keeps holds (SceneAction.performAll options.controls what) := by
  induction what with
  | nil => exact Keeps.pure
  | cons first rest ih =>
    intro scene h
    rw [SceneAction.performAll, ensures_bind]
    refine (persists.perform keep first scene h).mono ?_ fun _ => id
    rintro course middle ⟨hmiddle, later⟩
    cases course with
    | done => exact ih middle hmiddle
    | stops => exact hmiddle
    | waits more => exact (later.bind fun _ => ih) middle hmiddle

/-! ### Reading a process -/

omit persists in
theorem readLines (stream : Stream) (lines : List String) (reading : Reading) :
    Keeps holds (SceneAction.readLines options stream lines reading) := by
  induction lines generalizing reading with
  | nil => exact Keeps.pure
  | cons line rest ih =>
    unfold SceneAction.readLines
    split
    · exact Keeps.pure
    · exact ih _
    · next update reading' told =>
      refine Keeps.bind (fun scene h => Ensures.tryCatch ?_) fun failed => ?_
      · rw [ensures_bind]
        exact (keep.onUpdate update (Reading.feed_percent told) scene h).mono (fun _ _ h => h) fun _ h _ => h
      · cases failed with
        | some failure => exact Keeps.pure
        | none => exact ih _

theorem readStream (stream : Stream) {aside : Reading → SceneAction σ Reading}
    (besides : ∀ reading, Keeps holds (aside reading)) (pending : List Char) (items : List StreamItem)
    (reading : Reading) : Keeps holds (SceneAction.readStream options stream aside pending items reading) := by
  have last (pending : List Char) (reading : Reading) :
      Keeps holds (do return (← SceneAction.readLines options stream (Lines.finish pending) reading).2) :=
    (readLines keep stream _ reading).bind fun _ => Keeps.pure
  induction items generalizing pending reading with
  | nil => exact last pending reading
  | cons item rest ih =>
    cases item with
    | data bytes =>
      unfold SceneAction.readStream
      split
      · exact last pending reading
      · refine (readLines keep stream _ reading).bind fun read => ?_
        obtain ⟨goesOn, reading⟩ := read
        cases goesOn with
        | false => exact Keeps.pure
        | true => exact ih _ _
    | meanwhile what =>
      intro scene h
      rw [SceneAction.readStream, ensures_bind]
      refine (persists.perform keep what scene h).mono ?_ fun _ => id
      rintro course middle ⟨hmiddle, later⟩
      cases course with
      | stops => exact hmiddle
      | done => exact ih _ _ middle hmiddle
      | waits more =>
        exact ((besides reading).bind fun reading => later.bind fun _ => ih _ reading) middle hmiddle

theorem readBoth (plan : ProcessPlan) : Keeps holds (SceneAction.readBoth options plan) := by
  have messages (reading : Reading) :
      Keeps holds (SceneAction.readMessages options plan.messages reading) := by
    unfold SceneAction.readMessages
    split
    · exact Keeps.pure
    · exact persists.readStream keep .messages (fun _ => Keeps.pure) [] _ _
  refine keeps_station.bind fun start => ?_
  exact (persists.readStream keep .output messages [] _ _).bind messages

/-! ### A run -/

omit keep in
theorem forKey (key : Option String) (change : Registry Nat → String → Registry Nat) :
    Keeps holds (SceneAction.forKey key change) := by
  cases key with
  | none => exact Keeps.pure
  | some key => exact fun scene h => persists scene _ h (Station.idles_of_eq rfl rfl rfl)

theorem seeOut (plan : ProcessPlan) (place : Nat) :
    Keeps holds (SceneAction.seeOut options.controls plan place) := by
  intro scene h
  unfold SceneAction.seeOut
  rw [ensures_bind, ensures_station]
  have asked := persists scene _ h (scene.station.idles_askToEnd place)
  generalize scene.station.askToEnd place = ask at asked
  obtain ⟨awaited, station⟩ := ask
  dsimp only at asked ⊢
  rw [ensures_bind, ensures_setStation]
  cases awaited with
  | false => exact asked
  | true =>
    refine ((persists.performAll keep plan.duringEnd).bind fun goesOn => ?_) _ asked
    cases goesOn with
    | false => exact Keeps.pure
    | true => exact (persists.killLate place).bind fun _ => Keeps.pure

theorem giveUp (plan : ProcessPlan) (place : Nat) :
    Keeps holds (SceneAction.giveUp options plan place) :=
  (persists.seeOut keep plan place).bind fun _ => (persists.forKey _ _).bind fun _ => Keeps.throw

theorem watch (plan : ProcessPlan) (place : Nat) :
    Keeps holds (SceneAction.watch options plan place) := by
  have waits : Keeps holds (SceneAction.await options.controls plan place) := by
    refine keeps_station.bind fun station => ?_
    split
    · exact Keeps.pure
    · exact persists.performAll keep _
  have concludes (reading : Reading) : Keeps holds (SceneAction.conclude options plan place reading) := by
    intro scene h
    unfold SceneAction.conclude
    rw [ensures_bind, ensures_station]
    dsimp only
    rw [ensures_bind, ensures_setStation]
    refine ((persists.forKey _ _).bind fun _ => keeps_station.bind fun station => ?_) _
      (persists scene _ h ⟨Station.goesOn_of_eq rfl, rfl, List.length_modify ..⟩)
    split
    · exact (persists.forKey _ _).bind fun _ => Keeps.pure
    · exact Keeps.pure
  refine (persists.readBoth keep plan).bind fun reading => ?_
  dsimp only
  split
  · exact persists.giveUp keep plan place
  split
  · exact (persists.forKey _ _).bind fun _ => Keeps.throw
  · refine waits.bind fun goesOn => ?_
    cases goesOn with
    | false => exact persists.giveUp keep plan place
    | true => exact concludes reading

theorem attend (plan : ProcessPlan) (place : Nat) :
    Keeps holds (SceneAction.attend options plan place) := by
  unfold SceneAction.attend
  split
  · exact persists.watch keep plan place
  · refine keeps_station.bind fun station => ?_
    split
    · exact (persists.setRegistry _).bind fun _ => persists.watch keep plan place
    · exact Keeps.throw
    · refine (persists.seeOut keep plan place).bind fun seen => ?_
      cases seen with
      | false => exact Keeps.throw
      | true => exact (persists.forKey _ _).bind fun _ => keeps_station.bind fun _ => Keeps.pure

end Persists

/-! ### From the start of a process to the end of its run -/

/-- The scene in which a process is being started. -/
def Scene.starting (scene : Scene σ) (command : List String) : Scene σ :=
  { scene with station :=
      { scene.station with happenings := scene.station.happenings ++ [.spawned command] } }

/-- The files once a process has written the one that its command names, if it does and can. -/
def ProcessPlan.written (plan : ProcessPlan) (command : List String) (files : FileTree) : FileTree :=
  if plan.writes then
    ((files.writeText (command.getLast?.getD "") "fake media").toOption).getD files
  else files

/-- The scene in which a process is there. -/
def Scene.started (scene : Scene σ) (command : List String) (plan : ProcessPlan) : Scene σ :=
  { scene with station := { scene.station with
      files := plan.written command scene.station.files
      processes := scene.station.processes ++ [plan.signals] } }

section Runs

variable {calm busy running : Scene σ → Prop} {options : RunOptions σ} {command : List String}
  {plan : ProcessPlan} {scene : Scene σ}

/-- A run whose key is reserved starts its process. If it returns without a process it has failed. -/
theorem Persists.launch (before : Persists calm) (between : Persists busy) (after : Persists running)
    (keep : options.Keep busy) (keep' : options.Keep running)
    (starts : ∀ scene, calm scene → busy (scene.starting command))
    (started : plan.spawnError = none → ∀ other, busy other → running (other.started command plan))
    (h : calm scene) (first : scene.station.plans.headD {} = plan) :
    Ensures (SceneAction.launch options command) scene
      (fun outcome next => busy next ∧ outcome.success = false ∨ running next)
      fun next => busy next ∨ running next := by
  have planned : Ensures (nextPlan : SceneAction σ ProcessPlan) scene
      (fun taken next => calm next ∧ taken = plan) fun _ => False := by
    have calmly : Ensures (nextPlan : SceneAction σ ProcessPlan) scene (fun _ => calm) calm := by
      unfold nextPlan
      rw [ensures_bind, ensures_station]
      split
      · exact h
      · exact before scene _ h (Station.idles_of_eq rfl rfl rfl)
    exact (calmly.and (nextPlan_eq scene)).mono (fun _ _ h => h.imp_right first.subst) fun _ h => h.2
  unfold SceneAction.launch
  rw [ensures_bind]
  refine planned.mono ?_ fun _ => False.elim
  rintro taken middle ⟨hmiddle, rfl⟩
  have spawned : Ensures (spawn options.controls command taken) middle
      (fun spawned next => match spawned with
        | .process _ => running next
        | .stopped | .failed _ => busy next) busy := by
    unfold spawn
    rw [ensures_bind]
    change Ensures _ (middle.starting command) _ _
    rw [ensures_bind]
    refine (between.performAll keep taken.duringSpawn _ (starts middle hmiddle)).mono ?_ fun _ => id
    intro goesOn next hnext
    cases goesOn with
    | false => exact hnext
    | true =>
      cases hspawn : taken.spawnError with
      | some reason => exact hnext
      | none => exact started hspawn next hnext
  rw [ensures_bind]
  refine spawned.mono (fun spawned last hlast => ?_) fun _ => .inl
  cases spawned with
  | stopped =>
    rw [ensures_bind]
    exact (between.forKey _ _ last hlast).mono (fun _ _ => .inl) fun _ => .inl
  | failed reason =>
    rw [ensures_bind]
    exact (between.forKey _ _ last hlast).mono (fun _ _ h => .inl ⟨h, rfl⟩) fun _ => .inl
  | process place => exact (after.attend keep' taken place last hlast).mono (fun _ _ => .inr) fun _ => .inr

/-- A run does nothing, or it starts its process: it is calm before the start, busy until the process is
there, and then it runs. If it returns without a process it has failed. -/
theorem Persists.run (before : Persists calm) (between : Persists busy) (after : Persists running)
    (keep : options.Keep busy) (keep' : options.Keep running)
    (starts : ∀ scene, calm scene → busy (scene.starting command))
    (started : plan.spawnError = none → ∀ other, busy other → running (other.started command plan))
    (h : calm scene) (first : scene.station.plans.headD {} = plan) :
    Ensures (SceneAction.run options command) scene
      (fun outcome next => busy next ∧ outcome.success = false ∨ running next)
      fun next => calm next ∨ busy next ∨ running next := by
  refine resolves_iff_ensures.mp (resolves_run (fun _ => ?_) (fun _ _ _ => .inl h) fun _ registry _ _ => ?_)
  · exact (before.launch between after keep keep' starts started h first).mono (fun _ _ => id) fun _ => .inr
  · let admitted : Scene σ := { scene with station := { scene.station with registry } }
    have hadmitted : calm admitted := before scene _ h (Station.idles_of_eq rfl rfl rfl)
    exact (before.launch between after keep keep' starts started hadmitted first).mono (fun _ _ => id)
      fun _ => .inr

/-- A lasting property does not feel a change of the files. -/
theorem Lasts.onFiles {holds : Scene σ → Prop} (lasts : Lasts holds)
    (change : FileTree → Except FileError FileTree) : Keeps holds (SceneAction.onFiles change) :=
  fun scene h => resolves_iff_ensures.mp <| resolves_onFiles
    (fun _ _ => lasts scene _ h (Station.goesOn_of_eq rfl)) fun _ _ => h

/-- What holds right after the start of a process holds at the end of its run. A run that fails may not
have started its process. -/
theorem Lasts.run (before : Lasts calm) (after : Lasts busy) (keep : options.Keep busy)
    (starts : ∀ scene, calm scene → busy (scene.starting command)) (h : calm scene) :
    Ensures (SceneAction.run options command) scene (fun _ => busy) fun next => calm next ∨ busy next := by
  have started (plan : ProcessPlan) (other : Scene σ) (hother : busy other) :
      busy (other.started command plan) := after other _ hother (Station.goesOn_of_eq rfl)
  have ran := before.persists.run after.persists after.persists keep keep starts
    (fun _ => started (scene.station.plans.headD {})) h rfl
  refine ran.mono (fun _ next hnext => ?_) fun next hnext => ?_
  · exact hnext.elim And.left id
  · exact hnext.imp_right or_self_iff.mp

end Runs

end Montage
