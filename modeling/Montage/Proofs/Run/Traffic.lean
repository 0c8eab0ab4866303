import Montage.Proofs.Lists
import Montage.Proofs.Run.Process
import Montage.Proofs.Run.Registry
import Montage.Proofs.Runs
import Montage.Run.Encoder

/-!
# Runs side by side

Runs of the encoder share one registry. A run enters it with its key, waits for its process, watches
it, and leaves the registry at its end; in between others begin and end, keys are cancelled, and
processes take signals. What happens is an event, and events come in any order. A diary notes what
is done to the keys.

## Main definitions

* `RunEvent`, `Traffic.next` — what can happen, and what it leads to
* `Traffic.Reaches` — the states that events lead to
* `RunNote`, `listed`, `marked` — the diary, and what it says about a key
* `Traffic.Sound` — the keys in use and the marks are those of the diary, which tells the truth about
  each run

## Main results

* `Traffic.Move` and `Traffic.next_moves` — all that one event can do
* `Traffic.Sound.move`, `Traffic.Sound.reaches` — the diary tells the truth wherever events lead to
-/

namespace Montage

/-! ### Runs and their ends -/

/-- How a run ended. -/
inductive Ending where
  /-- Its key was in use. -/
  | refused
  /-- Its process could not be started. -/
  | notStarted
  /-- Its key was cancelled while its process was started. -/
  | turnedAway
  /-- Its process had ended. -/
  | concluded (isMarked : Bool) (code : Int)
  /-- Something stopped it; whether it took its key out of the registry, and whether it left its
  process behind. -/
  | interrupted (releases abandons : Bool)
  deriving DecidableEq, Repr

namespace Ending

/-- Whether the key is taken out of the registry. -/
def releases : Ending → Bool
  | .notStarted | .concluded .. => true
  | .interrupted releases _ => releases
  | .refused | .turnedAway => false

/-- Whether the process is left behind. -/
def abandons : Ending → Bool
  | .interrupted _ abandons => abandons
  | .refused | .notStarted | .turnedAway | .concluded .. => false

/-- Whether a mark on the key is taken off. -/
def clears : Ending → Bool
  | .notStarted | .turnedAway => true
  | .concluded isMarked _ => isMarked
  | .refused | .interrupted .. => false

/-- Whether the run came back with an outcome. -/
def returns : Ending → Bool
  | .notStarted | .turnedAway | .concluded .. => true
  | .refused | .interrupted .. => false

/-- The failure that is reported. -/
def failure? : Ending → Option RunFailure
  | .notStarted => (RunOutcome.notStarted "" "").failure
  | .turnedAway => (RunOutcome.cancelledEarly none).failure
  | .concluded isMarked code => (RunOutcome.ofExit isMarked code "" "").failure
  | .refused | .interrupted .. => none

/-- The registry after a run with some key. -/
def settle (ending : Ending) (registry : Registry Nat) (key : String) : Registry Nat :=
  let left := if ending.releases then registry.release key else registry
  if ending.clears then left.forgetCancelled key else left

end Ending

/-- How far a run is. -/
inductive RunStage where
  | spawning
  | watching
  /-- Its key was cancelled while its process was started, and the process is told to end. -/
  | turnedAway
  /-- The task was stopped, and the process is told to end. -/
  | stopping
  | over (ending : Ending)
  deriving DecidableEq, Repr

/-- A run of the encoder. -/
structure EncoderRun where
  key : Option String
  /-- Where its process is, if it has one. -/
  place : Option Nat := none
  stage : RunStage := .spawning
  deriving DecidableEq, Repr

/-- What is done to a key. -/
inductive RunNote where
  | begins (run : Nat) (key : String)
  | attaches (run : Nat) (key : String)
  | turnsAway (run : Nat) (key : String)
  | ends (run : Nat) (key : String) (ending : Ending)
  /-- The key was in use, and was taken out. -/
  | cancels (key : String)
  /-- All these keys are to be cancelled, one after the other. -/
  | lists (keys : List String)
  deriving DecidableEq, Repr

namespace RunNote

/-- Whether a key is put into the registry. -/
def enters (key : String) : RunNote → Bool
  | .begins _ other | .attaches _ other => other = key
  | .turnsAway .. | .ends .. | .cancels _ | .lists _ => false

/-- Whether a key is taken out of the registry. -/
def removes (key : String) : RunNote → Bool
  | .cancels other => other = key
  | .ends _ other ending => other = key && ending.releases
  | .begins .. | .attaches .. | .turnsAway .. | .lists _ => false

def marks (key : String) : RunNote → Bool
  | .cancels other => other = key
  | .begins .. | .attaches .. | .turnsAway .. | .ends .. | .lists _ => false

/-- Whether a mark on a key is taken off. -/
def clears (key : String) : RunNote → Bool
  | .begins _ other => other = key
  | .ends _ other ending => other = key && ending.clears
  | .attaches .. | .turnsAway .. | .cancels _ | .lists _ => false

/-- Whether it is about a run. -/
def isOf (run : Nat) : RunNote → Bool
  | .begins other _ | .attaches other _ | .turnsAway other _ | .ends other .. => other = run
  | .cancels _ | .lists _ => false

end RunNote

/-- Whether a key is in use after a diary. -/
def listed (key : String) (diary : List RunNote) : Bool :=
  latch (RunNote.enters key) (RunNote.removes key) false diary

/-- Whether a key is marked after a diary. -/
def marked (key : String) (diary : List RunNote) : Bool :=
  latch (RunNote.marks key) (RunNote.clears key) false diary

/-! ### Events -/

/-- What can happen. Runs are told apart by the order in which they began. -/
inductive RunEvent where
  | begin (key : Option String)
  | failSpawn (run : Nat)
  /-- The process of a run is there. -/
  | spawn (run : Nat) (process : Process)
  /-- A run finds its process at its end. -/
  | conclude (run : Nat)
  /-- A run that was turned away comes back. -/
  | leave (run : Nat)
  /-- What a run reads makes it fail. -/
  | fail (run : Nat)
  /-- The task that awaits a run is stopped. -/
  | stop (run : Nat)
  /-- A run that was stopped has told its process to end. -/
  | finishStop (run : Nat)
  | cancel (key : String)
  /-- Keys that start with some text are listed to be cancelled. -/
  | list (start : String)
  | signal (place : Nat) (signal : Signal)
  | exit (place : Nat) (code : Int)
  deriving DecidableEq, Repr

namespace Registry

/-- The registry that a run enters; nothing if its key is in use. -/
def admit? (registry : Registry Nat) : Option String → Option (Registry Nat)
  | none => some registry
  | some key => registry.reserve? key

/-- Where the attempt of a run leads to attach its process. -/
def attachFor (registry : Registry Nat) (place : Nat) : Option String → Attachment Nat
  | none => .attached registry
  | some key => registry.attach key place

end Registry

/-- All runs, and what they share. -/
structure Traffic where
  registry : Registry Nat := {}
  processes : List Process := []
  runs : List EncoderRun := []
  diary : List RunNote := []

namespace Traffic

/-- The exit code of a process that has ended. -/
def exitCode? (traffic : Traffic) (place : Nat) : Option Int :=
  traffic.processes[place]?.bind (·.exitCode)

/-- A run gets on. -/
def put (traffic : Traffic) (n : Nat) (run : EncoderRun) : Traffic :=
  { traffic with runs := traffic.runs.set n run }

/-- Something is noted of the key of a run, if it has one. -/
def noteKey (traffic : Traffic) (key : Option String) (what : String → RunNote) : Traffic :=
  { traffic with diary := traffic.diary ++ key.toList.map what }

/-- A run ends. -/
def finish (traffic : Traffic) (n : Nat) (run : EncoderRun) (ending : Ending) : Traffic :=
  let settled := run.key.elim traffic.registry (ending.settle traffic.registry)
  ({ traffic with registry := settled }.put n { run with stage := .over ending }).noteKey run.key
    (.ends n · ending)

/-- Whether a process has not ended. -/
def isAlive (traffic : Traffic) (place : Nat) : Bool :=
  traffic.processes[place]?.any (!·.hasEnded)

/-- A run is stopped before its end. -/
def interrupt (traffic : Traffic) (n : Nat) (run : EncoderRun) (releases : Bool) : Traffic :=
  traffic.finish n run (.interrupted releases (run.place.any traffic.isAlive))

/-- A run is asked for. -/
def begin (traffic : Traffic) (key : Option String) : Traffic :=
  match traffic.registry.admit? key with
  | some registry =>
    { traffic with registry, runs := traffic.runs ++ [({ key } : EncoderRun)] }.noteKey key
      (.begins traffic.runs.length)
  | none => { traffic with runs := traffic.runs ++ [{ key, stage := .over .refused }] }

/-- The process of a run is there, and is attached to its key. -/
def attachProcess (traffic : Traffic) (n : Nat) (run : EncoderRun) (process : Process) : Traffic :=
  let place := some traffic.processes.length
  let started := { traffic with processes := traffic.processes ++ [process] }
  match traffic.registry.attachFor traffic.processes.length run.key with
  | .attached registry =>
    ({ started with registry }.put n { run with place, stage := .watching }).noteKey run.key
      (.attaches n)
  | .cancelled => (started.put n { run with place, stage := .turnedAway }).noteKey run.key (.turnsAway n)
  | .inUse => started.interrupt n { run with place } false

/-- Whether the key of a run is marked. -/
def marks (traffic : Traffic) (run : EncoderRun) : Bool :=
  (run.key.map traffic.registry.isMarked).getD false

/-- A run finds its process at its end, if it is. -/
def conclude (traffic : Traffic) (n : Nat) (run : EncoderRun) : Traffic :=
  match run.place.bind traffic.exitCode? with
  | some code => traffic.finish n run (.concluded (traffic.marks run) code)
  | none => traffic

/-- Something stops a run. -/
def stop (traffic : Traffic) (n : Nat) (run : EncoderRun) : Traffic :=
  match run.stage with
  | .spawning | .stopping => traffic.interrupt n run true
  | .watching => traffic.put n { run with stage := .stopping }
  | .turnedAway => traffic.interrupt n run false
  | .over _ => traffic

/-- What becomes of a run, if there is one. -/
def onRun (traffic : Traffic) (n : Nat) (gets : EncoderRun → Traffic) : Traffic :=
  match traffic.runs[n]? with
  | some run => gets run
  | none => traffic

/-- What becomes of a run that has got to some stage. -/
def atStage (traffic : Traffic) (n : Nat) (stage : RunStage) (gets : EncoderRun → Traffic) : Traffic :=
  traffic.onRun n fun run => if run.stage = stage then gets run else traffic

/-- A key is cancelled, if it is in use. -/
def cancel (traffic : Traffic) (key : String) : Traffic :=
  match traffic.registry.cancel? key with
  | some (_, registry) => { traffic with registry, diary := traffic.diary ++ [.cancels key] }
  | none => traffic

/-- What an event leads to. What cannot happen changes nothing. -/
def next (traffic : Traffic) : RunEvent → Traffic
  | .begin key => traffic.begin key
  | .failSpawn n => traffic.atStage n .spawning (traffic.finish n · .notStarted)
  | .spawn n process => traffic.atStage n .spawning (traffic.attachProcess n · process)
  | .conclude n => traffic.atStage n .watching (traffic.conclude n)
  | .leave n => traffic.atStage n .turnedAway (traffic.finish n · .turnedAway)
  | .fail n => traffic.atStage n .watching (traffic.interrupt n · true)
  | .stop n => traffic.onRun n (traffic.stop n)
  | .finishStop n => traffic.atStage n .stopping (traffic.interrupt n · true)
  | .cancel key => traffic.cancel key
  | .list start =>
    { traffic with diary := traffic.diary ++ [.lists (traffic.registry.keysFrom start)] }
  | .signal place signal =>
    { traffic with processes := traffic.processes.modify place (·.receive signal) }
  | .exit place code =>
    { traffic with processes := traffic.processes.modify place (·.exit code) }

/-- Events in any order lead from one state to another. -/
def Reaches : Traffic → Traffic → Prop := Leads next fun _ => True

theorem reaches_foldl (events : List RunEvent) (traffic : Traffic) :
    Reaches traffic (events.foldl next traffic) :=
  Leads.any events traffic

/-! ### Moves -/

/-- Whether a run may end in some way. -/
def MayEnd (traffic : Traffic) (run : EncoderRun) : Ending → Prop
  | .refused => False
  | .notStarted => run.stage = .spawning
  | .turnedAway => run.stage = .turnedAway
  | .concluded isMarked code => run.stage = .watching ∧ isMarked = traffic.marks run ∧
      run.place.bind traffic.exitCode? = some code
  | .interrupted releases abandons => abandons = run.place.any traffic.isAlive ∧
      if releases then run.stage = .spawning ∨ run.stage = .watching ∨ run.stage = .stopping
      else run.stage = .turnedAway

/-- All that can happen at once. -/
inductive Move (traffic : Traffic) : Traffic → Prop
  | rest : Move traffic traffic
  | refuse {key : Option String} (used : traffic.registry.admit? key = none) :
    Move traffic { traffic with runs := traffic.runs ++ [{ key, stage := .over .refused }] }
  | enter {key : Option String} {registry : Registry Nat}
    (admitted : traffic.registry.admit? key = some registry) :
    Move traffic ({ traffic with registry, runs := traffic.runs ++ [({ key } : EncoderRun)] }.noteKey key
      (.begins traffic.runs.length))
  | attach {n : Nat} {run : EncoderRun} {registry : Registry Nat} (process : Process)
    (hrun : traffic.runs[n]? = some run) (spawning : run.stage = .spawning)
    (attached : traffic.registry.attachFor traffic.processes.length run.key = .attached registry) :
    Move traffic (({ traffic with registry, processes := traffic.processes ++ [process] }.put n
      { run with place := some traffic.processes.length, stage := .watching }).noteKey run.key
        (.attaches n))
  | turnAway {n : Nat} {run : EncoderRun} (process : Process)
    (hrun : traffic.runs[n]? = some run) (spawning : run.stage = .spawning)
    (cancelled : traffic.registry.attachFor traffic.processes.length run.key = .cancelled) :
    Move traffic (({ traffic with processes := traffic.processes ++ [process] }.put n
      { run with place := some traffic.processes.length, stage := .turnedAway }).noteKey run.key
        (.turnsAway n))
  | shutOut {n : Nat} {run : EncoderRun} (process : Process)
    (hrun : traffic.runs[n]? = some run) (spawning : run.stage = .spawning)
    (used : traffic.registry.attachFor traffic.processes.length run.key = .inUse) :
    Move traffic ({ traffic with processes := traffic.processes ++ [process] }.interrupt n
      { run with place := some traffic.processes.length } false)
  | finish {n : Nat} {run : EncoderRun} {ending : Ending} (hrun : traffic.runs[n]? = some run)
    (may : traffic.MayEnd run ending) : Move traffic (traffic.finish n run ending)
  | stop {n : Nat} {run : EncoderRun} (hrun : traffic.runs[n]? = some run)
    (watching : run.stage = .watching) : Move traffic (traffic.put n { run with stage := .stopping })
  | cancel {key : String} {found : Option Nat × Registry Nat}
    (used : traffic.registry.cancel? key = some found) :
    Move traffic { traffic with registry := found.2, diary := traffic.diary ++ [.cancels key] }
  | list (keys : List String) :
    Move traffic { traffic with diary := traffic.diary ++ [.lists keys] }
  | change {place : Nat} {change : Process → Process}
    (later : ∀ process : Process, process.Later (change process)) :
    Move traffic { traffic with processes := traffic.processes.modify place change }

section Moves

variable {traffic : Traffic} {n : Nat} {stage : RunStage} {gets : EncoderRun → Traffic}

theorem move_onRun (each : ∀ run, traffic.runs[n]? = some run → Move traffic (gets run)) :
    Move traffic (traffic.onRun n gets) := by
  unfold onRun
  split
  · next run hrun => exact each run hrun
  · exact .rest

theorem move_atStage
    (each : ∀ run, traffic.runs[n]? = some run → run.stage = stage → Move traffic (gets run)) :
    Move traffic (traffic.atStage n stage gets) := by
  refine move_onRun fun run hrun => ?_
  split
  · next same => exact each run hrun same
  · exact .rest

theorem move_begin (key : Option String) : Move traffic (traffic.begin key) := by
  unfold begin
  split
  · next registry admitted => exact .enter admitted
  · next used => exact .refuse used

theorem move_attachProcess {run : EncoderRun} (hrun : traffic.runs[n]? = some run)
    (spawning : run.stage = .spawning) (process : Process) :
    Move traffic (traffic.attachProcess n run process) := by
  unfold attachProcess
  dsimp only
  split
  · next registry attached => exact .attach process hrun spawning attached
  · next cancelled => exact .turnAway process hrun spawning cancelled
  · next used => exact .shutOut process hrun spawning used

theorem move_stop {run : EncoderRun} (hrun : traffic.runs[n]? = some run) :
    Move traffic (traffic.stop n run) := by
  unfold stop
  split
  · next stage => exact .finish hrun ⟨rfl, .inl stage⟩
  · next stage => exact .finish hrun ⟨rfl, .inr (.inr stage)⟩
  · next stage => exact .stop hrun stage
  · next stage => exact .finish hrun ⟨rfl, stage⟩
  · exact .rest

/-- An event is no more than a move. -/
theorem next_moves (traffic : Traffic) (event : RunEvent) : Move traffic (traffic.next event) := by
  cases event with
  | begin key => exact move_begin key
  | failSpawn n => exact move_atStage fun run hrun stage => .finish hrun stage
  | spawn n process =>
    exact move_atStage fun run hrun stage => move_attachProcess hrun stage process
  | conclude n =>
    refine move_atStage fun run hrun stage => ?_
    unfold conclude
    split
    · next code ended => exact .finish hrun ⟨stage, rfl, ended⟩
    · exact .rest
  | leave n => exact move_atStage fun run hrun stage => .finish hrun stage
  | fail n => exact move_atStage fun run hrun stage => .finish hrun ⟨rfl, .inr (.inl stage)⟩
  | stop n => exact move_onRun fun run hrun => move_stop hrun
  | finishStop n =>
    exact move_atStage fun run hrun stage => .finish hrun ⟨rfl, .inr (.inr stage)⟩
  | cancel key =>
    change Move traffic (traffic.cancel key)
    unfold cancel
    split
    · next used => exact .cancel used
    · exact .rest
  | list start => exact .list _
  | signal place signal => exact .change fun process => process.later_receive signal
  | exit place code => exact .change fun process => process.later_exit code

end Moves

end Traffic

/-! ### What the diary notes -/

namespace Registry

/-- One registry comes from another by what is done to the keys. -/
def Follows (registry after : Registry Nat) (notes : List RunNote) : Prop :=
  ∀ key,
    after.contains key =
        latch (RunNote.enters key) (RunNote.removes key) (registry.contains key) notes ∧
      after.isMarked key =
        latch (RunNote.marks key) (RunNote.clears key) (registry.isMarked key) notes

variable {registry after : Registry Nat} {n place : Nat} {key : Option String}

theorem follows_nil : registry.Follows registry [] := fun _ => ⟨rfl, rfl⟩

theorem follows_admit (h : registry.admit? key = some after) :
    registry.Follows after (key.toList.map (.begins n)) := by
  cases key with
  | none =>
    obtain rfl := Option.some.inj h
    exact follows_nil
  | some key =>
    intro other
    rw [(contains_of_reserve? h).2 other, isMarked_of_reserve? h]
    simp [latch, RunNote.enters, RunNote.removes, RunNote.marks, RunNote.clears, eq_comm,
      Bool.or_comm]

theorem follows_attach (h : registry.attachFor place key = .attached after) :
    registry.Follows after (key.toList.map (.attaches n)) := by
  cases key with
  | none =>
    obtain rfl := Attachment.attached.inj h
    exact follows_nil
  | some key =>
    intro other
    simp only [attachFor, attach] at h
    split at h
    · cases h
    split at h
    · cases h
    cases h
    rw [contains_setProcess]
    simp [latch, RunNote.enters, RunNote.removes, RunNote.marks, RunNote.clears, eq_comm,
      Bool.or_comm, isMarked]

theorem follows_settle (ending : Ending) :
    registry.Follows (key.elim registry (ending.settle registry))
      (key.toList.map (.ends n · ending)) := by
  cases key with
  | none => exact follows_nil
  | some key =>
    intro other
    simp only [Option.elim_some, Ending.settle]
    cases releases : ending.releases <;> cases clears : ending.clears <;>
      simp [latch, RunNote.enters, RunNote.removes, RunNote.marks, RunNote.clears, releases, clears,
        eq_comm]

theorem follows_turnAway : registry.Follows registry (key.toList.map (.turnsAway n)) := by
  cases key with
  | none => exact follows_nil
  | some key =>
    intro other
    simp [latch, RunNote.enters, RunNote.removes, RunNote.marks, RunNote.clears]

theorem follows_cancel {key : String} {found : Option Nat × Registry Nat}
    (h : registry.cancel? key = some found) : registry.Follows found.2 [.cancels key] := by
  intro other
  rw [(contains_of_cancel? h).2 other, isMarked_of_cancel? h]
  simp [latch, RunNote.enters, RunNote.removes, RunNote.marks, RunNote.clears, eq_comm,
    Bool.or_comm]

/-- A process is turned away from a key that carries a mark. -/
theorem isMarked_of_turnedAway (h : registry.attachFor place key = .cancelled) :
    ∃ name, key = some name ∧ registry.isMarked name = true := by
  cases key with
  | none => cases h
  | some name =>
    simp only [attachFor, attach] at h
    split at h
    · next marked => exact ⟨name, rfl, marked⟩
    · split at h <;> cases h

end Registry

/-- Whether a note is true after a diary. -/
def RunNote.IsTrueOf (diary : List RunNote) : RunNote → Prop
  | .begins _ key => listed key diary = false
  | .turnsAway _ key => marked key diary = true
  | .ends _ key (.concluded isMarked _) => isMarked = marked key diary
  | .cancels key => listed key diary = true
  | .attaches .. | .ends .. | .lists _ => True

/-- Every note of a diary was true when it was made. -/
def Honest (diary : List RunNote) : Prop :=
  ∀ before note after, diary = before ++ note :: after → note.IsTrueOf before

theorem Honest.append {diary : List RunNote} (h : Honest diary) {note : RunNote}
    (true_ : note.IsTrueOf diary) : Honest (diary ++ [note]) := by
  intro before other after split
  rcases split_of_append_singleton split with ⟨-, rfl, rfl⟩ | ⟨rest, -, earlier⟩
  · exact true_
  · exact h before other rest earlier

/-- What the diary may note of a run with a key. -/
def RunStage.stories (n : Nat) (key : String) : RunStage → List (List RunNote)
  | .spawning => [[.begins n key]]
  | .watching | .stopping => [[.begins n key, .attaches n key]]
  | .turnedAway => [[.begins n key, .turnsAway n key]]
  | .over .refused => [[]]
  | .over .notStarted => [[.begins n key, .ends n key .notStarted]]
  | .over .turnedAway => [[.begins n key, .turnsAway n key, .ends n key .turnedAway]]
  | .over (.concluded isMarked code) =>
    [[.begins n key, .attaches n key, .ends n key (.concluded isMarked code)]]
  | .over (.interrupted releases abandons) => [
    [.begins n key, .ends n key (.interrupted releases abandons)],
    [.begins n key, .attaches n key, .ends n key (.interrupted releases abandons)],
    [.begins n key, .turnsAway n key, .ends n key (.interrupted releases abandons)]]

/-- Whether a run is told that its key was cancelled. -/
def RunStage.isCancelled : RunStage → Bool
  | .turnedAway | .over .turnedAway | .over (.concluded true _) => true
  | _ => false

/-- A diary notes of each run what its stage allows. -/
structure Stories (runs : List EncoderRun) (diary : List RunNote) : Prop where
  story : ∀ n run key, runs[n]? = some run → run.key = some key →
    diary.filter (RunNote.isOf n) ∈ run.stage.stories n key
  /-- Nothing is noted of a run without a key, or of one that has not begun. -/
  unnoted : ∀ n, (∀ run, runs[n]? = some run → run.key = none) →
    diary.filter (RunNote.isOf n) = []
  keyless : ∀ run ∈ runs, run.key = none → run.stage.isCancelled = false

namespace Stories

variable {runs : List EncoderRun} {diary notes : List RunNote} {n : Nat} {run : EncoderRun}

/-- Something is noted that is about no run. -/
theorem note (h : Stories runs diary) {note : RunNote} (about : ∀ n, note.isOf n = false) :
    Stories runs (diary ++ [note]) := by
  have same (n : Nat) : (diary ++ [note]).filter (RunNote.isOf n) = diary.filter (RunNote.isOf n) := by
    simp [about n]
  exact ⟨fun n => same n ▸ h.story n, fun n => same n ▸ h.unnoted n, h.keyless⟩

theorem filter_isOf_self (about : ∀ note ∈ notes, ∀ m, note.isOf m = decide (n = m)) :
    notes.filter (RunNote.isOf n) = notes :=
  List.filter_eq_self.mpr fun note hnote => by simp [about note hnote n]

theorem filter_isOf_ne {m : Nat} (about : ∀ note ∈ notes, ∀ m, note.isOf m = decide (n = m))
    (differ : n ≠ m) : (diary ++ notes).filter (RunNote.isOf m) = diary.filter (RunNote.isOf m) := by
  have nothing : notes.filter (RunNote.isOf m) = [] :=
    List.filter_eq_nil_iff.mpr fun note hnote => by simp [about note hnote m, differ]
  rw [List.filter_append, nothing, List.append_nil]

/-- A run gets to its next stage. -/
theorem put (h : Stories runs diary) (hrun : runs[n]? = some run) (next : EncoderRun)
    (same : next.key = run.key)
    (about : ∀ note ∈ notes, ∀ m, note.isOf m = decide (n = m))
    (told : ∀ key, run.key = some key → ∀ told ∈ run.stage.stories n key,
      told ++ notes ∈ next.stage.stories n key)
    (silent : run.key = none → notes = [] ∧ next.stage.isCancelled = false) :
    Stories (runs.set n next) (diary ++ notes) := by
  obtain ⟨inside, -⟩ := List.getElem?_eq_some_iff.mp hrun
  have own : (diary ++ notes).filter (RunNote.isOf n) = diary.filter (RunNote.isOf n) ++ notes := by
    rw [List.filter_append, filter_isOf_self about]
  refine ⟨fun m other key hother hkey => ?_, fun m unkeyed => ?_, fun other hother unkeyed => ?_⟩
  · by_cases here : n = m
    · subst here
      rw [List.getElem?_set_self inside] at hother
      obtain rfl := Option.some.inj hother
      rw [own]
      rw [same] at hkey
      exact told key hkey _ (h.story n run key hrun hkey)
    · rw [List.getElem?_set_ne here] at hother
      rw [filter_isOf_ne about here]
      exact h.story m other key hother hkey
  · by_cases here : n = m
    · subst here
      have unkeyed := same ▸ unkeyed next (List.getElem?_set_self inside)
      rw [own, (silent unkeyed).1, List.append_nil]
      refine h.unnoted n fun other hother => ?_
      obtain rfl := Option.some.inj (hrun.symm.trans hother)
      exact unkeyed
    · rw [filter_isOf_ne about here]
      refine h.unnoted m fun other hother => unkeyed other ?_
      rw [List.getElem?_set_ne here]
      exact hother
  · rcases List.mem_or_eq_of_mem_set hother with old | rfl
    · exact h.keyless other old unkeyed
    · exact (silent (same ▸ unkeyed)).2

/-- What is noted of the key of a run is about this run only. -/
theorem isOf_of_mem_map {key : Option String} {what : String → RunNote}
    (isOf : ∀ name m, (what name).isOf m = decide (n = m)) :
    ∀ note ∈ key.toList.map what, ∀ m, note.isOf m = decide (n = m) := by
  intro note hnote
  obtain ⟨name, -, rfl⟩ := List.mem_map.mp hnote
  exact isOf name

/-- A run gets to its next stage, and this is noted of its key. -/
theorem putNote (h : Stories runs diary) (hrun : runs[n]? = some run) (next : EncoderRun)
    (same : next.key = run.key) (what : String → RunNote)
    (isOf : ∀ name m, (what name).isOf m = decide (n = m))
    (told : ∀ key, ∀ told ∈ run.stage.stories n key, told ++ [what key] ∈ next.stage.stories n key)
    (silent : run.key = none → next.stage.isCancelled = false) :
    Stories (runs.set n next) (diary ++ run.key.toList.map what) := by
  refine h.put hrun next same (isOf_of_mem_map isOf) (fun key hkey => ?_) fun unkeyed => ?_
  · rw [hkey]
    exact told key
  · exact ⟨by rw [unkeyed]; rfl, silent unkeyed⟩

/-- A run begins, or is refused. -/
theorem add (h : Stories runs diary) (next : EncoderRun) (calm : next.stage.isCancelled = false)
    (about : ∀ note ∈ notes, ∀ m, note.isOf m = decide (runs.length = m))
    (told : ∀ key, next.key = some key → notes ∈ next.stage.stories runs.length key)
    (silent : next.key = none → notes = []) : Stories (runs ++ [next]) (diary ++ notes) := by
  have fresh : diary.filter (RunNote.isOf runs.length) = [] := by
    refine h.unnoted _ fun run hrun => ?_
    exact absurd hrun (by simp)
  have own : (diary ++ notes).filter (RunNote.isOf runs.length) = notes := by
    rw [List.filter_append, fresh, List.nil_append, filter_isOf_self about]
  have elsewhere {m : Nat} (differ : runs.length ≠ m) : (runs ++ [next])[m]? = runs[m]? := by
    rcases Nat.lt_or_gt_of_ne differ with beyond | before
    · rw [List.getElem?_eq_none (by rw [List.length_append]; exact beyond),
        List.getElem?_eq_none (Nat.le_of_lt beyond)]
    · exact List.getElem?_append_left before
  refine ⟨fun m run key hrun hkey => ?_, fun m unkeyed => ?_, fun run hrun unkeyed => ?_⟩
  · by_cases here : runs.length = m
    · subst here
      rw [List.getElem?_concat_length] at hrun
      obtain rfl := Option.some.inj hrun
      rw [own]
      exact told key hkey
    · rw [elsewhere here] at hrun
      rw [filter_isOf_ne about here]
      exact h.story m run key hrun hkey
  · by_cases here : runs.length = m
    · subst here
      rw [own]
      exact silent (unkeyed next List.getElem?_concat_length)
    · rw [filter_isOf_ne about here]
      exact h.unnoted m fun run hrun => unkeyed run (by rwa [elsewhere here])
  · rcases List.mem_append.mp hrun with old | new
    · exact h.keyless run old unkeyed
    · rwa [List.mem_singleton.mp new]

end Stories

namespace Traffic

/-- The diary of some runs tells the truth about the keys and about each run. -/
structure Sound (traffic : Traffic) : Prop where
  contains_eq : ∀ key, traffic.registry.contains key = listed key traffic.diary
  isMarked_eq : ∀ key, traffic.registry.isMarked key = marked key traffic.diary
  honest : Honest traffic.diary
  stories : Stories traffic.runs traffic.diary
  places : ∀ run ∈ traffic.runs, ∀ place, run.place = some place → place < traffic.processes.length
  unplaced : ∀ run ∈ traffic.runs, run.stage = .spawning → run.place = none

section Step

variable {traffic after : Traffic}

/-- What is done to the keys is noted, one thing at a time. -/
theorem Move.follows (move : Move traffic after) :
    ∃ notes, after.diary = traffic.diary ++ notes ∧ notes.length ≤ 1 ∧
      traffic.registry.Follows after.registry notes := by
  have nothing : ∃ notes, traffic.diary = traffic.diary ++ notes ∧ notes.length ≤ 1 ∧
      traffic.registry.Follows traffic.registry notes :=
    ⟨[], (List.append_nil _).symm, Nat.zero_le _, Registry.follows_nil⟩
  have one (key : Option String) (what : String → RunNote) :
      (key.toList.map what).length ≤ 1 := by
    cases key <;> simp
  cases move with
  | rest | refuse _ | stop _ _ | change _ => exact nothing
  | enter admitted => exact ⟨_, rfl, one _ _, Registry.follows_admit admitted⟩
  | attach _ _ _ attached => exact ⟨_, rfl, one _ _, Registry.follows_attach attached⟩
  | turnAway _ _ _ _ => exact ⟨_, rfl, one _ _, Registry.follows_turnAway⟩
  | shutOut _ _ _ _ | finish _ _ => exact ⟨_, rfl, one _ _, Registry.follows_settle _⟩
  | cancel used => exact ⟨_, rfl, Nat.le_refl _, Registry.follows_cancel used⟩
  | list keys =>
    refine ⟨_, rfl, Nat.le_refl _, fun _ => ?_⟩
    simp [latch, RunNote.enters, RunNote.removes, RunNote.marks, RunNote.clears]

/-- A move notes nothing but the truth. -/
theorem Sound.honest_move (h : traffic.Sound) (move : Move traffic after) : Honest after.diary := by
  -- At most one thing is noted of one key.
  have about (key : Option String) (what : String → RunNote)
      (true_ : ∀ name, key = some name → (what name).IsTrueOf traffic.diary) :
      Honest (traffic.diary ++ key.toList.map what) := by
    cases key with
    | none => simpa using h.honest
    | some name => exact h.honest.append (true_ name rfl)
  cases move with
  | rest | refuse _ | stop _ _ | change _ => exact h.honest
  | enter admitted =>
    refine about _ _ fun name hname => ?_
    subst hname
    exact (h.contains_eq name).symm.trans (Registry.contains_of_reserve? admitted).1
  | attach _ _ _ _ => exact about _ _ fun _ _ => trivial
  | turnAway _ _ _ cancelled =>
    obtain ⟨name, hname, isMarked⟩ := Registry.isMarked_of_turnedAway cancelled
    refine about _ _ fun other hother => ?_
    obtain rfl := Option.some.inj (hname.symm.trans hother)
    exact (h.isMarked_eq name).symm.trans isMarked
  | shutOut _ _ _ _ => exact about _ _ fun _ _ => trivial
  | @finish n run ending hrun may =>
    refine about _ _ fun name hname => ?_
    cases ending with
    | concluded isMarked code =>
      refine may.2.1.trans ?_
      unfold marks
      rw [hname]
      exact h.isMarked_eq name
    | refused | notStarted | turnedAway | interrupted _ _ => trivial
  | cancel used =>
    exact h.honest.append ((h.contains_eq _).symm.trans (Registry.contains_of_cancel? used).1)
  | list _ => exact h.honest.append trivial

/-- The diary allows a run to end in the way in which it may end. -/
theorem MayEnd.stories {run : EncoderRun} {ending : Ending} (may : traffic.MayEnd run ending) (n : Nat)
    (key : String) : ∀ told ∈ run.stage.stories n key,
      told ++ [.ends n key ending] ∈ (RunStage.over ending).stories n key := by
  intro told htold
  cases ending with
  | refused => exact may.elim
  | notStarted =>
    rw [show run.stage = .spawning from may] at htold
    simp_all [RunStage.stories]
  | turnedAway =>
    rw [show run.stage = .turnedAway from may] at htold
    simp_all [RunStage.stories]
  | concluded isMarked code =>
    rw [may.1] at htold
    simp_all [RunStage.stories]
  | interrupted releases abandons =>
    obtain ⟨-, may⟩ := may
    cases releases with
    | false =>
      rw [show run.stage = .turnedAway from may] at htold
      simp_all [RunStage.stories]
    | true => rcases may with stage | stage | stage <;> rw [stage] at htold <;>
      simp_all [RunStage.stories]

theorem Move.stories (move : Move traffic after) (h : Stories traffic.runs traffic.diary) :
    Stories after.runs after.diary := by
  cases move with
  | rest => exact h
  | @refuse key used =>
    have refused : Stories _ (traffic.diary ++ []) :=
      h.add { key, stage := .over .refused } rfl (by simp) (by simp [RunStage.stories])
        fun _ => rfl
    rwa [List.append_nil] at refused
  | @enter key registry admitted =>
    refine h.add _ rfl (Stories.isOf_of_mem_map fun _ _ => rfl) (fun name hname => ?_) fun unkeyed => ?_
    · rw [show key = some name from hname]
      exact List.mem_singleton.mpr rfl
    · rw [show key = none from unkeyed]
      rfl
  | @attach n _ _ _ hrun spawning _ =>
    refine h.putNote hrun ⟨_, _, .watching⟩ rfl (.attaches n) (fun _ _ => rfl) (fun key => ?_)
      fun _ => rfl
    simp [spawning, RunStage.stories]
  | @turnAway n _ _ hrun spawning cancelled =>
    obtain ⟨name, hname, -⟩ := Registry.isMarked_of_turnedAway cancelled
    refine h.putNote hrun ⟨_, _, .turnedAway⟩ rfl (.turnsAway n) (fun _ _ => rfl)
      (fun key => ?_) fun unkeyed => ?_
    · simp [spawning, RunStage.stories]
    · exact absurd (unkeyed.symm.trans hname) (by simp)
  | @shutOut n _ _ hrun spawning _ =>
    refine h.putNote hrun ⟨_, _, .over (.interrupted false _)⟩ rfl
      (.ends n · (.interrupted false _)) (fun _ _ => rfl) (fun key => ?_) fun _ => rfl
    simp [spawning, RunStage.stories]
  | @finish n run ending hrun may =>
    refine h.putNote hrun { run with stage := .over ending } rfl (.ends n · ending) (fun _ _ => rfl)
      (may.stories n) fun unkeyed => ?_
    have calm := h.keyless run (List.mem_of_getElem? hrun) unkeyed
    cases ending with
    | turnedAway =>
      rw [show run.stage = .turnedAway from may] at calm
      exact calm
    | concluded isMarked code =>
      have unmarked : isMarked = false := by
        rw [may.2.1, marks, unkeyed]
        rfl
      rw [unmarked]
      rfl
    | refused | notStarted | interrupted _ _ => rfl
  | @stop n run hrun watching =>
    have stopped : Stories _ (traffic.diary ++ []) :=
      h.put hrun { run with stage := .stopping } rfl (by simp)
        (by simp [watching, RunStage.stories]) fun _ => ⟨rfl, rfl⟩
    rwa [List.append_nil] at stopped
  | cancel used => exact h.note fun _ => rfl
  | list _ => exact h.note fun _ => rfl
  | change _ => exact h

/-- Processes stay where they are. -/
theorem Move.length_le (move : Move traffic after) :
    traffic.processes.length ≤ after.processes.length := by
  cases move with
  | attach _ _ _ _ | turnAway _ _ _ _ | shutOut _ _ _ _ =>
    change _ ≤ (traffic.processes ++ [_]).length
    simp
  | change _ => simp
  | rest | refuse _ | enter _ | finish _ _ | stop _ _ | cancel _ | list _ => exact Nat.le_refl _

/-- Processes take signals as before, and stay at their ends. -/
theorem Move.later (move : Move traffic after) {place : Nat} {process : Process}
    (h : traffic.processes[place]? = some process) :
    ∃ next, after.processes[place]? = some next ∧ process.Later next := by
  have append (started : Process) :
      ∃ next, (traffic.processes ++ [started])[place]? = some next ∧ process.Later next := by
    rw [List.getElem?_append_left (List.getElem?_eq_some_iff.mp h).1]
    exact ⟨process, h, .refl process⟩
  cases move with
  | attach process _ _ _ | turnAway process _ _ _ | shutOut process _ _ _ => exact append process
  | @change place' change later =>
    rw [List.getElem?_modify, h]
    by_cases here : place' = place
    · exact ⟨change process, by simp [here], later process⟩
    · exact ⟨process, by simp [here], .refl process⟩
  | rest | refuse _ | enter _ | finish _ _ | stop _ _ | cancel _ | list _ =>
    exact ⟨process, h, .refl process⟩

theorem Move.places (move : Move traffic after)
    (h : ∀ run ∈ traffic.runs, ∀ place, run.place = some place → place < traffic.processes.length) :
    ∀ run ∈ after.runs, ∀ place, run.place = some place → place < after.processes.length := by
  have kept {run : EncoderRun} (hrun : run ∈ traffic.runs) (place : Nat)
      (hplace : run.place = some place) : place < after.processes.length :=
    Nat.lt_of_lt_of_le (h run hrun place hplace) move.length_le
  cases move with
  | rest | cancel _ | list _ | change _ => exact fun run hrun => kept hrun
  | refuse _ | enter _ =>
    intro run hrun place hplace
    rcases List.mem_append.mp hrun with old | new
    · exact kept old place hplace
    · rw [List.mem_singleton.mp new] at hplace
      cases hplace
  | attach _ _ _ _ | turnAway _ _ _ _ | shutOut _ _ _ _ =>
    intro run hrun place hplace
    rcases List.mem_or_eq_of_mem_set hrun with old | rfl
    · exact kept old place hplace
    · rw [← Option.some.inj hplace]
      change _ < (traffic.processes ++ [_]).length
      simp
  | finish hrun _ | stop hrun _ =>
    intro other hother place hplace
    rcases List.mem_or_eq_of_mem_set hother with old | rfl
    · exact kept old place hplace
    · exact kept (List.mem_of_getElem? hrun) place hplace

theorem Move.unplaced (move : Move traffic after)
    (h : ∀ run ∈ traffic.runs, run.stage = .spawning → run.place = none) :
    ∀ run ∈ after.runs, run.stage = .spawning → run.place = none := by
  cases move with
  | rest | cancel _ | list _ | change _ => exact h
  | refuse _ | enter _ =>
    intro run hrun spawning
    rcases List.mem_append.mp hrun with old | new
    · exact h run old spawning
    · rw [List.mem_singleton.mp new]
  | attach _ _ _ _ | turnAway _ _ _ _ | shutOut _ _ _ _ | finish _ _ | stop _ _ =>
    intro run hrun spawning
    rcases List.mem_or_eq_of_mem_set hrun with old | rfl
    · exact h run old spawning
    · cases spawning

theorem Sound.move (h : traffic.Sound) (move : Move traffic after) : after.Sound := by
  obtain ⟨notes, grown, -, follows⟩ := move.follows
  refine ⟨fun key => ?_, fun key => ?_, h.honest_move move, move.stories h.stories, move.places h.places,
    move.unplaced h.unplaced⟩
  · rw [(follows key).1, h.contains_eq, grown, listed, listed, latch_append]
  · rw [(follows key).2, h.isMarked_eq, grown, marked, marked, latch_append]

end Step

/-- Nothing has happened yet. -/
theorem sound_empty : Sound {} where
  contains_eq _ := rfl
  isMarked_eq _ := rfl
  honest := by
    intro before note after split
    exact absurd split (by simp)
  stories := ⟨by simp, fun _ _ => rfl, by simp⟩
  places := by simp
  unplaced := by simp

theorem Reaches.later {first traffic : Traffic} (reached : Reaches first traffic) {place : Nat}
    {process : Process} (h : first.processes[place]? = some process) :
    ∃ next, traffic.processes[place]? = some next ∧ process.Later next := by
  let goes (traffic : Traffic) : Prop := ∃ next, traffic.processes[place]? = some next ∧ process.Later next
  have start : goes first := ⟨process, h, .refl process⟩
  refine Leads.keeps goes reached start fun traffic event _ _ h => ?_
  obtain ⟨middle, hmiddle, later⟩ := h
  obtain ⟨next, hnext, later'⟩ := (next_moves traffic event).later hmiddle
  exact ⟨next, hnext, later.trans later'⟩

theorem Sound.reaches {first traffic : Traffic} (h : first.Sound) (reached : Reaches first traffic) :
    traffic.Sound :=
  Leads.keeps Sound reached h fun traffic event _ _ h => h.move (next_moves traffic event)

end Traffic

end Montage
