import Montage.Proofs.Action
import Montage.Run.Station

/-!
# How a process is seen out

A process that is asked to end does so, or is found to be gone, or it ignores the signal. One that
ignores it is killed, or is found to be gone then. So whoever asks, waits and kills can be sure that
no process is left, whatever other signals come in between.

## Main definitions

* `Process.isThere` — signals can find the process
* `Process.Later` — a process after signals, or after its own end

## Main results

* `Process.isThere_of_isGone`, `Process.isThere_of_killed` — a process that was seen out is not there
-/

namespace Montage

namespace Process

/-- Whether a process is still there, as far as signals can tell. -/
def isThere (process : Process) : Bool :=
  !process.hasEnded && !process.goneOnTerm && !(process.ignoresTerm && process.goneOnKill)

/-- A process some time later: it takes signals as before, and if it had ended it has ended. -/
structure Later (before after : Process) : Prop where
  ignoresTerm : after.ignoresTerm = before.ignoresTerm
  goneOnTerm : after.goneOnTerm = before.goneOnTerm
  goneOnKill : after.goneOnKill = before.goneOnKill
  ended : before.hasEnded = true → after.hasEnded = true

variable {before after process : Process}

protected theorem Later.refl (process : Process) : process.Later process := ⟨rfl, rfl, rfl, id⟩

theorem Later.trans {last : Process} (h : before.Later after) (h' : after.Later last) :
    before.Later last where
  ignoresTerm := h'.ignoresTerm.trans h.ignoresTerm
  goneOnTerm := h'.goneOnTerm.trans h.goneOnTerm
  goneOnKill := h'.goneOnKill.trans h.goneOnKill
  ended ended := h'.ended (h.ended ended)

theorem later_receive (process : Process) (signal : Signal) :
    process.Later (process.receive signal) := by
  unfold receive
  split
  · exact ⟨rfl, rfl, rfl, fun _ => rfl⟩
  · exact .refl process

theorem later_exit (process : Process) (code : Int) : process.Later (process.exit code) :=
  ⟨rfl, rfl, rfl, fun _ => rfl⟩

/-- A process that is gone does not come back. -/
theorem Later.isThere (h : before.Later after) (there : after.isThere = true) :
    before.isThere = true := by
  simp only [Process.isThere, h.ignoresTerm, h.goneOnTerm, h.goneOnKill, Bool.and_eq_true,
    Bool.not_eq_true'] at there ⊢
  obtain ⟨⟨alive, found⟩, stays⟩ := there
  refine ⟨⟨?_, found⟩, stays⟩
  cases ended : before.hasEnded with
  | false => rfl
  | true => exact absurd ((h.ended ended).symm.trans alive) (by simp)

theorem isThere_of_hasEnded (ended : process.hasEnded = true) : process.isThere = false := by
  simp [isThere, ended]

/-- There is no wait for a process that cannot be asked to end. -/
theorem isThere_of_isGone (gone : process.isGone .term = true) : process.isThere = false := by
  have gone' : process.goneOnTerm = true := gone
  simp [isThere, gone']

/-- A process that was asked to end and is killed if it has not ended is gone, whatever comes in
between. -/
theorem isThere_of_killed (asked : (process.receive .term).Later before)
    (killed : before.hasEnded = false → after = before.receive .kill)
    (late : before.Later after) : after.isThere = false := by
  have original : process.Later before := (later_receive process .term).trans asked
  cases ended : before.hasEnded with
  | true => exact isThere_of_hasEnded (late.ended ended)
  | false =>
    rw [killed ended]
    have stubborn : (process.receive .term).hasEnded = false := by
      cases h : (process.receive .term).hasEnded with
      | false => rfl
      | true => exact absurd ((asked.ended h).symm.trans ended) (by simp)
    have unheeded : process.heeds .term = false := by
      cases h : process.heeds .term with
      | false => rfl
      | true =>
        rw [receive, if_pos h] at stubborn
        exact absurd stubborn (by simp [hasEnded])
    have way : before.goneOnTerm = true ∨ before.ignoresTerm = true := by
      rw [original.goneOnTerm, original.ignoresTerm]
      simp only [heeds, isGone, reduceCtorEq, decide_false, Bool.false_or] at unheeded
      cases h : process.goneOnTerm <;> simp_all
    unfold receive
    split
    · simp [isThere, hasEnded]
    · next unkilled =>
      have gone : before.goneOnKill = true := by simpa [heeds, isGone] using unkilled
      rcases way with away | ignores
      · simp [isThere, away]
      · simp [isThere, ignores, gone]

end Process

namespace Station

variable {station : Station} {place : Nat} {process : Process}

/-- Whether the process at a place is still there. -/
def isThere (station : Station) (place : Nat) : Bool :=
  station.processes[place]?.any Process.isThere

theorem isAlive_eq (h : station.processes[place]? = some process) :
    station.isAlive place = !process.hasEnded := by
  unfold isAlive
  rw [h]

theorem isThere_eq (h : station.processes[place]? = some process) :
    station.isThere place = process.isThere := by
  unfold isThere
  rw [h]
  rfl

theorem getElem?_signal (h : station.processes[place]? = some process) (signal : Signal) :
    (station.signal place signal).processes[place]? = some (process.receive signal) := by
  change (station.processes.modify place _)[place]? = _
  rw [List.getElem?_modify_eq, h]
  rfl

/-- A process that is asked to end receives the signal, or had ended before; its end is not awaited if
it is gone. -/
theorem askToEnd_cases (h : station.processes[place]? = some process) :
    (station.askToEnd place = (false, station) ∧ process.isThere = false) ∨
      ∃ awaited, station.askToEnd place = (awaited, station.signal place .term) ∧
        (awaited = false → process.isThere = false) := by
  unfold askToEnd
  rw [h]
  dsimp only
  split
  · next ended => exact .inl ⟨rfl, Process.isThere_of_hasEnded ended⟩
  · refine .inr ⟨_, rfl, fun unawaited => Process.isThere_of_isGone ?_⟩
    simpa using unawaited

/-- A process is killed unless it has ended. -/
theorem killLate_cases (h : station.processes[place]? = some process) :
    (station.killLate place = station ∧ process.hasEnded = true) ∨
      station.killLate place = station.signal place .kill := by
  unfold killLate
  split
  · exact .inr rfl
  · next idle =>
    refine .inl ⟨rfl, ?_⟩
    rw [isAlive_eq h] at idle
    simp only [Bool.or_eq_true, Bool.not_eq_true', not_or, decide_eq_true_eq] at idle
    simpa using idle.1

end Station

end Montage
