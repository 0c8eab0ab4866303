import Montage.Proofs.Run.Traffic

/-!
# How long a key is in use

A key is put into the registry when a run begins, and is taken out when the run ends. As long as
nobody cancels the key and no run of it leaves its process behind, it stays there while the process of the run
does, and there is one such run at most. But to cancel a key takes it out at once, while its process
may take its time to end; then another run gets the key, and the end of the first one takes out what
is the other's.

## Main definitions

* `Traffic.Busy` — a run with a key has not ended, or its process has not
* `Undisturbed` — a key is not cancelled, and no run of it leaves its process behind

## Main results

* `Traffic.Exclusive.move` — whoever is busy with a key is alone, and finds it in the registry
* `Traffic.Reaches.listed_exactly` — when a key is in use, and what follows for the runs that are
  busy with it
-/

namespace Montage

/-- A key is not cancelled, and no run of it leaves its process behind. -/
def Undisturbed (key : String) (notes : List RunNote) : Prop :=
  ∀ note ∈ notes, note ≠ .cancels key ∧
    ∀ n ending, note = .ends n key ending → ending.abandons = false

/-- A key is taken out of the registry in peace only when a run of it ends. -/
theorem Undisturbed.removes {key : String} {note : RunNote} (h : Undisturbed key [note])
    (removes : note.removes key = true) :
    ∃ n ending, note = .ends n key ending ∧ ending.releases = true ∧
      ending.abandons = false := by
  obtain ⟨uncancelled, settled⟩ := h note List.mem_cons_self
  cases note with
  | cancels other =>
    obtain rfl : other = key := by simpa [RunNote.removes] using removes
    exact absurd rfl uncancelled
  | ends n other ending =>
    obtain ⟨rfl, releases⟩ : other = key ∧ ending.releases = true := by
      simpa [RunNote.removes] using removes
    exact ⟨n, ending, rfl, releases, settled n ending rfl⟩
  | begins _ _ | attaches _ _ | turnsAway _ _ | lists _ => cases removes

def RunStage.isOver : RunStage → Bool
  | .over _ => true
  | .spawning | .watching | .turnedAway | .stopping => false

namespace Traffic

/-- A run with a key has not ended, or its process has not. -/
def Busy (traffic : Traffic) (key : String) (n : Nat) : Prop :=
  ∃ run, traffic.runs[n]? = some run ∧ run.key = some key ∧
    (run.stage.isOver = false ∨ ∃ place, run.place = some place ∧ traffic.isAlive place = true)

/-- Whoever is busy with a key is alone, and finds it in the registry. -/
def Exclusive (traffic : Traffic) (key : String) : Prop :=
  ∀ n, traffic.Busy key n →
    traffic.registry.contains key = true ∧ ∀ m, traffic.Busy key m → m = n

section Moves

variable {traffic after : Traffic} {key : String} {n m : Nat} {run next : EncoderRun}

/-- What has ended stays so. -/
theorem Move.isAlive (move : Move traffic after) {place : Nat}
    (known : place < traffic.processes.length) (alive : after.isAlive place = true) :
    traffic.isAlive place = true := by
  have append (process : Process) (registry : Registry Nat) (runs : List EncoderRun)
      (diary : List RunNote)
      (alive : Traffic.isAlive ⟨registry, traffic.processes ++ [process], runs, diary⟩ place = true) :
      traffic.isAlive place = true := by
    unfold Traffic.isAlive at alive
    rwa [List.getElem?_append_left known] at alive
  cases move with
  | attach _ _ _ _ | turnAway _ _ _ _ | shutOut _ _ _ _ => exact append _ _ _ _ alive
  | @change place' change later =>
    unfold Traffic.isAlive at alive ⊢
    rw [List.getElem?_modify] at alive
    cases hprocess : traffic.processes[place]? with
    | none => simp [hprocess] at alive
    | some process =>
      by_cases dead : process.hasEnded = true
      · by_cases here : place' = place
        · simp [hprocess, here, (later process).ended dead] at alive
        · simp [hprocess, here, dead] at alive
      · simpa using dead
  | rest | refuse _ | enter _ | finish _ _ | stop _ _ | cancel _ | list _ => exact alive

/-- A run that has not got on was busy before. -/
theorem Busy.of_same (h : after.Busy key m) (sound : traffic.Sound) (move : Move traffic after)
    (same : after.runs[m]? = traffic.runs[m]?) : traffic.Busy key m := by
  obtain ⟨run, hrun, hkey, busy⟩ := h
  rw [same] at hrun
  refine ⟨run, hrun, hkey, busy.imp_right ?_⟩
  rintro ⟨place, hplace, alive⟩
  have known := sound.places run (List.mem_of_getElem? hrun) place hplace
  exact ⟨place, hplace, move.isAlive known alive⟩

/-- When one run gets on that was not over, who is busy was so before. -/
theorem Busy.of_put (h : after.Busy key m) (sound : traffic.Sound) (move : Move traffic after)
    (hrun : traffic.runs[n]? = some run) (goes : run.stage.isOver = false)
    (put : after.runs = traffic.runs.set n next) (same : next.key = run.key) :
    traffic.Busy key m := by
  by_cases here : n = m
  · subst here
    obtain ⟨inside, -⟩ := List.getElem?_eq_some_iff.mp hrun
    obtain ⟨other, hother, hkey, -⟩ := h
    rw [put, List.getElem?_set_self inside] at hother
    obtain rfl := Option.some.inj hother
    exact ⟨run, hrun, same ▸ hkey, .inl goes⟩
  · exact h.of_same sound move (by rw [put, List.getElem?_set_ne here])

/-- When a run is added, who is busy was so before, or is the new one. -/
theorem Busy.of_add (h : after.Busy key m) (sound : traffic.Sound) (move : Move traffic after)
    (add : after.runs = traffic.runs ++ [next]) :
    traffic.Busy key m ∨ (m = traffic.runs.length ∧ after.runs[m]? = some next) := by
  obtain ⟨run, hrun, -⟩ := id h
  obtain ⟨inside, -⟩ := List.getElem?_eq_some_iff.mp hrun
  rw [add, List.length_append, List.length_singleton] at inside
  rcases Nat.lt_succ_iff_lt_or_eq.mp inside with old | rfl
  · exact .inl (h.of_same sound move (by rw [add, List.getElem?_append_left old]))
  · exact .inr ⟨rfl, by rw [add, List.getElem?_concat_length]⟩

/-- A run that ends had not ended before. -/
theorem MayEnd.goes {ending : Ending} (may : traffic.MayEnd run ending) :
    run.stage.isOver = false := by
  cases ending with
  | refused => exact may.elim
  | notStarted | turnedAway =>
    rw [show run.stage = _ from may]
    rfl
  | concluded isMarked code =>
    rw [may.1]
    rfl
  | interrupted releases abandons =>
    obtain ⟨-, may⟩ := may
    cases releases with
    | false =>
      rw [show run.stage = _ from may]
      rfl
    | true => rcases may with stage | stage | stage <;> rw [stage] <;> rfl

/-- When a run takes its key out of the registry and does not leave its process behind, its process has
ended or was never there. -/
theorem MayEnd.not_isAlive {ending : Ending} (may : traffic.MayEnd run ending) (sound : traffic.Sound)
    (hrun : traffic.runs[n]? = some run) (released : ending.releases = true)
    (settled : ending.abandons = false) {place : Nat}
    (hplace : run.place = some place) : traffic.isAlive place = false := by
  cases ending with
  | refused | turnedAway => cases released
  | interrupted releases abandons =>
    have left := may.1.symm.trans settled
    rwa [hplace, Option.any_some] at left
  | notStarted =>
    have unplaced := sound.unplaced run (List.mem_of_getElem? hrun) may
    exact absurd (unplaced.symm.trans hplace) (by simp)
  | concluded isMarked code =>
    have ended := may.2.2
    rw [hplace, Option.bind_some, exitCode?] at ended
    obtain ⟨process, hprocess, exited⟩ := Option.bind_eq_some_iff.mp ended
    simp [isAlive, hprocess, Process.hasEnded, exited]

/-- Who is busy with a key was so before, or has begun now and has found the key unused. -/
theorem Move.busy (move : Move traffic after) (sound : traffic.Sound) (h : after.Busy key m) :
    traffic.Busy key m ∨ (m = traffic.runs.length ∧ traffic.registry.contains key = false ∧
      after.registry.contains key = true) := by
  have same := h.of_same sound move
  have put {n : Nat} {run next : EncoderRun} (hrun : traffic.runs[n]? = some run)
      (goes : run.stage.isOver = false) (put : after.runs = traffic.runs.set n next) :=
    h.of_put sound move hrun goes put
  cases move with
  | rest | cancel _ | list _ | change _ => exact .inl (same rfl)
  | refuse used =>
    refine (h.of_add sound (.refuse used) rfl).imp_right ?_
    rintro ⟨rfl, hrun⟩
    obtain ⟨_, hrun', -, goes | ⟨_, unplaced, -⟩⟩ := h <;>
      obtain rfl := Option.some.inj (hrun.symm.trans hrun')
    · cases goes
    · cases unplaced
  | enter admitted =>
    refine (h.of_add sound (.enter admitted) rfl).imp_right ?_
    rintro ⟨rfl, hrun⟩
    obtain ⟨_, hrun', hkey, -⟩ := h
    obtain rfl := Option.some.inj (hrun.symm.trans hrun')
    obtain rfl : _ = some key := hkey
    obtain ⟨free, contains⟩ := Registry.contains_of_reserve? admitted
    refine ⟨rfl, free, (contains key).trans ?_⟩
    simp
  | attach _ hrun spawning _ | turnAway _ hrun spawning _ | shutOut _ hrun spawning _ =>
    exact .inl (put hrun (by rw [spawning]; rfl) rfl rfl)
  | finish hrun may => exact .inl (put hrun may.goes rfl rfl)
  | stop hrun watching => exact .inl (put hrun (by rw [watching]; rfl) rfl rfl)

/-- Where something is noted of the end of a run, the run was busy before; and it is busy no more,
unless it leaves its key alone or its process behind. -/
theorem Move.ends (move : Move traffic after) (sound : traffic.Sound) {ending : Ending}
    (noted : after.diary = traffic.diary ++ [.ends n key ending]) :
    traffic.Busy key n ∧ (ending.releases = true → ending.abandons = false → ¬after.Busy key n) := by
  have one {key' : Option String} {what : String → RunNote}
      (same : traffic.diary ++ key'.toList.map what = traffic.diary ++ [.ends n key ending]) :
      ∃ name, key' = some name ∧ what name = .ends n key ending := by
    have := List.append_cancel_left same
    cases key' with
    | none => cases this
    | some name => exact ⟨name, rfl, List.singleton_inj.mp this⟩
  have none' (same : traffic.diary = traffic.diary ++ [.ends n key ending]) : False := by
    simp at same
  cases move with
  | rest | refuse _ | stop _ _ | change _ => exact (none' noted).elim
  | list _ | cancel _ => cases List.append_cancel_left noted
  | enter _ | attach _ _ _ _ | turnAway _ _ _ _ =>
    obtain ⟨_, -, same⟩ := one noted
    cases same
  | shutOut _ hrun spawning _ =>
    obtain ⟨_, hkey, same⟩ := one noted
    cases same
    exact ⟨⟨_, hrun, hkey, .inl (by rw [spawning]; rfl)⟩, fun released => by cases released⟩
  | finish hrun may =>
    obtain ⟨_, hkey, same⟩ := one noted
    cases same
    refine ⟨⟨_, hrun, hkey, .inl may.goes⟩, fun released settled busy => ?_⟩
    obtain ⟨_, hover, -, goes | ⟨place, hplace, alive⟩⟩ := busy <;>
      obtain rfl := Option.some.inj ((List.getElem?_set_self
        (List.getElem?_eq_some_iff.mp hrun).1).symm.trans hover)
    · cases goes
    · have dead : traffic.isAlive place = false :=
        may.not_isAlive sound hrun released settled hplace
      exact absurd (dead.symm.trans alive) (by simp)

/-- Whoever is busy with a key stays alone, and finds it in the registry, as long as the key is not
cancelled and no run of it leaves its process behind. -/
theorem Exclusive.move (h : traffic.Exclusive key) (sound : traffic.Sound)
    (move : Move traffic after) {notes : List RunNote} (noted : after.diary = traffic.diary ++ notes)
    (calm : Undisturbed key notes) : after.Exclusive key := by
  obtain ⟨notes', noted', short, follows⟩ := move.follows
  obtain rfl : notes = notes' := List.append_cancel_left (noted.symm.trans noted')
  intro n busy
  by_cases removed : ∃ note, notes = [note] ∧ note.removes key = true
  · -- The one run that was busy has ended, and its process with it.
    obtain ⟨note, rfl, removes⟩ := removed
    obtain ⟨ended, ending, rfl, releases, settled⟩ := calm.removes removes
    obtain ⟨was, is⟩ := move.ends sound noted
    obtain ⟨contains, alone⟩ := h ended was
    rcases move.busy sound busy with before | ⟨-, free, -⟩
    · exact absurd (alone n before ▸ busy) (is releases settled)
    · exact absurd (contains.symm.trans free) (by simp)
  · have kept (contains : traffic.registry.contains key = true) :
        after.registry.contains key = true := by
      rw [(follows key).1, contains, latch_eq_true]
      refine .inr ⟨rfl, fun note hnote => ?_⟩
      have only : notes = [note] := by
        cases notes with
        | nil => cases hnote
        | cons first rest =>
          obtain rfl : rest = [] := List.length_eq_zero_iff.mp (by simpa using short)
          rw [List.mem_singleton.mp hnote]
      exact Bool.eq_false_iff.mpr fun removes => removed ⟨note, only, removes⟩
    rcases move.busy sound busy with before | ⟨rfl, free, contains⟩
    · obtain ⟨contains, alone⟩ := h n before
      refine ⟨kept contains, fun m other => ?_⟩
      rcases move.busy sound other with earlier | ⟨-, free, -⟩
      · exact alone m earlier
      · exact absurd (contains.symm.trans free) (by simp)
    · refine ⟨contains, fun m other => ?_⟩
      rcases move.busy sound other with earlier | ⟨new, -, -⟩
      · exact absurd ((h m earlier).1.symm.trans free) (by simp)
      · exact new

end Moves

section Runs

variable {start traffic : Traffic} {key : String}

/-- From a moment on when nobody is busy with a key, at most one run is, and it finds the key in the
registry, until the key is cancelled or a run of it leaves its process behind. -/
theorem Reaches.keeps_exclusive (reached : Reaches start traffic) (sound : start.Sound)
    (idle : ∀ n, ¬start.Busy key n) :
    ∃ since, traffic.diary = start.diary ++ since ∧
      (Undisturbed key since → traffic.Exclusive key) := by
  let alone (traffic : Traffic) : Prop := ∃ since, traffic.diary = start.diary ++ since ∧
    (Undisturbed key since → traffic.Exclusive key)
  have nobody : alone start :=
    ⟨[], (List.append_nil _).symm, fun _ n busy => absurd busy (idle n)⟩
  refine Leads.keeps alone reached nobody fun middle event earlier _ h => ?_
  obtain ⟨since, split, exclusive⟩ := h
  obtain ⟨notes, noted, -, -⟩ := (next_moves middle event).follows
  refine ⟨since ++ notes, by rw [noted, split, List.append_assoc], fun calm => ?_⟩
  have before : Undisturbed key since := fun note hnote => calm note (List.mem_append_left _ hnote)
  exact (exclusive before).move (sound.reaches earlier) (next_moves middle event) noted
    fun note hnote => calm note (List.mem_append_right _ hnote)

/-- A key is in use exactly when it was put into the registry and not taken out since; a run whose
key is in use is refused, and changes nothing. From a moment on when nobody is busy with a key, as
long as it is not cancelled and no run of it leaves its process behind, every run that has not ended, or whose
process has not, finds its key in use and is the only one of that key; and so a run that takes the
key out at its end takes out nobody else's. But whoever cancels a key takes it out at once, and the
run that is busy with it stays busy. -/
theorem Reaches.listed_exactly (before : Reaches {} start) (reached : Reaches start traffic)
    (key : String) :
    traffic.registry.contains key = listed key traffic.diary ∧
      (traffic.registry.contains key = true → traffic.next (.begin (some key)) =
        { traffic with
          runs := traffic.runs ++ [{ key := some key, stage := .over .refused }] }) ∧
      (∀ since, traffic.diary = start.diary ++ since → (∀ n, ¬start.Busy key n) →
        Undisturbed key since →
          (∀ n, traffic.Busy key n →
            traffic.registry.contains key = true ∧ ∀ m, traffic.Busy key m → m = n) ∧
          ∀ event n ending, (traffic.next event).diary = traffic.diary ++ [.ends n key ending] →
            ∀ m, traffic.Busy key m → m = n) ∧
      ∀ n, traffic.Busy key n → (traffic.next (.cancel key)).registry.contains key = false ∧
        (traffic.next (.cancel key)).Busy key n := by
  have first := sound_empty.reaches before
  have sound := first.reaches reached
  refine ⟨sound.contains_eq key, fun used => ?_, fun since split idle calm => ?_, fun n busy => ?_⟩
  · have refused : traffic.registry.admit? (some key) = none :=
      Registry.reserve?_eq_none.mpr used
    change traffic.begin (some key) = _
    rw [begin, refused]
  · obtain ⟨since', split', exclusive⟩ := reached.keeps_exclusive first idle
    obtain rfl := List.append_cancel_left (split.symm.trans split')
    refine ⟨exclusive calm, fun event n ending noted m busy => ?_⟩
    have ends := (next_moves traffic event).ends sound noted
    exact (exclusive calm n ends.1).2 m busy
  · change (traffic.cancel key).registry.contains key = false ∧ (traffic.cancel key).Busy key n
    unfold cancel
    split
    · next used =>
      refine ⟨?_, busy⟩
      rw [(Registry.contains_of_cancel? used).2 key]
      simp
    · next unused => exact ⟨Registry.cancel?_eq_none.mp unused, busy⟩

end Runs

end Traffic

/-! ### A key that is cancelled -/

namespace OneKey

/-- A run with a key, whose process will not end when it is asked to. -/
def running : List RunEvent := [.begin (some "clip"), .spawn 0 { ignoresTerm := true }]

def traffic (events : List RunEvent) : Traffic := events.foldl Traffic.next {}

end OneKey

/-- Nobody else gets the key of a run whose process is there. -/
theorem running_clip_keeps_key :
    let traffic := OneKey.traffic OneKey.running
    traffic.Busy "clip" 0 ∧ traffic.registry.contains "clip" = true ∧
      (∀ m, traffic.Busy "clip" m → m = 0) ∧
      (traffic.next (.begin (some "clip"))).runs =
        traffic.runs ++ [{ key := some "clip", stage := .over .refused }] := by
  have reached : Traffic.Reaches {} (OneKey.traffic OneKey.running) := Traffic.reaches_foldl _ _
  have idle (n : Nat) : ¬Traffic.Busy {} "clip" n := fun ⟨_, hrun, _⟩ => by simp at hrun
  have calm : Undisturbed "clip" [.begins 0 "clip", .attaches 0 "clip"] := by
    simp [Undisturbed]
  have busy : (OneKey.traffic OneKey.running).Busy "clip" 0 := ⟨_, rfl, rfl, .inl rfl⟩
  obtain ⟨-, refused, alone, -⟩ := Traffic.Reaches.listed_exactly .refl reached "clip"
  obtain ⟨contains, only⟩ := (alone _ rfl idle calm).1 0 busy
  exact ⟨busy, contains, only, congrArg Traffic.runs (refused contains)⟩

/-- A key that is cancelled is not in use while its process still runs; another run gets it, so two
processes of one key are there; and the end of the first run takes the key of the second one out of
the registry. -/
theorem exists_unlisted :
    ∃ first second third, Traffic.Reaches {} first ∧ Traffic.Reaches first second ∧
      Traffic.Reaches second third ∧
      (first.Busy "clip" 0 ∧ first.isAlive 0 = true ∧ first.registry.contains "clip" = false) ∧
      (second.Busy "clip" 0 ∧ second.isAlive 0 = true ∧ second.Busy "clip" 1 ∧
        second.isAlive 1 = true) ∧
      (second.registry.contains "clip" = true ∧
        third.runs[0]? = some ⟨some "clip", some 0, .over (.concluded false (-9))⟩ ∧
        third.Busy "clip" 1 ∧ third.isAlive 1 = true ∧
        third.registry.contains "clip" = false) := by
  let cancelled := OneKey.traffic (OneKey.running ++ [.cancel "clip", .signal 0 .term])
  let taken := [RunEvent.begin (some "clip"), .spawn 1 {}].foldl Traffic.next cancelled
  let gone := [RunEvent.signal 0 .kill, .conclude 0].foldl Traffic.next taken
  refine ⟨cancelled, taken, gone, Traffic.reaches_foldl _ _, Traffic.reaches_foldl _ _,
    Traffic.reaches_foldl _ _, ⟨⟨_, rfl, rfl, .inl rfl⟩, rfl, rfl⟩,
    ⟨⟨_, rfl, rfl, .inl rfl⟩, rfl, ⟨_, rfl, rfl, .inl rfl⟩, rfl⟩,
    ⟨by decide, rfl, ⟨_, rfl, rfl, .inl rfl⟩, rfl, by decide⟩⟩

end Montage
