import Montage.Proofs.Run.Listing

/-!
# Whose entry a key has

A key that is in use has one entry, and that is the entry of a run that is under way: of one whose
process is started if the entry has no process, and else of the one whose process it is. So a run
that is over has left nothing behind in the registry, whichever way it took to its end.

## Main definitions

* `EncoderRun.Holds` — a run has an entry of its key
* `Traffic.Held` — every entry is that of some run

## Main results

* `Traffic.Held.move` — every event keeps this
* `Traffic.Reaches.in_use_for` — a key is in use for a run that is under way
-/

namespace Montage

namespace Registry

variable {π : Type} {key other : String} {process : π} {entries : List (String × Option π)}

theorem keys_setProcess_of_mem (h : key ∈ entries.map (·.1)) :
    (setProcess key process entries).map (·.1) = entries.map (·.1) := by
  induction entries with
  | nil => exact absurd h List.not_mem_nil
  | cons entry rest ih =>
    obtain ⟨name, value⟩ := entry
    unfold setProcess
    by_cases same : name = key
    · rw [if_pos same]
      simp [same]
    · rw [if_neg same, List.map_cons, List.map_cons, ih]
      rcases List.mem_cons.mp h with here | there
      · exact absurd here.symm same
      · exact there

theorem setProcess_of_not_mem (h : key ∉ entries.map (·.1)) :
    setProcess key process entries = entries ++ [(key, some process)] := by
  induction entries with
  | nil => rfl
  | cons entry rest ih =>
    obtain ⟨name, value⟩ := entry
    rw [List.map_cons, List.mem_cons, not_or] at h
    rw [setProcess, if_neg (Ne.symm h.1), ih h.2, List.cons_append]

/-- To put a process under a key keeps the keys distinct. -/
theorem nodup_setProcess (h : (entries.map (·.1)).Nodup) :
    ((setProcess key process entries).map (·.1)).Nodup := by
  by_cases known : key ∈ entries.map (·.1)
  · rwa [keys_setProcess_of_mem known]
  · rw [setProcess_of_not_mem known, List.map_append]
    refine List.nodup_append.mpr ⟨h, List.nodup_singleton _, fun name hname other hother => ?_⟩
    rw [List.map_singleton, List.mem_singleton] at hother
    subst hother
    exact fun same => known (same ▸ hname)

/-- The entry of a key after a process was put under it, and the entries of the other keys. -/
theorem mem_setProcess_entry (distinct : (entries.map (·.1)).Nodup) {entry : String × Option π}
    (h : entry ∈ setProcess key process entries) :
    entry = (key, some process) ∨ (entry ∈ entries ∧ entry.1 ≠ key) := by
  induction entries with
  | nil => exact .inl (List.mem_singleton.mp h)
  | cons first rest ih =>
    obtain ⟨name, value⟩ := first
    rw [List.map_cons, List.nodup_cons] at distinct
    unfold setProcess at h
    by_cases same : name = key
    · rw [if_pos same] at h
      rcases List.mem_cons.mp h with rfl | behind
      · exact .inl rfl
      · refine .inr ⟨List.mem_cons_of_mem _ behind, fun twice => distinct.1 ?_⟩
        exact List.mem_map.mpr ⟨entry, behind, twice.trans same.symm⟩
    · rw [if_neg same] at h
      rcases List.mem_cons.mp h with rfl | behind
      · exact .inr ⟨List.mem_cons_self, same⟩
      · exact (ih distinct.2 behind).imp_right (And.imp_left (List.mem_cons_of_mem _))

variable {registry after : Registry π}

theorem mem_release {entry : String × Option π} (h : entry ∈ (registry.release key).entries) :
    entry ∈ registry.entries ∧ entry.1 ≠ key := by
  simpa [release] using h

theorem nodup_release (h : registry.keys.Nodup) : (registry.release key).keys.Nodup :=
  (List.filter_sublist.map _).nodup h

/-- A key finds its entry. -/
theorem lookup_of_mem (distinct : (entries.map (·.1)).Nodup) {value : Option π}
    (h : (key, value) ∈ entries) : entries.lookup key = some value := by
  induction entries with
  | nil => exact absurd h List.not_mem_nil
  | cons first rest ih =>
    obtain ⟨name, value'⟩ := first
    rw [List.map_cons, List.nodup_cons] at distinct
    rcases List.mem_cons.mp h with here | there
    · obtain ⟨rfl, rfl⟩ := Prod.mk.inj here
      exact List.lookup_cons_self
    · have differs : key ≠ name := fun same =>
        distinct.1 (same ▸ List.mem_map.mpr ⟨(key, value), there, rfl⟩)
      rw [List.lookup_cons, beq_false_of_ne differs]
      exact ih distinct.2 there

theorem contains_of_mem {entry : String × Option π} (h : entry ∈ registry.entries) :
    registry.contains entry.1 = true :=
  contains_eq_true.mpr (List.mem_map.mpr ⟨entry, h, rfl⟩)

end Registry

/-- Whether a run at this stage has an entry of its key. -/
def RunStage.holds : RunStage → Bool
  | .spawning | .watching | .stopping => true
  | .turnedAway | .over _ => false

theorem RunStage.not_isOver_of_holds {stage : RunStage} (h : stage.holds = true) :
    stage.isOver = false := by
  cases stage with
  | spawning | watching | turnedAway | stopping => rfl
  | _ => cases h

/-- A run has an entry of its key. -/
structure EncoderRun.Holds (run : EncoderRun) (entry : String × Option Nat) : Prop where
  key : run.key = some entry.1
  place : run.place = entry.2
  stage : run.stage.holds = true

namespace Traffic

/-- An entry of the registry is that of some run. -/
def Holder (runs : List EncoderRun) (entry : String × Option Nat) : Prop :=
  ∃ (m : Nat) (run : EncoderRun), runs[m]? = some run ∧ run.Holds entry

/-- Each key that is in use has one entry, which is that of some run, and no mark. -/
structure Held (traffic : Traffic) : Prop where
  distinct : traffic.registry.keys.Nodup
  apart : ∀ key, traffic.registry.isMarked key = true → traffic.registry.contains key = false
  held : ∀ entry ∈ traffic.registry.entries, Holder traffic.runs entry

section Moves

variable {traffic after : Traffic} {runs : List EncoderRun} {n : Nat} {run next : EncoderRun}
  {entry : String × Option Nat}

/-- A run gets on, and keeps the entry if it has it. -/
theorem Holder.set (h : Holder runs entry) (hrun : runs[n]? = some run)
    (keeps : run.Holds entry → next.Holds entry) : Holder (runs.set n next) entry := by
  obtain ⟨m, other, hother, holds⟩ := h
  by_cases here : n = m
  · subst here
    obtain rfl := Option.some.inj (hrun.symm.trans hother)
    exact ⟨n, next, List.getElem?_set_self (List.getElem?_eq_some_iff.mp hrun).1, keeps holds⟩
  · exact ⟨m, other, by rwa [List.getElem?_set_ne here], holds⟩

theorem Holder.append (h : Holder runs entry) (added : EncoderRun) :
    Holder (runs ++ [added]) entry := by
  obtain ⟨m, other, hother, holds⟩ := h
  exact ⟨m, other, by rwa [List.getElem?_append_left (List.getElem?_eq_some_iff.mp hother).1], holds⟩

/-- A run that ends without taking its key out has no entry of it. -/
theorem MayEnd.holds {ending : Ending} (may : traffic.MayEnd run ending)
    (kept : ending.releases = false) : run.stage.holds = false := by
  cases ending with
  | refused => exact may.elim
  | notStarted | concluded => cases kept
  | turnedAway =>
    rw [show run.stage = _ from may]
    rfl
  | interrupted releases abandons =>
    obtain rfl : releases = false := kept
    rw [show run.stage = _ from may.2]
    rfl

/-- A registry after a run has settled its key has fewer entries, and fewer marks. -/
theorem Held.settle (h : traffic.Held) (ending : Ending) (key : String) :
    let settled := ending.settle traffic.registry key
    settled.keys.Nodup ∧
      (∀ other, settled.isMarked other = true → settled.contains other = false) ∧
      ∀ entry ∈ settled.entries, entry ∈ traffic.registry.entries ∧
        (ending.releases = true → entry.1 ≠ key) := by
  simp only [Ending.settle]
  cases releases : ending.releases <;> cases clears : ending.clears
  · exact ⟨h.distinct, h.apart, fun entry hentry => ⟨hentry, by simp⟩⟩
  · refine ⟨h.distinct, fun other marked => ?_, fun entry hentry => ⟨hentry, by simp⟩⟩
    rw [if_pos rfl, Registry.isMarked_forgetCancelled, Bool.and_eq_true] at marked
    exact h.apart other marked.1
  · refine ⟨Registry.nodup_release h.distinct, fun other marked => ?_, fun entry hentry => ?_⟩
    · have free : traffic.registry.contains other = false := h.apart other marked
      change (traffic.registry.release key).contains other = false
      rw [Registry.contains_release, free, Bool.false_and]
    · exact ⟨(Registry.mem_release hentry).1, fun _ => (Registry.mem_release hentry).2⟩
  · refine ⟨Registry.nodup_release h.distinct, fun other marked => ?_, fun entry hentry => ?_⟩
    · rw [if_pos rfl, Registry.isMarked_forgetCancelled, Bool.and_eq_true] at marked
      have free : traffic.registry.contains other = false := h.apart other marked.1
      change (traffic.registry.release key).contains other = false
      rw [Registry.contains_release, free, Bool.false_and]
    · exact ⟨(Registry.mem_release hentry).1, fun _ => (Registry.mem_release hentry).2⟩

/-- A run gets on that has no entry. -/
theorem Held.idle (h : traffic.Held) (hrun : traffic.runs[n]? = some run)
    (none : ∀ entry ∈ traffic.registry.entries, ¬ run.Holds entry) (next : EncoderRun) :
    ∀ entry ∈ traffic.registry.entries, Holder (traffic.runs.set n next) entry :=
  fun entry hentry => (h.held entry hentry).set hrun fun holds => absurd holds (none entry hentry)

/-- A run enters the registry. -/
theorem Held.enter (h : traffic.Held) {key : String} {registry : Registry Nat}
    (admitted : traffic.registry.reserve? key = some registry) :
    registry.keys.Nodup ∧
      (∀ other, registry.isMarked other = true → registry.contains other = false) ∧
      ∀ entry ∈ registry.entries, Holder (traffic.runs ++ [({ key := some key } : EncoderRun)]) entry := by
  obtain ⟨free, contains⟩ := Registry.contains_of_reserve? admitted
  have entries : registry.entries = traffic.registry.entries ++ [(key, none)] := by
    rw [Registry.reserve?, if_neg (by simp [free])] at admitted
    rw [← Option.some.inj admitted]
    rfl
  refine ⟨?_, fun other marked => ?_, fun entry hentry => ?_⟩
  · have fresh : key ∉ traffic.registry.keys := fun known =>
      absurd (free.symm.trans (Registry.contains_eq_true.mpr known)) (by simp)
    unfold Registry.keys
    rw [entries, List.map_append]
    refine List.nodup_append.mpr ⟨h.distinct, List.nodup_singleton _, ?_⟩
    intro name hname other hother same
    obtain rfl : other = key := List.mem_singleton.mp hother
    exact fresh (same ▸ hname)
  · rw [Registry.isMarked_of_reserve? admitted, Bool.and_eq_true, decide_eq_true_iff] at marked
    rw [contains other, h.apart other marked.1]
    simp [marked.2]
  · rw [entries] at hentry
    rcases List.mem_append.mp hentry with old | new
    · exact (h.held entry old).append _
    · obtain rfl := List.mem_singleton.mp new
      exact ⟨traffic.runs.length, _, List.getElem?_concat_length, ⟨rfl, rfl, rfl⟩⟩

/-- The process of a run is put under its key. -/
theorem Held.attach (h : traffic.Held) {key : String} {registry : Registry Nat} {place : Nat}
    (hrun : traffic.runs[n]? = some run) (hkey : run.key = some key)
    (attached : traffic.registry.attach key place = .attached registry) :
    registry.keys.Nodup ∧
      (∀ other, registry.isMarked other = true → registry.contains other = false) ∧
      ∀ entry ∈ registry.entries,
        Holder (traffic.runs.set n { run with place := some place, stage := .watching }) entry := by
  unfold Registry.attach at attached
  split at attached
  · cases attached
  next unmarked =>
  split at attached
  · cases attached
  obtain rfl := Registry.Attachment.attached.inj attached
  refine ⟨Registry.nodup_setProcess h.distinct, fun other marked => ?_, fun entry hentry => ?_⟩
  · refine Registry.contains_setProcess.trans ?_
    have differs : other ≠ key := fun same => unmarked (same ▸ marked)
    rw [h.apart other marked]
    simp [differs]
  · rcases Registry.mem_setProcess_entry h.distinct hentry with rfl | ⟨old, differs⟩
    · exact ⟨n, _, List.getElem?_set_self (List.getElem?_eq_some_iff.mp hrun).1, ⟨hkey, rfl, rfl⟩⟩
    · refine (h.held entry old).set hrun fun holds => ?_
      exact absurd (Option.some.inj (holds.key.symm.trans hkey)) differs

/-- A run whose key has the process of another run has no entry. -/
theorem Held.not_holds_of_inUse (h : traffic.Held) {key : String} {place : Nat}
    (used : traffic.registry.attach key place = .inUse) (hkey : run.key = some key)
    (unplaced : run.place = none) : ∀ entry ∈ traffic.registry.entries, ¬ run.Holds entry := by
  intro entry hentry holds
  obtain ⟨name, value⟩ := entry
  obtain rfl : name = key := Option.some.inj (holds.key.symm.trans hkey)
  obtain rfl : none = value := unplaced.symm.trans holds.place
  unfold Registry.attach at used
  split at used
  · cases used
  split at used
  next there =>
    rw [Registry.process?, Registry.lookup_of_mem h.distinct hentry] at there
    cases there
  · cases used

/-- Every event keeps the entries with their runs. -/
theorem Held.move (h : traffic.Held) (sound : traffic.Sound) (move : Move traffic after) :
    after.Held := by
  -- Without a key a run has no entry.
  have keyless {run : EncoderRun} (hkey : run.key = none) :
      ∀ entry ∈ traffic.registry.entries, ¬ run.Holds entry := fun entry _ holds =>
    absurd (holds.key.symm.trans hkey) (by simp)
  cases move with
  | rest | list _ | change _ => exact ⟨h.distinct, h.apart, h.held⟩
  | refuse used => exact ⟨h.distinct, h.apart, fun entry hentry => (h.held entry hentry).append _⟩
  | @enter key registry admitted =>
    cases key with
    | none =>
      obtain rfl := Option.some.inj admitted
      exact ⟨h.distinct, h.apart, fun entry hentry => (h.held entry hentry).append _⟩
    | some key =>
      obtain ⟨distinct, apart, held⟩ := h.enter admitted
      exact ⟨distinct, apart, held⟩
  | @attach n run registry process hrun spawning attached =>
    cases hkey : run.key with
    | none =>
      rw [hkey] at attached
      obtain rfl := Registry.Attachment.attached.inj attached
      exact ⟨h.distinct, h.apart, h.idle hrun (keyless hkey) _⟩
    | some key =>
      rw [hkey] at attached
      obtain ⟨distinct, apart, held⟩ := h.attach hrun hkey attached
      exact ⟨distinct, apart, hkey ▸ held⟩
  | @turnAway n run process hrun spawning cancelled =>
    obtain ⟨name, hname, marked⟩ := Registry.isMarked_of_turnedAway cancelled
    refine ⟨h.distinct, h.apart, h.idle hrun (fun entry hentry holds => ?_) _⟩
    -- A key that is marked is not in use.
    have used : traffic.registry.contains name = true := by
      rw [← Option.some.inj (holds.key.symm.trans hname)]
      exact Registry.contains_of_mem hentry
    exact absurd (used.symm.trans (h.apart name marked)) (by simp)
  | @shutOut n run process hrun spawning used =>
    have unplaced := sound.unplaced run (List.mem_of_getElem? hrun) spawning
    cases hkey : run.key with
    | none =>
      rw [hkey] at used
      cases used
    | some key =>
      rw [hkey] at used
      have none := h.not_holds_of_inUse used hkey unplaced
      exact ⟨h.distinct, h.apart, h.idle hrun none _⟩
  | @finish n run ending hrun may =>
    cases hkey : run.key with
    | none =>
      refine ⟨?_, ?_, ?_⟩ <;> dsimp only [finish, noteKey, put] <;> rw [hkey]
      · exact h.distinct
      · exact h.apart
      · exact h.idle hrun (keyless hkey) _
    | some key =>
      obtain ⟨distinct, apart, fewer⟩ := h.settle ending key
      refine ⟨?_, ?_, fun entry hentry => ?_⟩ <;> dsimp only [finish, noteKey, put] <;>
        rw [hkey]
      · exact distinct
      · exact apart
      · dsimp only [finish, noteKey, put] at hentry
        rw [hkey] at hentry
        obtain ⟨old, others⟩ := fewer entry hentry
        refine (h.held entry old).set hrun fun holds => ?_
        -- Either the entry of the key is gone, or the run had none.
        cases releases : ending.releases with
        | false => exact absurd (holds.stage.symm.trans (may.holds releases)) (by simp)
        | true => exact absurd (Option.some.inj (holds.key.symm.trans hkey)) (others releases)
  | @stop n run hrun watching =>
    refine ⟨h.distinct, h.apart, fun entry hentry => (h.held entry hentry).set hrun fun holds => ?_⟩
    exact ⟨holds.key, holds.place, rfl⟩
  | @cancel key found used =>
    have cancelled : found.2 = (traffic.registry.release key).markCancelled key := by
      unfold Registry.cancel? at used
      split at used
      · rw [← Option.some.inj used]
      · cases used
    refine ⟨?_, fun other marked => ?_, fun entry hentry => h.held entry ?_⟩
    · exact cancelled ▸ Registry.nodup_release h.distinct
    · change found.2.contains other = false
      have marked' : found.2.isMarked other = true := marked
      rw [Registry.isMarked_of_cancel? used, Bool.or_eq_true, decide_eq_true_iff] at marked'
      rw [(Registry.contains_of_cancel? used).2 other]
      rcases marked' with before | rfl
      · rw [h.apart other before, Bool.false_and]
      · simp
    · have hentry' : entry ∈ found.2.entries := hentry
      rw [cancelled] at hentry'
      exact (Registry.mem_release hentry').1

theorem held_empty : Held {} where
  distinct := List.nodup_nil
  apart _ _ := rfl
  held _ h := absurd h List.not_mem_nil

theorem Held.reaches {first : Traffic} (h : first.Held) (sound : first.Sound)
    (reached : Reaches first traffic) : traffic.Held :=
  Leads.keeps Held reached h fun traffic event earlier _ h =>
    h.move (sound.reaches earlier) (next_moves traffic event)

/-- A key that is in use is so for a run that is under way. -/
theorem Reaches.in_use_for (reached : Reaches {} traffic) {key : String}
    (used : traffic.registry.contains key = true) :
    ∃ run ∈ traffic.runs, run.key = some key ∧ run.stage.isOver = false := by
  obtain ⟨entry, hentry, rfl⟩ := List.mem_map.mp (Registry.contains_eq_true.mp used)
  obtain ⟨m, run, hrun, holds⟩ := (held_empty.reaches sound_empty reached).held entry hentry
  exact ⟨run, List.mem_of_getElem? hrun, holds.key, RunStage.not_isOver_of_holds holds.stage⟩

end Moves

end Traffic

end Montage
