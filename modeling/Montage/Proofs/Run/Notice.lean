import Montage.Proofs.Run.Traffic

/-!
# Who is told of a cancellation

A mark tells the runs of a key that it was cancelled. Whoever finds it takes it off; and whoever
begins with the key takes it off too, since the mark is on the key and not on a run. So a run is
told of a cancellation unless another run of its key has taken the mark off before; and a run whose
process cannot be started does not ask.

## Main definitions

* `Struck` — a run finds its key marked when it asks

## Main results

* `marked_iff` — a key is marked after a cancellation until somebody takes the mark off
* `Traffic.Reaches.cancelled_exactly` — which runs report that they were cancelled
-/

namespace Montage

section Marks

variable {n : Nat} {key : String} {earlier notes : List RunNote}

/-- A key is marked if it was cancelled and nobody has taken the mark off since. -/
theorem marked_iff : marked key notes = true ↔
    ∃ before after, notes = before ++ .cancels key :: after ∧
      ∀ note ∈ after, note.clears key = false := by
  rw [marked, latch_eq_true]
  constructor
  · rintro (⟨before, note, after, split, marks, kept⟩ | ⟨never, -⟩)
    · cases note with
      | cancels other =>
        obtain rfl : other = key := by simpa [RunNote.marks] using marks
        exact ⟨before, after, split, kept⟩
      | begins _ _ | attaches _ _ | turnsAway _ _ | ends _ _ _ | lists _ => cases marks
    · cases never
  · rintro ⟨before, after, split, kept⟩
    exact .inl ⟨before, _, after, split, by simp [RunNote.marks], kept⟩

/-- No mark outlasts the beginning of a run. -/
theorem marked_begins : marked key (earlier ++ .begins n key :: notes) = marked key notes := by
  have unmarked (was : Bool) :
      latch (RunNote.marks key) (RunNote.clears key) was (.begins n key :: notes) =
        marked key notes := by
    simp [latch, marked, RunNote.marks, RunNote.clears]
  rw [marked, latch_append, unmarked]

end Marks

/-- What a run finds when it asks whether its key was cancelled, after notes that were made since it
began: it asks at its end, or when its process is there if it is turned away then. -/
def Struck (n : Nat) (key : String) (notes : List RunNote) : Prop :=
  ∃ asked rest, notes = asked ++ rest ∧ (rest = [] ∨ ∃ more, rest = .turnsAway n key :: more) ∧
    ∃ before after, asked = before ++ .cancels key :: after ∧
      ∀ note ∈ after, note.clears key = false

namespace Struck

variable {n : Nat} {key : String} {notes : List RunNote}

theorem mem (h : Struck n key notes) : .cancels key ∈ notes := by
  obtain ⟨_, _, rfl, -, _, _, rfl, -⟩ := h
  simp

theorem of_marked (h : marked key notes = true) : Struck n key notes := by
  obtain ⟨before, after, split, kept⟩ := marked_iff.mp h
  exact ⟨notes, [], (List.append_nil _).symm, .inl rfl, before, after, split, kept⟩

/-- A run that was not turned away asks at its end. -/
theorem marked (h : Struck n key notes) (watched : .turnsAway n key ∉ notes) :
    Montage.marked key notes = true := by
  obtain ⟨asked, rest, rfl, rfl | ⟨more, rfl⟩, found⟩ := h
  · rw [List.append_nil]
    exact marked_iff.mpr found
  · simp at watched

end Struck

/-- What the diary notes of a run that has come to its end. -/
theorem exists_notes_of_filter {n : Nat} {key : String} {ending : Ending}
    {diary between : List RunNote}
    (h : diary.filter (RunNote.isOf n) = .begins n key :: (between ++ [.ends n key ending])) :
    ∃ earlier during later,
      diary = earlier ++ .begins n key :: (during ++ .ends n key ending :: later) ∧
        (∀ note ∈ earlier, note.isOf n = false) ∧ during.filter (RunNote.isOf n) = between ∧
          ∀ note ∈ later, note.isOf n = false := by
  obtain ⟨earlier, rest, rfl, before, -, hrest⟩ := List.filter_eq_cons_iff.mp h
  obtain ⟨front, back, rfl, hfront, hback⟩ := List.filter_eq_append_iff.mp hrest
  obtain ⟨waiting, later, rfl, calm, -, hlater⟩ := List.filter_eq_cons_iff.mp hback
  refine ⟨earlier, front ++ waiting, later, by simp, by simpa using before, ?_, ?_⟩
  · rw [List.filter_append, hfront, List.filter_eq_nil_iff.mpr calm, List.append_nil]
  · simpa using List.filter_eq_nil_iff.mp hlater

theorem failure?_concluded {isMarked : Bool} {code : Int} :
    (Ending.concluded isMarked code).failure? = some .cancelled ↔ isMarked = true := by
  unfold Ending.failure? RunOutcome.ofExit
  cases isMarked with
  | true => simp
  | false => by_cases code = 0 <;> simp [*]

namespace Traffic

variable {traffic : Traffic} {n : Nat} {run : EncoderRun} {key : String} {ending : Ending}

/-- What the diary notes of a run with a key that came back. -/
theorem Sound.exists_notes (sound : traffic.Sound) (hrun : traffic.runs[n]? = some run)
    (hkey : run.key = some key) (ended : run.stage = .over ending) (returned : ending.returns = true) :
    ∃ earlier during later,
      traffic.diary = earlier ++ .begins n key :: (during ++ .ends n key ending :: later) ∧
        (∀ note ∈ earlier ++ later, note.isOf n = false) ∧
        (.turnsAway n key ∈ during ↔ ending = .turnedAway) := by
  have story := sound.stories.story n run key hrun hkey
  rw [ended] at story
  obtain ⟨between, told, turned⟩ : ∃ between,
      traffic.diary.filter (RunNote.isOf n) = .begins n key :: (between ++ [.ends n key ending]) ∧
        (.turnsAway n key ∈ between ↔ ending = .turnedAway) := by
    cases ending with
    | notStarted => exact ⟨[], List.mem_singleton.mp story, by simp⟩
    | turnedAway => exact ⟨[.turnsAway n key], List.mem_singleton.mp story, by simp⟩
    | concluded isMarked code => exact ⟨[.attaches n key], List.mem_singleton.mp story, by simp⟩
    | refused | interrupted _ _ => cases returned
  obtain ⟨earlier, during, later, split, before, rfl, behind⟩ := exists_notes_of_filter told
  refine ⟨earlier, during, later, split, fun note hnote => ?_, ?_⟩
  · exact (List.mem_append.mp hnote).elim (before note) (behind note)
  · rw [← turned, List.mem_filter]
    simp [RunNote.isOf]

/-- A run that came back says that it was cancelled if it found its key marked when it asked: that
is, if the key was cancelled after it had begun and no run of the key has begun, or taken notice,
since. A run whose process could not be started does not say so in any case. -/
theorem Reaches.cancelled_exactly (reached : Reaches {} traffic) (hrun : traffic.runs[n]? = some run)
    (ended : run.stage = .over ending) (returned : ending.returns = true) :
    (run.key = none → ending.failure? ≠ some .cancelled) ∧
      ∀ key, run.key = some key → ∃ earlier during later,
        traffic.diary = earlier ++ .begins n key :: (during ++ .ends n key ending :: later) ∧
          (∀ note ∈ earlier ++ later, note.isOf n = false) ∧
          (ending.failure? = some .cancelled ↔ ending ≠ .notStarted ∧ Struck n key during) ∧
          ((∀ note ∈ during, note.clears key = false) →
            (ending.failure? = some .cancelled ↔ ending ≠ .notStarted ∧ .cancels key ∈ during)) := by
  have sound := sound_empty.reaches reached
  refine ⟨fun unkeyed reported => ?_, fun key hkey => ?_⟩
  · have calm := sound.stories.keyless run (List.mem_of_getElem? hrun) unkeyed
    rw [ended] at calm
    cases ending with
    | concluded isMarked code =>
      rw [failure?_concluded.mp reported] at calm
      cases calm
    | turnedAway => cases calm
    | refused | notStarted | interrupted _ _ => cases reported
  · obtain ⟨earlier, during, later, split, own, turned⟩ :=
      sound.exists_notes hrun hkey ended returned
    have report : ending.failure? = some .cancelled ↔ ending ≠ .notStarted ∧ Struck n key during := by
      cases ending with
      | refused | interrupted _ _ => cases returned
      | notStarted =>
        constructor
        · intro reported
          cases reported
        · exact fun h => absurd rfl h.1
      | turnedAway =>
        refine ⟨fun _ => ⟨by simp, ?_⟩, fun _ => rfl⟩
        obtain ⟨asked, more, rfl⟩ := List.append_of_mem (turned.mpr rfl)
        have true_ := sound.honest (earlier ++ .begins n key :: asked) (.turnsAway n key)
          (more ++ .ends n key .turnedAway :: later) (by rw [split]; simp)
        rw [RunNote.IsTrueOf, marked_begins] at true_
        exact ⟨asked, _, rfl, .inr ⟨more, rfl⟩, marked_iff.mp true_⟩
      | concluded isMarked code =>
        have true_ := sound.honest (earlier ++ .begins n key :: during)
          (.ends n key (.concluded isMarked code)) later (by rw [split]; simp)
        rw [RunNote.IsTrueOf, marked_begins] at true_
        have watched : .turnsAway n key ∉ during := fun away => by cases turned.mp away
        rw [failure?_concluded, true_]
        exact ⟨fun found => ⟨by simp, .of_marked found⟩, fun h => h.2.marked watched⟩
    refine ⟨earlier, during, later, split, own, report, fun kept => report.trans ?_⟩
    refine and_congr_right fun _ => ⟨Struck.mem, fun cancelled => ?_⟩
    obtain ⟨before, after, rfl⟩ := List.append_of_mem cancelled
    exact .of_marked (marked_iff.mpr ⟨before, after, rfl, fun note hnote => kept note (by simp [hnote])⟩)

end Traffic

/-! ### Runs with one key -/

/-- A run is told that its key was cancelled while its process was started. -/
theorem early_cancellation_is_reported :
    let traffic := ([.begin (some "clip"), .cancel "clip", .spawn 0 {}, .signal 0 .term, .leave 0] :
      List RunEvent).foldl Traffic.next {}
    traffic.runs[0]? = some ⟨some "clip", some 0, .over .turnedAway⟩ ∧
      Ending.turnedAway.failure? = some .cancelled ∧
      ∃ earlier during later, traffic.diary =
        earlier ++ .begins 0 "clip" :: (during ++ .ends 0 "clip" .turnedAway :: later) ∧
          Struck 0 "clip" during := by
  obtain ⟨-, told⟩ := Traffic.Reaches.cancelled_exactly
    (Traffic.reaches_foldl [.begin (some "clip"), .cancel "clip", .spawn 0 {}, .signal 0 .term,
      .leave 0] {}) (n := 0) rfl rfl rfl
  obtain ⟨earlier, during, later, split, -, reported, -⟩ := told "clip" rfl
  exact ⟨rfl, rfl, earlier, during, later, split, (reported.mp rfl).2⟩

/-- A cancellation takes place after a run has begun and before its end, and the run does not say that
it was cancelled: its process could not be started, or another run has begun with its key. -/
theorem exists_unreported :
    (∃ traffic run, Traffic.Reaches {} traffic ∧ traffic.runs[0]? = some run ∧
      run.stage = .over .notStarted ∧ Ending.notStarted.failure? = some .spawn ∧
      traffic.diary = [.begins 0 "clip", .cancels "clip", .ends 0 "clip" .notStarted]) ∧
    ∃ traffic run, Traffic.Reaches {} traffic ∧ traffic.runs[0]? = some run ∧
      run.stage = .over (.concluded false 0) ∧ (Ending.concluded false 0).failure? = none ∧
      traffic.diary = [.begins 0 "clip", .attaches 0 "clip", .cancels "clip", .begins 1 "clip",
        .ends 0 "clip" (.concluded false 0)] := by
  refine ⟨⟨_, _, Traffic.reaches_foldl [.begin (some "clip"), .cancel "clip", .failSpawn 0] {}, rfl,
    rfl, rfl, by decide⟩, _, _, Traffic.reaches_foldl [.begin (some "clip"), .spawn 0 {}, .cancel "clip",
      .begin (some "clip"), .exit 0 0, .conclude 0] {}, rfl, rfl, rfl, by decide⟩

end Montage
