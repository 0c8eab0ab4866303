import Montage.Proofs.Action
import Montage.Proofs.Number.Share
import Montage.Proofs.Run.Progress
import Montage.Proofs.Text.Numeral

/-!
# Values in reports that cannot be read

Most of what a report holds is looked at before it is read: a value of digits is read as a number,
any other is passed over. But digits need not make a number, and a number need not be a double.

## Main definitions

* `Clock` — the parts of a time of day
* `ClockPromise`, `Clock.Slips` — what is promised of a time of day, and what slips through
* `ClockBeyond` — times of day beyond all doubles
* `ProgressReader.MockCount`, `ProgressReader.MockFrame` — what is taken for a number and is none
* `ProgressReader.BlockFault` — the blocks that cannot be read

## Main results

* `clockSeconds_keeps_iff` — the times of day for which the promise is kept
* `clockSeconds_eq_error_iff`, `ProgressReader.blockUpdate_eq_error_iff` — these fail, and no others
-/

namespace Montage

/-! ### Times of day -/

theorem cutAtColons_eq (cs : List Char) :
    (cutAtColons cs).1 :: (cutAtColons cs).2 = cs.splitOnP (· = ':') := by
  induction cs with
  | nil => rfl
  | cons c cs ih =>
    rw [List.splitOnP_cons_eq_if_modifyHead, ← ih, cutAtColons]
    by_cases colon : c = ':'
    · simp only [colon, decide_true, if_true]
    · simp only [colon, decide_false, Bool.false_eq_true, if_false, List.modifyHead_cons]

/-- The parts of a time of day. -/
structure Clock where
  hours : Int
  minutes : Int
  seconds : Double

namespace Clock

/-- The parts of a text, if there are three of them and each is a number. -/
def read? (text : String) : Option Clock :=
  match (Text.strip text.toList).splitOnP (· = ':') with
  | [hours, minutes, seconds] => do
    return ⟨← Text.whole? (String.ofList hours), ← Text.whole? (String.ofList minutes),
      ← Text.decimal? (String.ofList seconds)⟩
  | _ => none

/-- The seconds in the hours and minutes. -/
def wholeSeconds (clock : Clock) : Int := clock.hours * 3600 + clock.minutes * 60

/-- A part is negative, not finite, or too large for a double. -/
def IsMalformed (clock : Clock) : Prop :=
  clock.hours < 0 ∨ clock.minutes < 0 ∨ clock.seconds < Scalar.zero ∨
    clock.seconds.isFinite = false ∨
    Double.overflow ≤ clock.hours.natAbs ∨ Double.overflow ≤ clock.minutes.natAbs

end Clock

/-- A text has a minus at its start. -/
def IsSigned (text : String) : Prop := (Text.strip text.toList).head? = some '-'

/-- What is read from a text depends on its parts and on its start. -/
theorem clockSeconds_eq (text : String) : clockSeconds text =
    match Clock.read? text with
    | none => .ok none
    | some clock =>
      if clock.hours < 0 ∨ (Text.strip text.toList).head? = some '-' then .ok none
      else (Double.ofInt clock.wholeSeconds).map fun whole => some (whole + clock.seconds) := by
  unfold clockSeconds Clock.read?
  rw [← cutAtColons_eq]
  dsimp only
  rcases cutAtColons (Text.strip text.toList) with ⟨hours, _ | ⟨minutes, _ | ⟨seconds, _ | _⟩⟩⟩
  · rfl
  · rfl
  · dsimp only
    cases Text.whole? (String.ofList hours) with
    | none => rfl
    | some h =>
      cases Text.whole? (String.ofList minutes) with
      | none => rfl
      | some m =>
        cases Text.decimal? (String.ofList seconds) with
        | none => rfl
        | some s => rfl
  · rfl

theorem clockSeconds_of_unread {text : String} (unread : Clock.read? text = none) :
    clockSeconds text = .ok none := by
  rw [clockSeconds_eq, unread]

theorem clockSeconds_of_turnedDown {text : String} {clock : Clock}
    (read : Clock.read? text = some clock) (down : clock.hours < 0 ∨ IsSigned text) :
    clockSeconds text = .ok none := by
  rw [clockSeconds_eq, read]
  exact if_pos down

theorem clockSeconds_of_accepted {text : String} {clock : Clock}
    (read : Clock.read? text = some clock) (upright : 0 ≤ clock.hours) (unsigned : ¬ IsSigned text) :
    clockSeconds text =
      (Double.ofInt clock.wholeSeconds).map fun whole => some (whole + clock.seconds) := by
  rw [clockSeconds_eq, read]
  exact if_neg (not_or.mpr ⟨Int.not_lt.mpr upright, unsigned⟩)

theorem clockSeconds_of_rounded {text : String} {clock : Clock} {whole : Double}
    (read : Clock.read? text = some clock) (upright : 0 ≤ clock.hours) (unsigned : ¬ IsSigned text)
    (rounded : Double.ofInt clock.wholeSeconds = .ok whole) :
    clockSeconds text = .ok (some (whole + clock.seconds)) := by
  rw [clockSeconds_of_accepted read upright unsigned, rounded]
  rfl

/-- Hours and minutes that amount to more seconds than any double. -/
def ClockBeyond (text : String) : Prop :=
  ∃ hours minutes seconds h m,
    (Text.strip text.toList).splitOnP (· = ':') = [hours, minutes, seconds] ∧
    Text.whole? (String.ofList hours) = some h ∧ Text.whole? (String.ofList minutes) = some m ∧
    (Text.decimal? (String.ofList seconds)).isSome ∧
    0 ≤ h ∧ (Text.strip text.toList).head? ≠ some '-' ∧
    Double.overflow ≤ (h * 3600 + m * 60).natAbs

theorem clockBeyond_iff {text : String} : ClockBeyond text ↔
    ∃ clock, Clock.read? text = some clock ∧ 0 ≤ clock.hours ∧ ¬ IsSigned text ∧
      Double.overflow ≤ clock.wholeSeconds.natAbs := by
  constructor
  · rintro ⟨hours, minutes, seconds, h, m, parts, hoursAre, minutesAre, some, upright, unsigned, beyond⟩
    obtain ⟨s, secondsAre⟩ := Option.isSome_iff_exists.mp some
    refine ⟨⟨h, m, s⟩, ?_, upright, unsigned, beyond⟩
    rw [Clock.read?, parts]
    dsimp only
    rw [hoursAre, minutesAre, secondsAre]
    rfl
  · rintro ⟨clock, read, upright, unsigned, beyond⟩
    unfold Clock.read? at read
    split at read
    · next hours minutes seconds parts =>
      obtain ⟨h, hoursAre, read⟩ := Option.bind_eq_some_iff.mp read
      obtain ⟨m, minutesAre, read⟩ := Option.bind_eq_some_iff.mp read
      obtain ⟨s, secondsAre, read⟩ := Option.bind_eq_some_iff.mp read
      obtain rfl := Option.some.inj read
      exact ⟨hours, minutes, seconds, h, m, parts, hoursAre, minutesAre,
        Option.isSome_of_eq_some secondsAre, upright, unsigned, beyond⟩
    · cases read

theorem clockSeconds_eq_error_iff {text : String} :
    (∃ cause, clockSeconds text = .error cause) ↔ ClockBeyond text := by
  rw [clockBeyond_iff]
  constructor
  · rintro ⟨cause, fails⟩
    cases read : Clock.read? text with
    | none => exact nomatch (clockSeconds_of_unread read).symm.trans fails
    | some clock =>
      by_cases down : clock.hours < 0 ∨ IsSigned text
      · exact nomatch (clockSeconds_of_turnedDown read down).symm.trans fails
      · obtain ⟨upright, unsigned⟩ := not_or.mp down
        have upright := Int.not_lt.mp upright
        cases total : Double.ofInt clock.wholeSeconds with
        | ok whole =>
          exact nomatch (clockSeconds_of_rounded read upright unsigned total).symm.trans fails
        | error cause =>
          exact ⟨clock, rfl, upright, unsigned, (Double.ofInt_eq_error_iff.mp total).2⟩
  · rintro ⟨clock, read, upright, unsigned, beyond⟩
    refine ⟨.tooLarge, ?_⟩
    rw [clockSeconds_of_accepted read upright unsigned,
      Double.ofInt_eq_error_iff.mpr ⟨rfl, beyond⟩]
    rfl

/-! ### Times of day that are turned down -/

/-- What is promised of a text that may be a time of day: there is an answer, and it is a finite number
from zero on or nothing; and it is nothing where the text has no three numbers as its parts, or one of
them is malformed. -/
structure ClockPromise (text : String) : Prop where
  answers : ∃ answer, clockSeconds text = .ok answer ∧
    ∀ time ∈ answer, time.isFinite = true ∧ Scalar.zero ≤ time
  unread : Clock.read? text = none → clockSeconds text = .ok none
  malformed : ∀ clock, Clock.read? text = some clock → clock.IsMalformed →
    clockSeconds text = .ok none

/-- What nobody looks at in a time of day whose hours are not negative: the other signs, and whether the
seconds and the sum are within the doubles. -/
inductive Clock.Slips (clock : Clock) : Prop where
  | minutes (negative : clock.minutes < 0)
  | seconds (negative : clock.seconds < Scalar.zero)
  | notFinite (endless : clock.seconds.isFinite = false)
  | whole (beyond : Double.overflow ≤ clock.wholeSeconds.natAbs)
  | sum {whole : Double} {x y : Rat} (rounded : Double.ofInt clock.wholeSeconds = .ok whole)
      (first : whole.value = .ok x) (second : clock.seconds.value = .ok y)
      (beyond : (Double.overflow : Rat) ≤ x + y)

section

variable {text : String} {clock : Clock}

/-- Of what makes a time of day malformed, only the sign of the hours is looked at. -/
theorem Clock.slips_of_isMalformed (upright : 0 ≤ clock.hours) (malformed : clock.IsMalformed) :
    clock.Slips := by
  by_cases negative : clock.minutes < 0
  · exact .minutes negative
  have beyond (part : Double.overflow ≤ clock.hours.natAbs ∨
      Double.overflow ≤ clock.minutes.natAbs) : Double.overflow ≤ clock.wholeSeconds.natAbs := by
    unfold Clock.wholeSeconds
    omega
  obtain hours | minutes | seconds | endless | part := malformed
  · exact absurd hours (Int.not_lt.mpr upright)
  · exact absurd minutes negative
  · exact .seconds seconds
  · exact .notFinite endless
  · exact .whole (beyond part)

/-- Of well-formed parts, the sum is a finite number from zero on unless it is beyond all doubles. -/
theorem Clock.exists_values {whole : Double} (sound : ¬ clock.IsMalformed)
    (rounded : Double.ofInt clock.wholeSeconds = .ok whole) :
    ∃ x y, whole.value = .ok x ∧ clock.seconds.value = .ok y ∧
      ((∃ k, (whole + clock.seconds).At k) ↔ x + y < (Double.overflow : Rat)) := by
  obtain ⟨hours, minutes, negative, endless, -⟩ := by simpa only [IsMalformed, not_or] using sound
  have positive : 0 ≤ clock.wholeSeconds := by
    unfold wholeSeconds
    omega
  obtain ⟨m, first⟩ := Double.exists_at_of_ofInt positive rounded
  obtain ⟨n, second⟩ := Double.exists_at_of_not_lt (eq_true_of_ne_false endless) negative
  exact ⟨_, _, first.value, second.value,
    first.exists_at_add_iff_value second first.value second.value⟩

/-- Without a slip, the parts are added up to a finite number from zero on. -/
theorem Clock.exists_at_of_not_slips (upright : 0 ≤ clock.hours) (smooth : ¬ clock.Slips) :
    ∃ whole k, Double.ofInt clock.wholeSeconds = .ok whole ∧ (whole + clock.seconds).At k := by
  have sound : ¬ clock.IsMalformed := fun malformed => smooth (slips_of_isMalformed upright malformed)
  cases rounded : Double.ofInt clock.wholeSeconds with
  | error cause => exact absurd (.whole (Double.ofInt_eq_error_iff.mp rounded).2) smooth
  | ok whole =>
    obtain ⟨x, y, first, second, range⟩ := exists_values sound rounded
    obtain ⟨k, sum⟩ := range.mpr (not_le.mp fun beyond => smooth (.sum rounded first second beyond))
    exact ⟨whole, k, rfl, sum⟩

theorem clockPromise_of_eq_none (nothing : clockSeconds text = .ok none) : ClockPromise text where
  answers := ⟨none, nothing, fun time inside => absurd inside (Option.not_mem_none time)⟩
  unread _ := nothing
  malformed _ _ _ := nothing

/-- What is answered to an accepted time of day is the sum, which is finite and not negative. -/
theorem exists_at_of_accepted (promise : ClockPromise text)
    (read : Clock.read? text = some clock) (upright : 0 ≤ clock.hours) (unsigned : ¬ IsSigned text) :
    ∃ whole k, Double.ofInt clock.wholeSeconds = .ok whole ∧ (whole + clock.seconds).At k := by
  obtain ⟨answer, answers, sound⟩ := promise.answers
  rw [clockSeconds_of_accepted read upright unsigned] at answers
  cases rounded : Double.ofInt clock.wholeSeconds with
  | error cause =>
    rw [rounded] at answers
    cases answers
  | ok whole =>
    rw [rounded] at answers
    obtain rfl := Except.ok.inj answers
    obtain ⟨k, sum⟩ := Double.exists_at_iff.mpr (sound _ rfl)
    exact ⟨whole, k, rfl, sum⟩

/-- A time of day that is accepted is not answered with nothing, so no part of it may be malformed. -/
theorem not_isMalformed_of_accepted (promise : ClockPromise text)
    (read : Clock.read? text = some clock) (upright : 0 ≤ clock.hours) (unsigned : ¬ IsSigned text) :
    ¬ clock.IsMalformed := by
  intro malformed
  obtain ⟨whole, k, rounded, -⟩ := exists_at_of_accepted promise read upright unsigned
  have answer := clockSeconds_of_rounded read upright unsigned rounded
  exact nomatch answer.symm.trans (promise.malformed clock read malformed)

/-- The promise is kept unless a time of day slips through: one with hours from zero on and no minus at
its start, but with negative minutes, negative or endless seconds, or a sum beyond all doubles. -/
theorem clockSeconds_keeps_iff (text : String) : ClockPromise text ↔
    ∀ clock, Clock.read? text = some clock → 0 ≤ clock.hours → ¬ IsSigned text → ¬ clock.Slips := by
  constructor
  · intro promise clock read upright unsigned slips
    -- A malformed part would have to be answered with nothing, a sum beyond the doubles has no answer.
    have sound := not_isMalformed_of_accepted promise read upright unsigned
    obtain ⟨whole, k, rounded, sum⟩ := exists_at_of_accepted promise read upright unsigned
    cases slips with
    | minutes negative => exact sound (.inr (.inl negative))
    | seconds negative => exact sound (.inr (.inr (.inl negative)))
    | notFinite endless => exact sound (.inr (.inr (.inr (.inl endless))))
    | whole beyond => exact nomatch rounded.symm.trans (Double.ofInt_eq_error_iff.mpr ⟨rfl, beyond⟩)
    | sum rounded' first second beyond =>
      obtain rfl := Except.ok.inj (rounded.symm.trans rounded')
      obtain ⟨x, y, first', second', range⟩ := Clock.exists_values sound rounded
      obtain rfl := Except.ok.inj (first.symm.trans first')
      obtain rfl := Except.ok.inj (second.symm.trans second')
      exact absurd (range.mp ⟨k, sum⟩) (not_lt.mpr beyond)
  · intro sound
    cases read : Clock.read? text with
    | none => exact clockPromise_of_eq_none (clockSeconds_of_unread read)
    | some clock =>
      by_cases down : clock.hours < 0 ∨ IsSigned text
      · exact clockPromise_of_eq_none (clockSeconds_of_turnedDown read down)
      · obtain ⟨upright, unsigned⟩ := not_or.mp down
        have upright := Int.not_lt.mp upright
        have smooth := sound clock read upright unsigned
        obtain ⟨whole, k, rounded, sum⟩ := Clock.exists_at_of_not_slips upright smooth
        have answer := clockSeconds_of_rounded read upright unsigned rounded
        refine ⟨⟨_, answer, ?_⟩, fun unread => ?_, fun clock' read' malformed => ?_⟩
        · rintro time ⟨⟩
          exact Double.exists_at_iff.mp ⟨k, sum⟩
        · cases read.symm.trans unread
        · obtain rfl := Option.some.inj (read.symm.trans read')
          exact absurd (Clock.slips_of_isMalformed upright malformed) smooth

/-- Minutes are counted back from the hour if they are negative. -/
theorem clock_before_midnight :
    (clockSeconds "00:-5:00").toOption = some (some (-300)) ∧ ¬ ClockPromise "00:-5:00" := by
  have time : (clockSeconds "00:-5:00").toOption = some (some (-300)) := by decide +kernel
  refine ⟨time, fun promise => ?_⟩
  obtain ⟨answer, answers, sound⟩ := promise.answers
  rw [answers] at time
  obtain rfl := Option.some.inj time
  have negative : ¬ Scalar.zero ≤ (-300 : Double) := by decide +kernel
  exact negative (sound _ rfl).2

end

namespace ProgressReader

/-! ### Blocks -/

/-- How many minus signs a text begins with. -/
def signs (text : String) : Nat := (text.toList.takeWhile (· = '-')).length

/-- A text without the minus signs that it begins with. -/
def unsigned (text : String) : List Char := text.toList.dropWhile (· = '-')

/-- Digits behind any number of minus signs: what is taken for a number of microseconds. -/
def LooksLikeCount (text : String) : Prop := Text.Digits (unsigned text)

/-- What is taken for a number of microseconds and is none, or one beyond all doubles. -/
structure MockCount (text : String) : Prop where
  looks : LooksLikeCount text
  mock : 1 < signs text ∨ ¬ Text.Decimals (unsigned text) ∨
    Text.maxWholeDigits < (unsigned text).length ∨
    Double.overflow * 1000000 ≤ Text.numberOf (unsigned text)

/-- What is taken for the number of a frame and is none. -/
structure MockFrame (text : String) : Prop where
  digits : Text.Digits text.toList
  mock : ¬ Text.Decimals text.toList ∨ Text.maxWholeDigits < text.toList.length

/-- The time of a block cannot be read. Of the names for it the first counts whose value looks like a
number. -/
inductive TimeFault (said : String → Option String) : Prop where
  | first {text : String} (here : said "out_time_us" = some text) (mock : MockCount text)
  | second {text : String} (above : ∀ t, said "out_time_us" = some t → ¬ LooksLikeCount t)
      (here : said "out_time_ms" = some text) (mock : MockCount text)
  | clock {text : String} (above : ∀ t, said "out_time_us" = some t → ¬ LooksLikeCount t)
      (between : ∀ t, said "out_time_ms" = some t → ¬ LooksLikeCount t)
      (here : said "out_time" = some text) (beyond : ClockBeyond text)

/-- A block cannot be read. -/
def BlockFault (said : String → Option String) : Prop :=
  TimeFault said ∨ ∃ text, said "frame" = some text ∧ MockFrame text

theorem wholeOf_eq_error_iff {text : String} {cause : NumberError} :
    wholeOf text = .error cause ↔ cause = .notNumeral ∧ Text.whole? text = none := by
  unfold wholeOf
  cases Text.whole? text with
  | none => exact ⟨fun h => ⟨(Except.error.inj h).symm, rfl⟩, fun h => congrArg Except.error h.1.symm⟩
  | some n => exact ⟨nofun, fun h => nomatch h.2⟩

theorem ofQuotient_million_eq_error_iff {n : Int} {cause : NumberError} :
    Double.ofQuotient n 1000000 = .error cause ↔
      cause = .tooLarge ∧ Double.overflow * 1000000 ≤ n.natAbs := by
  rw [Double.ofQuotient_eq_error_iff (by decide), show (1000000 : Int).natAbs = 1000000 from rfl]

theorem decimalOf_eq_error_iff {text : String} {cause : NumberError} :
    decimalOf text = .error cause ↔ cause = .notNumeral ∧ Text.decimal? text = none := by
  unfold decimalOf
  cases Text.decimal? text with
  | none => exact ⟨fun h => ⟨(Except.error.inj h).symm, rfl⟩, fun h => congrArg Except.error h.1.symm⟩
  | some x => exact ⟨nofun, fun h => nomatch h.2⟩

theorem allDigits_iff {cs : List Char} : allDigits cs = true ↔ Text.Digits cs := by
  unfold allDigits Text.Digits
  rw [Bool.and_eq_true, Bool.not_eq_true', List.isEmpty_eq_false_iff, List.all_eq_true]

/-- A text is its minus signs and what follows them. -/
theorem signs_append (text : String) :
    String.ofList (List.replicate (signs text) '-' ++ unsigned text) = text := by
  have minus : List.replicate (signs text) '-' = text.toList.takeWhile (· = '-') := by
    refine (List.eq_replicate_of_mem fun c inside => ?_).symm
    exact of_decide_eq_true (List.all_eq_true.mp List.all_takeWhile c inside)
  rw [minus, unsigned, List.takeWhile_append_dropWhile, String.ofList_toList]

/-- The microseconds of a text can be read, unless they are no number in range. -/
theorem quotient_eq_error_iff {text : String} (looks : LooksLikeCount text) :
    (∃ cause, (wholeOf text >>= fun n => Double.ofQuotient n 1000000) = .error cause) ↔
      MockCount text := by
  have number := Text.whole?_signed (signs text) looks
  rw [signs_append] at number
  by_cases sound : signs text ≤ 1 ∧ Text.Decimals (unsigned text) ∧
      (unsigned text).length ≤ Text.maxWholeDigits
  · rw [if_pos sound] at number
    generalize signed : (if signs text = 1 then -(Text.numberOf (unsigned text) : Int)
      else Text.numberOf (unsigned text)) = n at number
    have magnitude : n.natAbs = Text.numberOf (unsigned text) := by
      rw [← signed]
      split
      · rw [Int.natAbs_neg, Int.natAbs_natCast]
      · rw [Int.natAbs_natCast]
    have read : wholeOf text = .ok n := by rw [wholeOf, number]
    rw [read, ok_bind]
    simp only [ofQuotient_million_eq_error_iff, magnitude, exists_eq_left]
    refine ⟨fun beyond => ⟨looks, .inr (.inr (.inr beyond))⟩, ?_⟩
    rintro ⟨-, twice | other | many | beyond⟩
    · exact absurd sound.1 (Nat.not_le.mpr twice)
    · exact absurd sound.2.1 other
    · exact absurd sound.2.2 (Nat.not_le.mpr many)
    · exact beyond
  · rw [if_neg sound] at number
    refine iff_of_true ⟨.notNumeral, ?_⟩ ⟨looks, ?_⟩
    · rw [wholeOf_eq_error_iff.mpr ⟨rfl, number⟩]
      rfl
    · by_cases few : signs text ≤ 1
      · by_cases decimals : Text.Decimals (unsigned text)
        · exact .inr (.inr (.inl (Nat.not_le.mp fun short => sound ⟨few, decimals, short⟩)))
        · exact .inr (.inl decimals)
      · exact .inl (Nat.not_le.mp few)

variable {block : List (String × String)} {name : String}

/-- A name whose value does not look like a number of microseconds is passed over. -/
theorem microseconds_of_not_looks
    (passed : ∀ t, block.lookup name = some t → ¬ LooksLikeCount t) :
    microseconds block name = .ok none := by
  unfold microseconds
  cases found : block.lookup name with
  | none => rfl
  | some text => exact if_neg fun digits => passed text found (allDigits_iff.mp digits)

theorem microseconds_of_looks {text : String} (found : block.lookup name = some text)
    (looks : LooksLikeCount text) : microseconds block name =
      (wholeOf text >>= fun n => Double.ofQuotient n 1000000).map some := by
  unfold microseconds
  rw [found]
  have digits : allDigits (text.toList.dropWhile (· = '-')) = true := allDigits_iff.mpr looks
  dsimp only
  rw [if_pos digits]
  cases wholeOf text with
  | error cause => rfl
  | ok n =>
    rw [ok_bind, ok_bind]
    cases Double.ofQuotient n 1000000 with
    | error cause => rfl
    | ok t => rfl

/-- A name whose value looks like a number of microseconds is read, or fails. -/
theorem microseconds_eq_error_iff {text : String} (found : block.lookup name = some text)
    (looks : LooksLikeCount text) :
    (∃ cause, microseconds block name = .error cause) ↔ MockCount text := by
  rw [microseconds_of_looks found looks, ← quotient_eq_error_iff looks]
  cases wholeOf text >>= fun n => Double.ofQuotient n 1000000 with
  | error cause => exact iff_of_true ⟨cause, rfl⟩ ⟨cause, rfl⟩
  | ok t => exact iff_of_false nofun nofun

theorem exists_of_microseconds {text : String} (found : block.lookup name = some text)
    (looks : LooksLikeCount text) {time : Option Double} (read : microseconds block name = .ok time) :
    ∃ t, time = some t := by
  rw [microseconds_of_looks found looks] at read
  cases value : wholeOf text >>= fun n => Double.ofQuotient n 1000000 with
  | error cause =>
    rw [value] at read
    cases read
  | ok t =>
    rw [value] at read
    exact ⟨t, (Except.ok.inj read).symm⟩

/-- Whether the value of a name looks like a number of microseconds. -/
theorem looks_or_passed (block : List (String × String)) (name : String) :
    (∃ text, block.lookup name = some text ∧ LooksLikeCount text) ∨
      ∀ t, block.lookup name = some t → ¬ LooksLikeCount t := by
  by_cases looks : ∃ text, block.lookup name = some text ∧ LooksLikeCount text
  · exact .inl looks
  · exact .inr fun t found digits => looks ⟨t, found, digits⟩

/-- Where the value of a name decides, and is no number, what comes next does not matter. -/
theorem microseconds_or_eq_error_iff {next : Except NumberError (Option Double)} :
    (∃ cause, (microseconds block name >>= fun time => match time with
      | some t => pure (some t)
      | none => next) = .error cause) ↔
      (∃ text, block.lookup name = some text ∧ MockCount text) ∨
        (∀ t, block.lookup name = some t → ¬ LooksLikeCount t) ∧ ∃ cause, next = .error cause := by
  obtain ⟨text, found, looks⟩ | passed := looks_or_passed block name
  · have decided : (∃ t, block.lookup name = some t ∧ MockCount t) ↔ MockCount text := by
      constructor
      · rintro ⟨t, found', mock⟩
        rwa [Option.some.inj (found.symm.trans found')]
      · intro mock
        exact ⟨text, found, mock⟩
    rw [decided, or_iff_left fun h => h.1 text found looks, ← microseconds_eq_error_iff found looks]
    cases read : microseconds block name with
    | error cause => exact iff_of_true ⟨cause, rfl⟩ ⟨cause, rfl⟩
    | ok time =>
      obtain ⟨t, rfl⟩ := exists_of_microseconds found looks read
      exact iff_of_false nofun nofun
  · rw [microseconds_of_not_looks passed, ok_bind, and_iff_right passed]
    refine (or_iff_right ?_).symm
    rintro ⟨t, found, mock⟩
    exact passed t found mock.looks

theorem not_clockBeyond_empty : ¬ ClockBeyond "" := by
  rintro ⟨hours, minutes, seconds, h, m, parts, -⟩
  cases parts

/-- What is done where neither count decides. -/
theorem clock_eq_error_iff :
    (∃ cause, (match block.lookup "out_time" with
      | some raw => if raw = "" then pure none else clockSeconds raw
      | none => pure none : Except NumberError (Option Double)) = .error cause) ↔
      ∃ text, block.lookup "out_time" = some text ∧ ClockBeyond text := by
  cases here : block.lookup "out_time" with
  | none => exact iff_of_false nofun nofun
  | some text =>
    simp only [Option.some.injEq, exists_eq_left']
    by_cases empty : text = ""
    · subst empty
      exact iff_of_false nofun not_clockBeyond_empty
    · rw [if_neg empty]
      exact clockSeconds_eq_error_iff

theorem reportedTime_eq_error_iff :
    (∃ cause, reportedTime block = .error cause) ↔ TimeFault (block.lookup ·) := by
  have parts : (∃ cause, reportedTime block = .error cause) ↔
      (∃ text, block.lookup "out_time_us" = some text ∧ MockCount text) ∨
        (∀ t, block.lookup "out_time_us" = some t → ¬ LooksLikeCount t) ∧
          ((∃ text, block.lookup "out_time_ms" = some text ∧ MockCount text) ∨
            (∀ t, block.lookup "out_time_ms" = some t → ¬ LooksLikeCount t) ∧
              ∃ text, block.lookup "out_time" = some text ∧ ClockBeyond text) := by
    unfold reportedTime
    refine microseconds_or_eq_error_iff.trans (or_congr_right (and_congr_right fun _ => ?_))
    exact microseconds_or_eq_error_iff.trans
      (or_congr_right (and_congr_right fun _ => clock_eq_error_iff))
  rw [parts]
  constructor
  · rintro (⟨text, here, mock⟩ | ⟨above, ⟨text, here, mock⟩ | ⟨between, text, here, beyond⟩⟩)
    · exact .first here mock
    · exact .second above here mock
    · exact .clock above between here beyond
  · rintro (⟨here, mock⟩ | ⟨above, here, mock⟩ | ⟨above, between, here, beyond⟩)
    · exact .inl ⟨_, here, mock⟩
    · exact .inr ⟨above, .inl ⟨_, here, mock⟩⟩
    · exact .inr ⟨above, .inr ⟨between, _, here, beyond⟩⟩

theorem whole?_of_digits {cs : List Char} (digits : Text.Digits cs) :
    Text.whole? (String.ofList cs) = none ↔
      ¬ Text.Decimals cs ∨ Text.maxWholeDigits < cs.length := by
  have number := Text.whole?_signed 0 digits
  rw [List.replicate_zero, List.nil_append] at number
  rw [number, ite_eq_right_iff, ← Nat.not_le, ← not_and_or]
  constructor
  · intro none sound
    cases none ⟨Nat.zero_le 1, sound⟩
  · intro unsound sound
    exact absurd sound.2 unsound

theorem blockFrame_eq_error_iff :
    (∃ cause, blockFrame block = .error cause) ↔
      ∃ text, block.lookup "frame" = some text ∧ MockFrame text := by
  unfold blockFrame
  cases here : block.lookup "frame" with
  | none => exact iff_of_false nofun nofun
  | some text =>
    simp only [Option.some.injEq, exists_eq_left']
    by_cases digits : Text.Digits text.toList
    · rw [if_pos (allDigits_iff.mpr digits)]
      have none := whole?_of_digits digits
      rw [String.ofList_toList] at none
      cases read : wholeOf text with
      | error cause =>
        exact iff_of_true ⟨cause, rfl⟩ ⟨digits, none.mp (wholeOf_eq_error_iff.mp read).2⟩
      | ok n =>
        refine iff_of_false nofun fun mock => ?_
        rw [wholeOf_eq_error_iff.mpr ⟨rfl, none.mpr mock.mock⟩] at read
        cases read
    · rw [if_neg fun all => digits (allDigits_iff.mp all)]
      exact iff_of_false nofun fun mock => digits mock.digits

theorem blockUpdate_eq_error_iff {reader : ProgressReader} {finished : Bool} :
    (∃ cause, reader.blockUpdate block finished = .error cause) ↔ BlockFault (block.lookup ·) := by
  unfold blockUpdate BlockFault
  rw [← reportedTime_eq_error_iff, ← blockFrame_eq_error_iff]
  cases reportedTime block with
  | error cause => exact iff_of_true ⟨cause, rfl⟩ (.inl ⟨cause, rfl⟩)
  | ok time =>
    cases blockFrame block with
    | error cause => exact iff_of_true ⟨cause, rfl⟩ (.inr ⟨cause, rfl⟩)
    | ok frame => exact iff_of_false nofun fun fault => fault.elim nofun nofun

end ProgressReader

end Montage
