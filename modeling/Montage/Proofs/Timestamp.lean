import Montage.Proofs.Text.Digits
import Montage.Timestamp

/-!
# Moments that are written are read back

A moment of the calendar is written with as many digits in each field as are read there, so it is
read back as it was, with its microseconds and its distance from universal time.

## Main results

* `Timestamp.read?_shortText` — what is written is read back
-/

namespace Montage.Timestamp

open Text

variable {rest : List Char} {t : Timestamp}

/-- A moment of the calendar in the years that have four digits, less than a day away from universal
time. -/
structure Regular (t : Timestamp) : Prop where
  valid : t.isValid = true
  year : t.year < 10 ^ 4
  microsecond : t.microsecond < 10 ^ 6
  offset : ∀ minutes ∈ t.offset, minutes.natAbs < 1440

theorem toList_digits (width n : Nat) : (digits width n).toList = paddedDigits width n := by
  rw [digits, String.toList_append, String.toList_ofList, ← String.length_toList, toList_toString,
    paddedDigits]

theorem length_paddedDigits {width n : Nat} (wide : 0 < width) (fits : n < 10 ^ width) :
    (paddedDigits width n).length = width := by
  have := (Nat.length_toDigits_le_iff (b := 10) (by decide) wide).mpr fits
  rw [paddedDigits, List.length_append, List.length_replicate]
  omega

/-- A field is read as it was written. -/
theorem takeNumber?_paddedDigits {width n : Nat} (wide : 0 < width) (fits : n < 10 ^ width)
    (rest : List Char) :
    takeNumber? width (paddedDigits width n ++ rest) = some (n, rest) := by
  have length := length_paddedDigits wide fits
  have all : (paddedDigits width n).all Char.isDigit = true :=
    List.all_eq_true.mpr (numeric_paddedDigits width n)
  have taken : (paddedDigits width n ++ rest).take width = paddedDigits width n :=
    List.take_left' length
  have dropped : (paddedDigits width n ++ rest).drop width = rest := List.drop_left' length
  have value := ofDigits_paddedDigits width n
  rw [digitValues] at value
  simp only [takeNumber?, taken, dropped, length, all, value, decide_true, Bool.and_self, if_true]

/-! ### The distance from universal time -/

/-- The distance of a moment from universal time, as it is written. -/
def zoneText (t : Timestamp) : String :=
  match t.offset with
  | some minutes => if minutes = 0 then "Z" else offsetText minutes
  | none => ""

/-- Hours and minutes behind a sign. -/
theorem readOffset?_signed {sign : Char} (known : sign = '+' ∨ sign = '-') {hours minutes : Nat}
    (day : hours < 24) (hour : minutes < 60) :
    readOffset? (sign :: (paddedDigits 2 hours ++ ':' :: paddedDigits 2 minutes)) =
      some (some (if sign = '-' then -(hours * 60 + minutes : Int) else hours * 60 + minutes)) := by
  have first := takeNumber?_paddedDigits (show 0 < 2 by decide) (show hours < 10 ^ 2 by omega)
    (':' :: paddedDigits 2 minutes)
  have second := takeNumber?_paddedDigits (show 0 < 2 by decide) (show minutes < 10 ^ 2 by omega) []
  rw [List.append_nil] at second
  rcases known with rfl | rfl <;>
    simp [readOffset?, first, second, expect?, Nat.not_le.mpr day, Nat.not_le.mpr hour]

theorem toList_offsetText (minutes : Int) : (offsetText minutes).toList =
    (if minutes < 0 then '-' else '+') :: (paddedDigits 2 (minutes.natAbs / 60) ++
      ':' :: paddedDigits 2 (minutes.natAbs % 60)) := by
  rw [offsetText, String.toList_append, String.toList_append, String.toList_append, toList_digits,
    toList_digits]
  split <;> simp

theorem readOffset?_offsetText {minutes : Int} (day : minutes.natAbs < 1440) :
    readOffset? (offsetText minutes).toList = some (some minutes) := by
  have whole : ((minutes.natAbs / 60 : Nat) * 60 + (minutes.natAbs % 60 : Nat) : Int) = minutes.natAbs := by
    omega
  rw [toList_offsetText, readOffset?_signed _ (by omega) (by omega), whole]
  · split
    · next behind =>
      rw [if_pos rfl, Int.ofNat_natAbs_of_nonpos (Int.le_of_lt behind), Int.neg_neg]
    · next ahead =>
      rw [if_neg (by decide), Int.natAbs_of_nonneg (Int.not_lt.mp ahead)]
  · split <;> simp

theorem readOffset?_zoneText (day : ∀ minutes ∈ t.offset, minutes.natAbs < 1440) :
    readOffset? t.zoneText.toList = some t.offset := by
  unfold zoneText
  cases hoffset : t.offset with
  | none => rfl
  | some minutes =>
    dsimp only
    split
    · next zero => rw [zero]; rfl
    · exact readOffset?_offsetText (day minutes hoffset)

/-- What tells the distance does not continue the seconds. -/
theorem head_zoneText (t : Timestamp) :
    ∀ c ∈ t.zoneText.toList.head?, c = 'Z' ∨ c = '+' ∨ c = '-' := by
  unfold zoneText
  split
  · next minutes _ =>
    split
    · exact fun c hc => .inl (by simpa using hc.symm)
    · rw [toList_offsetText]
      intro c hc
      split at hc <;> simp at hc <;> simp [← hc]
  · simp

/-! ### The time of day -/

/-- Microseconds, as they are written. -/
def fractionText (t : Timestamp) : String :=
  if t.microsecond = 0 then "" else "." ++ digits 6 t.microsecond

/-- Without microseconds, the distance stands right behind the seconds. -/
theorem readSeconds?_whole {second : Nat} (minute : second < 60) (t : Timestamp) :
    readSeconds? (':' :: (paddedDigits 2 second ++ t.zoneText.toList)) =
      some (second, 0, t.zoneText.toList) := by
  have first := takeNumber?_paddedDigits (show 0 < 2 by decide) (show second < 10 ^ 2 by omega)
    t.zoneText.toList
  have stops := head_zoneText t
  simp only [readSeconds?, first, Option.bind_eq_bind, Option.bind_some]
  cases zone : t.zoneText.toList with
  | nil => rfl
  | cons c tail =>
    rw [zone] at stops
    have point : c ≠ '.' ∧ c ≠ ',' := by
      rcases stops c rfl with rfl | rfl | rfl <;> decide
    simp [point]

theorem readSeconds?_fraction {second microsecond : Nat} (minute : second < 60)
    (fits : microsecond < 10 ^ 6) (t : Timestamp) :
    readSeconds? (':' :: (paddedDigits 2 second ++
        '.' :: (paddedDigits 6 microsecond ++ t.zoneText.toList))) =
      some (second, microsecond, t.zoneText.toList) := by
  have first := takeNumber?_paddedDigits (show 0 < 2 by decide) (show second < 10 ^ 2 by omega)
    ('.' :: (paddedDigits 6 microsecond ++ t.zoneText.toList))
  have numeric := numeric_paddedDigits 6 microsecond
  have stops : t.zoneText.toList.takeWhile Char.isDigit = [] ∧
      t.zoneText.toList.dropWhile Char.isDigit = t.zoneText.toList := by
    have head := head_zoneText t
    cases zone : t.zoneText.toList with
    | nil => exact ⟨rfl, rfl⟩
    | cons c tail =>
      rw [zone] at head
      have : c.isDigit = false := by rcases head c rfl with rfl | rfl | rfl <;> decide
      simp [this]
  have taken : (paddedDigits 6 microsecond ++ t.zoneText.toList).takeWhile Char.isDigit =
      paddedDigits 6 microsecond := by
    rw [List.takeWhile_append_of_pos numeric, stops.1, List.append_nil]
  have dropped : (paddedDigits 6 microsecond ++ t.zoneText.toList).dropWhile Char.isDigit =
      t.zoneText.toList := by
    rw [List.dropWhile_append_of_pos numeric, stops.2]
  have six : (paddedDigits 6 microsecond ++ List.replicate 6 '0').take 6 =
      paddedDigits 6 microsecond :=
    List.take_left' (length_paddedDigits (by decide) fits)
  have value := ofDigits_paddedDigits 6 microsecond
  rw [digitValues] at value
  have filled : (paddedDigits 6 microsecond).isEmpty = false := by
    rw [List.isEmpty_eq_false_iff]
    exact paddedDigits_ne_nil 6 microsecond
  simp only [readSeconds?, first, Option.bind_eq_bind, Option.bind_some, taken, dropped, six, value,
    filled, if_false, Bool.false_eq_true, Option.pure_def]
  exact if_pos rfl

theorem readSeconds?_written (minute : t.second < 60) (fits : t.microsecond < 10 ^ 6) :
    readSeconds? (':' :: (paddedDigits 2 t.second ++ (t.fractionText.toList ++ t.zoneText.toList))) =
      some (t.second, t.microsecond, t.zoneText.toList) := by
  unfold fractionText
  split
  · next zero =>
    rw [zero]
    exact readSeconds?_whole minute t
  · next some =>
    rw [String.toList_append, toList_digits, List.append_assoc]
    exact readSeconds?_fraction minute fits t

/-! ### The whole moment -/

theorem toList_shortText (t : Timestamp) : t.shortText.toList =
    paddedDigits 4 t.year ++ '-' :: (paddedDigits 2 t.month ++ '-' :: (paddedDigits 2 t.day ++
      'T' :: (paddedDigits 2 t.hour ++ ':' :: (paddedDigits 2 t.minute ++
        ':' :: (paddedDigits 2 t.second ++ (t.fractionText.toList ++ t.zoneText.toList)))))) := by
  have parts : t.shortText = t.clockText ++ t.zoneText := rfl
  have clock : t.clockText = digits 4 t.year ++ "-" ++ digits 2 t.month ++ "-" ++ digits 2 t.day ++
      "T" ++ digits 2 t.hour ++ ":" ++ digits 2 t.minute ++ ":" ++ digits 2 t.second ++
      t.fractionText := rfl
  rw [parts, clock]
  simp [toList_digits]

theorem daysInMonth_le (year month : Nat) : daysInMonth year month ≤ 31 := by
  unfold daysInMonth
  split_ifs <;> omega

theorem readCalendar?_shortText (regular : t.Regular) :
    readCalendar? t.shortText.toList = some t := by
  have valid := regular.valid
  have days := daysInMonth_le t.year t.month
  have fields := valid
  simp only [isValid, Bool.and_eq_true, decide_eq_true_eq] at fields
  obtain ⟨⟨⟨⟨⟨⟨⟨-, -⟩, month⟩, -⟩, day⟩, hour⟩, minute⟩, second⟩ := fields
  have two {n : Nat} (h : n < 100) (rest : List Char) :
      takeNumber? 2 (paddedDigits 2 n ++ rest) = some (n, rest) :=
    takeNumber?_paddedDigits (by decide) (by omega) rest
  have dash (rest : List Char) : expect? '-' ('-' :: rest) = some rest := rfl
  have colon (rest : List Char) : expect? ':' (':' :: rest) = some rest := rfl
  have mark : ¬ ('T' ≠ 'T' ∧ 'T' ≠ 't' ∧ 'T' ≠ ' ' ∧ 'T' ≠ '_') := by decide
  rw [toList_shortText]
  simp only [readCalendar?, takeNumber?_paddedDigits (show 0 < 4 by decide) regular.year,
    two (show t.month < 100 by omega), two (show t.day < 100 by omega),
    two (show t.hour < 100 by omega), two (show t.minute < 100 by omega),
    readSeconds?_written second regular.microsecond, readOffset?_zoneText regular.offset,
    dash, colon, mark, if_false, Option.bind_eq_bind, Option.bind_some, Option.pure_def]
  exact if_pos valid

/-- What is written is read back. -/
theorem read?_shortText (regular : t.Regular) : read? t.shortText = some t := by
  rw [read?, readCalendar?_shortText regular]

end Montage.Timestamp
