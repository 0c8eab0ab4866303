import Montage.Number.Double
import Montage.Text.Numeral

/-!
Moments of the calendar, to the microsecond, with the distance from universal time where it is
known.
-/

namespace Montage

structure Timestamp where
  year : Nat
  month : Nat
  day : Nat
  hour : Nat := 0
  minute : Nat := 0
  second : Nat := 0
  microsecond : Nat := 0
  /-- Minutes ahead of universal time. -/
  offset : Option Int := some 0
  deriving DecidableEq, Repr

namespace Timestamp

def isLeap (year : Nat) : Bool := year % 4 = 0 && (year % 100 ≠ 0 || year % 400 = 0)

def daysInMonth (year month : Nat) : Nat :=
  if month = 2 then (if isLeap year then 29 else 28)
  else if month = 4 || month = 6 || month = 9 || month = 11 then 30
  else 31

/-- Whether the fields name a moment of the calendar. -/
def isValid (t : Timestamp) : Bool :=
  0 < t.year && 0 < t.month && t.month ≤ 12 && 0 < t.day && t.day ≤ daysInMonth t.year t.month &&
    t.hour < 24 && t.minute < 60 && t.second < 60

/-! ### Writing -/

/-- `n` with zeros in front of it up to `width` digits. -/
def digits (width n : Nat) : String :=
  let text := toString n
  String.ofList (List.replicate (width - text.length) '0') ++ text

/-- Date and time of day, with microseconds only if there are any. -/
def clockText (t : Timestamp) : String :=
  digits 4 t.year ++ "-" ++ digits 2 t.month ++ "-" ++ digits 2 t.day ++ "T" ++
    digits 2 t.hour ++ ":" ++ digits 2 t.minute ++ ":" ++ digits 2 t.second ++
    (if t.microsecond = 0 then "" else "." ++ digits 6 t.microsecond)

def offsetText (minutes : Int) : String :=
  (if minutes < 0 then "-" else "+") ++ digits 2 (minutes.natAbs / 60) ++ ":" ++
    digits 2 (minutes.natAbs % 60)

/-- The text of a moment, universal time marked by its offset. -/
def text (t : Timestamp) : String :=
  t.clockText ++ (match t.offset with | some minutes => offsetText minutes | none => "")

/-- The text of a moment, universal time marked by a `Z`. -/
def shortText (t : Timestamp) : String :=
  t.clockText ++
    (match t.offset with
      | some minutes => if minutes = 0 then "Z" else offsetText minutes
      | none => "")

/-! ### Reading -/

/-- Exactly `count` ASCII digits. -/
def takeNumber? (count : Nat) (cs : List Char) : Option (Nat × List Char) :=
  let ds := cs.take count
  if ds.length = count && ds.all Char.isDigit then
    some (Text.ofDigits (ds.map fun c => c.toNat - '0'.toNat), cs.drop count)
  else none

def expect? (c : Char) : List Char → Option (List Char)
  | d :: rest => if d = c then some rest else none
  | [] => none

/-- Minutes ahead of universal time, as hours and minutes with a sign or as a `Z`. -/
def readOffset? : List Char → Option (Option Int)
  | [] => some none
  | ['Z'] | ['z'] => some (some 0)
  | sign :: rest => do
    if sign ≠ '+' ∧ sign ≠ '-' then none
    let (hours, rest) ← takeNumber? 2 rest
    let rest := (expect? ':' rest).getD rest
    let (minutes, rest) ← takeNumber? 2 rest
    if !rest.isEmpty || 24 ≤ hours || 60 ≤ minutes then none
    let total : Int := hours * 60 + minutes
    return some (if sign = '-' then -total else total)

/-- Seconds with a fraction of which six digits count; without seconds, zero. -/
def readSeconds? (cs : List Char) : Option (Nat × Nat × List Char) :=
  match cs with
  | ':' :: rest => do
    let (second, rest) ← takeNumber? 2 rest
    match rest with
    | c :: tail =>
      if c = '.' || c = ',' then
        let fraction := tail.takeWhile Char.isDigit
        if fraction.isEmpty then none
        else
          let six := (fraction ++ List.replicate 6 '0').take 6
          return (second, Text.ofDigits (six.map fun c => c.toNat - '0'.toNat),
            tail.dropWhile Char.isDigit)
      else return (second, 0, rest)
    | [] => return (second, 0, [])
  | _ => some (0, 0, cs)

/-- A date, or a date and a time of day. -/
def readCalendar? (cs : List Char) : Option Timestamp := do
  let (year, rest) ← takeNumber? 4 cs
  let (month, rest) ← takeNumber? 2 (← expect? '-' rest)
  let (day, rest) ← takeNumber? 2 (← expect? '-' rest)
  match rest with
  | [] =>
    let t : Timestamp := { year, month, day, offset := none }
    if t.isValid then return t else none
  | separator :: rest =>
    if separator ≠ 'T' ∧ separator ≠ 't' ∧ separator ≠ ' ' ∧ separator ≠ '_' then none
    let (hour, rest) ← takeNumber? 2 rest
    let (minute, rest) ← takeNumber? 2 (← expect? ':' rest)
    let (second, microsecond, rest) ← readSeconds? rest
    let offset ← readOffset? rest
    let t : Timestamp := { year, month, day, hour, minute, second, microsecond, offset }
    if t.isValid then return t else none

/-- The date that lies a number of days after the first of January 1970. -/
def ofDays (days : Int) : Nat × Nat × Nat :=
  -- Years run from March to February, so that a leap day is the last day of its year.
  let z := (days + 719468).toNat
  let era := z / 146097
  let dayOfEra := z % 146097
  let yearOfEra := (dayOfEra - dayOfEra / 1460 + dayOfEra / 36524 - dayOfEra / 146096) / 365
  let dayOfYear := dayOfEra - (365 * yearOfEra + yearOfEra / 4 - yearOfEra / 100)
  let shifted := (5 * dayOfYear + 2) / 153
  let day := dayOfYear - (153 * shifted + 2) / 5 + 1
  let month := if shifted < 10 then shifted + 3 else shifted - 9
  (yearOfEra + era * 400 + (if month ≤ 2 then 1 else 0), month, day)

/-- The moment a number of seconds after the start of 1970; a number beyond `2 · 10 ^ 10` counts
milliseconds. Only the years 1600 to 9999 are answered. -/
def ofUnix? (seconds : Rat) : Option Timestamp :=
  let limit : Rat := 20000000000
  let seconds := if limit < seconds || seconds < -limit then seconds / 1000 else seconds
  let micros := roundHalfEven (seconds * 1000000)
  if micros < -11676096000000000 || 253402300800000000 ≤ micros then none
  else
    let days := micros.fdiv 86400000000
    let rest := (micros - days * 86400000000).toNat
    let (year, month, day) := ofDays days
    some {
      year, month, day, hour := rest / 3600000000, minute := rest / 60000000 % 60
      second := rest / 1000000 % 60, microsecond := rest % 1000000 }

/-- A moment written as a date with or without a time of day, or as a number of seconds. -/
def read? (s : String) : Option Timestamp :=
  match readCalendar? s.toList with
  | some t => some t
  | none =>
    match Text.decimal? s with
    | some x => x.value.toOption.bind ofUnix?
    | none => none

end Timestamp

end Montage
