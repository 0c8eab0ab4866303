import Montage.Proofs.Run.Values

/-!
# Lines that a reader of progress cannot read

A reader fails at the end of a block that it cannot read and at status lines in whose places there
are no numbers. What a block holds was said by the lines since the last block.

## Main definitions

* `ProgressReader.given` — what lines of output said of a name since the last block ended
* `ProgressReader.Fault` — the lines that cannot be read, behind those that were told before
* `ProgressReader.IsReport` — the lines of one of the two formats

## Main results

* `ProgressReader.feed_fails_iff` — exactly these lines fail, and a line of no format leaves the
  reader as it is
-/

namespace Montage.ProgressReader

variable {block : List (String × String)}

/-! ### Lines of output -/

/-- The name in a line of output, and the value behind it. -/
def entry? (line : String) : Option (String × String) :=
  let cs := Text.strip line.toList
  if cs.contains '=' then
    some (String.ofList (Text.strip (cs.takeWhile (· ≠ '='))),
      String.ofList (Text.strip ((cs.dropWhile (· ≠ '=')).drop 1)))
  else none

/-- The values of names behind one more line: the end of a block forgets them. -/
def givenNext (said : String → Option String) : Stream × String → String → Option String
  | (.messages, _) => said
  | (.output, line) =>
    match entry? line with
    | none => said
    | some (name, value) =>
      if name = "progress" then fun _ => none else Function.update said name (some value)

/-- What lines of output said of a name since the last block ended. -/
def given (told : List (Stream × String)) : String → Option String :=
  told.foldl givenNext fun _ => none

/-- A line of one of the streams is read. -/
def feed (reader : ProgressReader) (stream : Stream) (line : String) :
    Except NumberError (Option EncoderProgress) × ProgressReader :=
  match stream with
  | .output => reader.feedOutput line
  | .messages => reader.feedMessage line

/-- The reader behind some lines, whether they can be read or not. -/
def told (reader : ProgressReader) (lines : List (Stream × String)) : ProgressReader :=
  lines.foldl (fun reader line => (reader.feed line.1 line.2).2) reader

theorem lookup_setValue (name value : String) (block : List (String × String)) :
    (List.lookup · (setValue name value block)) =
      Function.update (List.lookup · block) name (some value) := by
  funext other
  induction block with
  | nil =>
    by_cases same : other = name
    · subst same
      rw [Function.update_self, setValue, List.lookup_cons, beq_self_eq_true]
    · rw [Function.update_of_ne same, setValue, List.lookup_cons, beq_false_of_ne same]
  | cons entry block ih =>
    obtain ⟨first, old⟩ := entry
    unfold setValue
    by_cases here : first = name
    · subst here
      rw [if_pos rfl, List.lookup_cons]
      by_cases same : other = first
      · subst same
        rw [Function.update_self, beq_self_eq_true]
      · rw [Function.update_of_ne same, List.lookup_cons, beq_false_of_ne same]
    · rw [if_neg here, List.lookup_cons, ih]
      by_cases same : other = name
      · subst same
        rw [Function.update_self, Function.update_self, beq_false_of_ne (Ne.symm here)]
      · rw [Function.update_of_ne same, Function.update_of_ne same, List.lookup_cons]

theorem feedOutput_eq (reader : ProgressReader) (line : String) :
    reader.feedOutput line = match entry? line with
      | none => (.ok none, reader)
      | some (name, value) =>
        if name = "progress" then
          match reader.blockUpdate reader.block (value = "end") with
          | .ok update => (.ok (some update), { reader with block := [], last := some update })
          | .error cause => (.error cause, { reader with block := [] })
        else (.ok none, { reader with block := setValue name value reader.block }) := by
  unfold feedOutput entry?
  dsimp only
  cases (Text.strip line.toList).contains '=' with
  | false => rfl
  | true =>
    rw [Bool.not_true, if_neg Bool.false_ne_true, if_pos rfl]
    dsimp only
    exact ite_not ..

/-- What a line does to the values that wait for the end of their block. -/
theorem feed_block (reader : ProgressReader) (line : Stream × String) :
    (List.lookup · (reader.feed line.1 line.2).2.block) =
      givenNext (List.lookup · reader.block) line := by
  obtain ⟨stream, line⟩ := line
  cases stream with
  | output =>
    unfold feed givenNext
    dsimp only
    rw [feedOutput_eq]
    cases entry? line with
    | none => rfl
    | some entry =>
      dsimp only
      by_cases ends : entry.1 = "progress"
      · rw [if_pos ends, if_pos ends]
        split
        · rfl
        · rfl
      · rw [if_neg ends, if_neg ends]
        exact lookup_setValue entry.1 entry.2 reader.block
  | messages =>
    unfold feed feedMessage
    dsimp only
    split
    · rfl
    · rfl

theorem told_block (reader : ProgressReader) (lines : List (Stream × String)) :
    (List.lookup · (reader.told lines).block) =
      lines.foldl givenNext (List.lookup · reader.block) := by
  induction lines generalizing reader with
  | nil => rfl
  | cons line lines ih =>
    rw [List.foldl_cons, ← feed_block]
    exact ih _

/-! ### Status lines -/

/-- A point that is not the only one, or no digit: digits and points that are no number. -/
def MockDecimal (text : String) : Prop :=
  1 < text.toList.count '.' ∨ ∀ c ∈ text.toList, c = '.'

/-- The time of a status line is read. -/
def Timed (cs : List Char) : Prop :=
  ∃ text seconds, findAfter? "time=".toList timePattern? cs = some text ∧
    clockSeconds text = .ok (some seconds)

/-- A status line cannot be read. Without a time nothing else of it is looked at. -/
inductive StatusFault (cs : List Char) : Prop where
  | clock {text : String} (here : findAfter? "time=".toList timePattern? cs = some text)
      (beyond : ClockBeyond text)
  | rate {text : String} (timed : Timed cs)
      (here : findAfter? "fps=".toList ratePattern? cs = some text) (mock : MockDecimal text)
  | speed {text : String} (timed : Timed cs)
      (here : findAfter? "speed=".toList speedPattern? cs = some text) (mock : MockDecimal text)
  | frame {text : String} (timed : Timed cs)
      (here : findAfter? "frame=".toList framePattern? cs = some text)
      (many : Text.maxWholeDigits < text.toList.length)

/-- What is found stands behind its name. -/
theorem exists_of_findAfter? {α : Type} {name cs : List Char} {pattern : List Char → Option α}
    {found : α} (h : findAfter? name pattern cs = some found) :
    ∃ before after, cs = before ++ name ++ after ∧
      pattern (after.dropWhile Text.isBlank) = some found := by
  induction cs with
  | nil => cases h
  | cons c rest ih =>
    unfold findAfter? at h
    dsimp only at h
    split at h
    · next other here =>
      cases h
      split at here
      · next begins =>
        obtain ⟨after, whole⟩ := List.isPrefixOf_iff_prefix.mp begins
        rw [← whole, List.drop_left] at here
        exact ⟨[], after, whole.symm, here⟩
      · cases here
    · obtain ⟨before, after, rfl, there⟩ := ih h
      exact ⟨c :: before, after, rfl, there⟩

theorem pointedRun?_eq_some {cs run rest : List Char} (h : pointedRun? cs = some (run, rest)) :
    ∀ c ∈ run, c = '.' ∨ Text.isDecimalDigit c = true := by
  unfold pointedRun? at h
  dsimp only at h
  split at h
  · cases h
  · cases h
    intro c inside
    have part := List.all_eq_true.mp List.all_takeWhile c inside
    rwa [Bool.or_eq_true, decide_eq_true_iff] at part

theorem digitRun?_eq_some {cs run rest : List Char} (h : digitRun? cs = some (run, rest)) :
    run ≠ [] ∧ Text.Decimals run ∧ cs = run ++ rest := by
  unfold digitRun? at h
  dsimp only at h
  split at h
  · cases h
  · next some =>
    cases h
    refine ⟨fun none => some (List.isEmpty_iff.mpr none), ?_, List.takeWhile_append_dropWhile.symm⟩
    intro c inside
    exact List.all_eq_true.mp List.all_takeWhile c inside

/-- A text of digits and points. -/
def Pointed (text : String) : Prop := ∀ c ∈ text.toList, c = '.' ∨ Text.isDecimalDigit c = true

theorem ratePattern?_pointed {cs : List Char} {text : String} (h : ratePattern? cs = some text) :
    Pointed text := by
  obtain ⟨⟨run, rest⟩, found, rfl⟩ := Option.map_eq_some_iff.mp h
  unfold Pointed
  rw [String.toList_ofList]
  exact pointedRun?_eq_some found

theorem speedPattern?_pointed {cs : List Char} {text : String} (h : speedPattern? cs = some text) :
    Pointed text := by
  unfold speedPattern? at h
  split at h
  · next run rest found =>
    cases h
    unfold Pointed
    rw [String.toList_ofList]
    exact pointedRun?_eq_some found
  · cases h

theorem framePattern?_digits {cs : List Char} {text : String} (h : framePattern? cs = some text) :
    Text.Digits text.toList ∧ Text.Decimals text.toList := by
  obtain ⟨⟨run, rest⟩, found, rfl⟩ := Option.map_eq_some_iff.mp h
  obtain ⟨some, decimals, -⟩ := digitRun?_eq_some found
  rw [String.toList_ofList]
  exact ⟨⟨some, fun c inside => Text.isDigit_of_isDecimalDigit (decimals c inside)⟩, decimals⟩

theorem mapM_eq_error_iff {α : Type} {found : Option String} {read : String → Except NumberError α} :
    (∃ cause, found.mapM read = .error cause) ↔
      ∃ text, found = some text ∧ ∃ cause, read text = .error cause := by
  cases found with
  | none => exact iff_of_false nofun nofun
  | some text =>
    simp only [Option.some.injEq, exists_eq_left']
    rw [Option.mapM_some]
    cases read text with
    | error cause => exact iff_of_true ⟨cause, rfl⟩ ⟨cause, rfl⟩
    | ok a => exact iff_of_false nofun nofun

theorem mapM_decimalOf_eq_error_iff {found : Option String} (pointed : ∀ text ∈ found, Pointed text) :
    (∃ cause, found.mapM decimalOf = .error cause) ↔ ∃ text, found = some text ∧ MockDecimal text := by
  rw [mapM_eq_error_iff]
  refine exists_congr fun text => and_congr_right fun here => ?_
  have number := Text.decimal?_isSome_iff (pointed text here)
  rw [String.ofList_toList] at number
  simp only [decimalOf_eq_error_iff, exists_eq_left]
  rw [← Option.not_isSome_iff_eq_none, number, not_and_or, Nat.not_le, MockDecimal]
  simp only [not_exists, not_and, not_not]

theorem mapM_wholeOf_eq_error_iff {found : Option String}
    (digits : ∀ text ∈ found, Text.Digits text.toList ∧ Text.Decimals text.toList) :
    (∃ cause, found.mapM wholeOf = .error cause) ↔
      ∃ text, found = some text ∧ Text.maxWholeDigits < text.toList.length := by
  rw [mapM_eq_error_iff]
  refine exists_congr fun text => and_congr_right fun here => ?_
  have none := whole?_of_digits (digits text here).1
  rw [String.ofList_toList] at none
  simp only [wholeOf_eq_error_iff, exists_eq_left]
  rw [none, or_iff_right (not_not.mpr (digits text here).2)]

section

variable {cs : List Char} {time : String}

theorem rate_eq_error_iff :
    (∃ cause, (findAfter? "fps=".toList ratePattern? cs).mapM decimalOf = .error cause) ↔
      ∃ text, findAfter? "fps=".toList ratePattern? cs = some text ∧ MockDecimal text := by
  refine mapM_decimalOf_eq_error_iff fun text here => ?_
  obtain ⟨before, after, -, there⟩ := exists_of_findAfter? here
  exact ratePattern?_pointed there

theorem speed_eq_error_iff :
    (∃ cause, (findAfter? "speed=".toList speedPattern? cs).mapM decimalOf = .error cause) ↔
      ∃ text, findAfter? "speed=".toList speedPattern? cs = some text ∧ MockDecimal text := by
  refine mapM_decimalOf_eq_error_iff fun text here => ?_
  obtain ⟨before, after, -, there⟩ := exists_of_findAfter? here
  exact speedPattern?_pointed there

theorem frame_eq_error_iff :
    (∃ cause, (findAfter? "frame=".toList framePattern? cs).mapM wholeOf = .error cause) ↔
      ∃ text, findAfter? "frame=".toList framePattern? cs = some text ∧
        Text.maxWholeDigits < text.toList.length := by
  refine mapM_wholeOf_eq_error_iff fun text here => ?_
  obtain ⟨before, after, -, there⟩ := exists_of_findAfter? here
  exact framePattern?_digits there

theorem not_statusFault_of_no_time (none : findAfter? "time=".toList timePattern? cs = none) :
    ¬ StatusFault cs := by
  rintro (⟨here, -⟩ | ⟨⟨_, _, here, -⟩, -⟩ | ⟨⟨_, _, here, -⟩, -⟩ | ⟨⟨_, _, here, -⟩, -⟩)
  all_goals
    rw [none] at here
    cases here

theorem not_clockBeyond_of_ok {outTime : Option Double} (read : clockSeconds time = .ok outTime) :
    ¬ ClockBeyond time := by
  intro beyond
  obtain ⟨cause, fails⟩ := clockSeconds_eq_error_iff.mpr beyond
  rw [read] at fails
  cases fails

theorem not_timed_of_none (here : findAfter? "time=".toList timePattern? cs = some time)
    (read : clockSeconds time = .ok none) : ¬ Timed cs := by
  rintro ⟨time', seconds, here', read'⟩
  obtain rfl := Option.some.inj (here.symm.trans here')
  rw [read] at read'
  cases read'

/-- Where there is a time, the other values decide. -/
theorem statusFault_iff_of_timed {outTime : Option Double}
    (here : findAfter? "time=".toList timePattern? cs = some time)
    (read : clockSeconds time = .ok outTime) :
    StatusFault cs ↔ Timed cs ∧
      ((∃ text, findAfter? "fps=".toList ratePattern? cs = some text ∧ MockDecimal text) ∨
        (∃ text, findAfter? "speed=".toList speedPattern? cs = some text ∧ MockDecimal text) ∨
        ∃ text, findAfter? "frame=".toList framePattern? cs = some text ∧
          Text.maxWholeDigits < text.toList.length) := by
  constructor
  · rintro (⟨here', beyond⟩ | ⟨timed, there, mock⟩ | ⟨timed, there, mock⟩ | ⟨timed, there, many⟩)
    · obtain rfl := Option.some.inj (here.symm.trans here')
      exact absurd beyond (not_clockBeyond_of_ok read)
    · exact ⟨timed, .inl ⟨_, there, mock⟩⟩
    · exact ⟨timed, .inr (.inl ⟨_, there, mock⟩)⟩
    · exact ⟨timed, .inr (.inr ⟨_, there, many⟩)⟩
  · rintro ⟨timed, ⟨text, there, mock⟩ | ⟨text, there, mock⟩ | ⟨text, there, many⟩⟩
    · exact .rate timed there mock
    · exact .speed timed there mock
    · exact .frame timed there many

theorem statusUpdate_eq_error_iff (reader : ProgressReader) :
    (∃ cause, reader.statusUpdate cs = .error cause) ↔ StatusFault cs := by
  unfold statusUpdate
  cases here : findAfter? "time=".toList timePattern? cs with
  | none => exact iff_of_false nofun (not_statusFault_of_no_time here)
  | some time =>
    cases read : clockSeconds time with
    | error cause =>
      have beyond : ClockBeyond time := clockSeconds_eq_error_iff.mp ⟨cause, read⟩
      dsimp only
      rw [read]
      exact iff_of_true ⟨cause, rfl⟩ (.clock here beyond)
    | ok outTime =>
      rw [statusFault_iff_of_timed here read, ← rate_eq_error_iff, ← speed_eq_error_iff,
        ← frame_eq_error_iff]
      cases outTime with
      | none =>
        dsimp only
        rw [read]
        exact iff_of_false nofun fun h => not_timed_of_none here read h.1
      | some seconds =>
        dsimp only
        rw [read, and_iff_right ⟨time, seconds, here, read⟩]
        -- The values are read in this order; the first that is no number ends it.
        cases (findAfter? "fps=".toList ratePattern? cs).mapM decimalOf with
        | error cause => exact iff_of_true ⟨cause, rfl⟩ (.inl ⟨cause, rfl⟩)
        | ok rate =>
          cases (findAfter? "speed=".toList speedPattern? cs).mapM decimalOf with
          | error cause => exact iff_of_true ⟨cause, rfl⟩ (.inr (.inl ⟨cause, rfl⟩))
          | ok speed =>
            cases (findAfter? "frame=".toList framePattern? cs).mapM wholeOf with
            | error cause => exact iff_of_true ⟨cause, rfl⟩ (.inr (.inr ⟨cause, rfl⟩))
            | ok frame => exact iff_of_false nofun fun h => h.elim nofun (·.elim nofun nofun)

end

/-! ### Lines that can be read, and lines that are none -/

/-- A line cannot be read behind the lines that were told before: it ends a block that cannot be
read, or is a status line that cannot. -/
inductive Fault (before : List (Stream × String)) : Stream → String → Prop where
  | block {line value : String} (ends : entry? line = some ("progress", value))
      (fault : BlockFault (given before)) : Fault before .output line
  | status {line : String} (fault : StatusFault line.toList) : Fault before .messages line

/-- A line of one of the two formats: of output `name=value`, of messages one with a time. -/
inductive IsReport : Stream → String → Prop where
  | entry {line : String} (equals : '=' ∈ line.toList) : IsReport .output line
  | status {line : String} (before blanks sign hours minutes seconds after : List Char)
      (shape : line.toList = before ++ "time=".toList ++ blanks ++ sign ++ hours ++ ':' :: minutes ++
        ':' :: seconds ++ after)
      (blank : ∀ c ∈ blanks, Text.isBlank c = true) (minus : sign = [] ∨ sign = ['-'])
      (some : hours ≠ [] ∧ minutes ≠ [] ∧ seconds ≠ [])
      (decimals : Text.Decimals (hours ++ minutes ++ seconds)) : IsReport .messages line

theorem colonDigits?_eq_some {cs run rest : List Char} (h : colonDigits? cs = some (run, rest)) :
    ∃ digits, cs = ':' :: digits ++ rest ∧ digits ≠ [] ∧ Text.Decimals digits := by
  unfold colonDigits? at h
  split at h
  · obtain ⟨⟨digits, behind⟩, found, same⟩ := Option.map_eq_some_iff.mp h
    cases same
    obtain ⟨some, decimals, rfl⟩ := digitRun?_eq_some found
    exact ⟨digits, rfl, some, decimals⟩
  · cases h

theorem timePattern?_eq_some {cs : List Char} {text : String} (h : timePattern? cs = some text) :
    ∃ sign hours minutes seconds after : List Char,
      cs = sign ++ hours ++ ':' :: minutes ++ ':' :: seconds ++ after ∧
      (sign = [] ∨ sign = ['-']) ∧ (hours ≠ [] ∧ minutes ≠ [] ∧ seconds ≠ []) ∧
      Text.Decimals (hours ++ minutes ++ seconds) := by
  unfold timePattern? at h
  split at h
  next sign rest signed =>
  have shape : (sign = [] ∨ sign = ['-']) ∧ cs = sign ++ rest := by
    split at signed
    · cases signed
      exact ⟨.inr rfl, rfl⟩
    · cases signed
      exact ⟨.inl rfl, rfl⟩
  obtain ⟨minus, shape⟩ := shape
  obtain ⟨⟨hours, rest1⟩, foundHours, h⟩ := Option.bind_eq_some_iff.mp h
  obtain ⟨⟨minutes, rest2⟩, foundMinutes, h⟩ := Option.bind_eq_some_iff.mp h
  obtain ⟨⟨seconds, rest3⟩, foundSeconds, h⟩ := Option.bind_eq_some_iff.mp h
  obtain ⟨someHours, decimalHours, rfl⟩ := digitRun?_eq_some foundHours
  obtain ⟨minutes, rfl, someMinutes, decimalMinutes⟩ := colonDigits?_eq_some foundMinutes
  obtain ⟨seconds, rfl, someSeconds, decimalSeconds⟩ := colonDigits?_eq_some foundSeconds
  refine ⟨sign, hours, minutes, seconds, rest3, ?_, minus, ⟨someHours, someMinutes, someSeconds⟩, ?_⟩
  · rw [shape]
    simp only [List.append_assoc, List.cons_append]
  · exact List.forall_mem_append.mpr
      ⟨List.forall_mem_append.mpr ⟨decimalHours, decimalMinutes⟩, decimalSeconds⟩

variable {reader : ProgressReader} {line : String}

theorem feedOutput_eq_error_iff :
    (∃ cause, (reader.feedOutput line).1 = .error cause) ↔
      (∃ value, entry? line = some ("progress", value)) ∧ BlockFault (List.lookup · reader.block) := by
  rw [feedOutput_eq]
  cases whole : entry? line with
  | none => exact iff_of_false nofun fun h => h.1.elim nofun
  | some entry =>
    obtain ⟨name, value⟩ := entry
    dsimp only
    by_cases ends : name = "progress"
    · subst ends
      rw [if_pos rfl, and_iff_right ⟨value, rfl⟩, ← blockUpdate_eq_error_iff]
      split
      · next update read =>
        rw [read]
        exact iff_of_false nofun nofun
      · next cause read =>
        rw [read]
        exact iff_of_true ⟨cause, rfl⟩ ⟨cause, rfl⟩
    · rw [if_neg ends]
      refine iff_of_false nofun ?_
      rintro ⟨⟨value', same⟩, -⟩
      cases same
      exact ends rfl

theorem feedMessage_eq_error_iff :
    (∃ cause, (reader.feedMessage line).1 = .error cause) ↔ StatusFault line.toList := by
  rw [← statusUpdate_eq_error_iff reader]
  unfold feedMessage
  split
  · next update read => rw [read]
  · exact Iff.rfl

theorem mem_of_mem_strip {c : Char} {cs : List Char} (h : c ∈ Text.strip cs) : c ∈ cs := by
  have inside := List.mem_reverse.mp h
  exact List.dropWhile_subset _ (List.mem_reverse.mp (List.dropWhile_subset _ inside))

/-- A line of no format leaves no trace. -/
theorem feed_of_not_isReport {stream : Stream} (h : ¬ IsReport stream line) :
    reader.feed stream line = (.ok none, reader) := by
  cases stream with
  | output =>
    have nothing : entry? line = none := by
      unfold entry?
      dsimp only
      refine if_neg fun equals => h (.entry ?_)
      exact mem_of_mem_strip (List.contains_iff_mem.mp equals)
    unfold feed
    dsimp only
    rw [feedOutput_eq, nothing]
  | messages =>
    have untimed : findAfter? "time=".toList timePattern? line.toList = none := by
      refine Option.eq_none_iff_forall_ne_some.mpr fun text found => h ?_
      obtain ⟨before, after, shape, there⟩ := exists_of_findAfter? found
      obtain ⟨sign, hours, minutes, seconds, behind, shape', minus, some, decimals⟩ :=
        timePattern?_eq_some there
      refine .status before (after.takeWhile Text.isBlank) sign hours minutes seconds behind ?_
        (fun c inside => List.all_eq_true.mp List.all_takeWhile c inside) minus some decimals
      have cut := List.takeWhile_append_dropWhile (p := Text.isBlank) (l := after)
      rw [shape'] at cut
      rw [shape]
      nth_rewrite 1 [← cut]
      simp only [List.append_assoc]
    unfold feed feedMessage statusUpdate
    rw [untimed]
    rfl

/-- A reader, whatever the duration and whatever lines it was told, fails at exactly the lines that
cannot be read; at every other line it gives an update or nothing, and a line of no format leaves it
as it is. -/
theorem feed_fails_iff (duration : Option Double) (before : List (Stream × String)) (stream : Stream)
    (line : String) :
    let reader := ProgressReader.told { duration } before
    ((∃ cause, (reader.feed stream line).1 = .error cause) ↔ Fault before stream line) ∧
      (IsReport stream line ∨ reader.feed stream line = (.ok none, reader)) := by
  intro reader
  have block : (List.lookup · reader.block) = given before := told_block _ before
  constructor
  · cases stream with
    | output =>
      refine feedOutput_eq_error_iff.trans ?_
      rw [block]
      constructor
      · rintro ⟨⟨value, ends⟩, fault⟩
        exact .block ends fault
      · intro h
        cases h with
        | block ends fault => exact ⟨⟨_, ends⟩, fault⟩
    | messages =>
      refine feedMessage_eq_error_iff.trans ⟨.status, fun h => ?_⟩
      cases h with
      | status fault => exact fault
  · by_cases report : IsReport stream line
    · exact .inl report
    · exact .inr (feed_of_not_isReport report)

/-- Two minus signs are taken for one: the number is not read, and the block is lost. -/
theorem exists_unread_line :
    ¬ ∀ (duration : Option Double) (before : List (Stream × String)) (stream : Stream) (line : String),
      ∃ answer, ((ProgressReader.told { duration } before).feed stream line).1 = .ok answer := by
  intro reads
  obtain ⟨answer, read⟩ := reads none [(.output, "out_time_us=--5")] .output "progress=continue"
  have fails : ((ProgressReader.told { } [(.output, "out_time_us=--5")]).feed .output
      "progress=continue").1 = .error .notNumeral := by rfl
  rw [fails] at read
  cases read

end Montage.ProgressReader
