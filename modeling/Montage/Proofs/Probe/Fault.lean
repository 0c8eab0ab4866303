import Montage.Proofs.Json.RoundTrip
import Montage.Proofs.Probe.Streams
import Montage.Proofs.Text.Utf8

/-!
# Probes that fail as something else

## Main definitions

* `ProbeRun.Unreadable` — runs whose output is not even read

## Main results

* `ProbeRun.unreadable_brackets` — there is such a run however deep the reader goes
* `ProbeRun.escapes_iff` — what makes each way to probe fail otherwise than as a failed probe
-/

namespace Montage

open Report

namespace ProbeRun

open ProbedMedia

/-! ### Runs -/

/-- What a run wrote is not even read: it is no text, or a whole number in it is too long, or values
in it are nested deeper than the reader goes. Of a run that failed only the text is looked at. -/
inductive Unreadable (nesting : Nat) : ProbeRun → Prop where
  | output {exitCode : Int} {output messages : List UInt8} (bytes : Text.Utf8.decode? output = none) :
      Unreadable nesting (.ended exitCode output messages)
  | messages {exitCode : Int} {output messages : List UInt8}
      (bytes : Text.Utf8.decode? messages = none) :
      Unreadable nesting (.ended exitCode output messages)
  | numeral {output messages : List UInt8} {text : String} (here : Text.Utf8.decode? output = some text)
      (long : Json.read { loneSurrogates := true, maxDepth := nesting }
        (String.ofList (plainLines text.toList)) = .error .numeralTooLong) :
      Unreadable nesting (.ended 0 output messages)
  | nested {output messages : List UInt8} {text : String} (here : Text.Utf8.decode? output = some text)
      (deep : Json.read { loneSurrogates := true, maxDepth := nesting }
        (String.ofList (plainLines text.toList)) = .error .tooDeep) :
      Unreadable nesting (.ended 0 output messages)

variable {nesting : Nat}

theorem escapes_textOf_iff {bytes : List UInt8} :
    Escapes (textOf bytes) ↔ Text.Utf8.decode? bytes = none := by
  unfold textOf
  cases Text.Utf8.decode? bytes with
  | none => exact iff_of_true ⟨_, rfl, nofun⟩ rfl
  | some text => exact iff_of_false (not_escapes_ok _) nofun

/-- The text that is read as a report. -/
theorem unreadable_iff {exitCode : Int} {output messages : List UInt8} {text text' : String}
    (decoded : Text.Utf8.decode? output = some text) (decoded' : Text.Utf8.decode? messages = some text') :
    Unreadable nesting (.ended exitCode output messages) ↔ exitCode = 0 ∧
      ∃ cause, Json.read { loneSurrogates := true, maxDepth := nesting }
        (String.ofList (plainLines text.toList)) = .error cause ∧ cause ≠ .malformed := by
  constructor
  · intro unreadable
    cases unreadable with
    | output bytes =>
      rw [decoded] at bytes
      cases bytes
    | messages bytes =>
      rw [decoded'] at bytes
      cases bytes
    | numeral here long =>
      rw [decoded] at here
      cases here
      exact ⟨rfl, _, long, nofun⟩
    | nested here deep =>
      rw [decoded] at here
      cases here
      exact ⟨rfl, _, deep, nofun⟩
  · rintro ⟨rfl, cause, fails, other⟩
    cases cause with
    | malformed => exact absurd rfl other
    | numeralTooLong => exact .numeral decoded fails
    | tooDeep => exact .nested decoded fails

theorem textOf_of_decode? {bytes : List UInt8} {text : String} (h : Text.Utf8.decode? bytes = some text) :
    textOf bytes = .ok (String.ofList (plainLines text.toList)) := by
  rw [textOf, h]

theorem escapes_report_iff {run : ProbeRun} :
    Escapes (run.report nesting) ↔ Unreadable nesting run := by
  cases run with
  | notStarted reason => exact iff_of_false (not_escapes_failure _) nofun
  | ended exitCode output messages =>
    cases decoded : Text.Utf8.decode? output with
    | none =>
      refine iff_of_true ?_ (.output decoded)
      exact escapes_bind_iff.mpr (.inl (escapes_textOf_iff.mpr decoded))
    | some text =>
      refine (escapes_bind_of_ok (textOf_of_decode? decoded)).trans ?_
      cases decoded' : Text.Utf8.decode? messages with
      | none =>
        refine iff_of_true ?_ (.messages decoded')
        exact escapes_bind_iff.mpr (.inl (escapes_textOf_iff.mpr decoded'))
      | some text' =>
        refine (escapes_bind_of_ok (textOf_of_decode? decoded')).trans ?_
        rw [unreadable_iff decoded decoded']
        by_cases failed : exitCode = 0
        · rw [if_neg (not_not.mpr failed), and_iff_right failed]
          dsimp only
          generalize Json.read _ (String.ofList (plainLines text.toList)) = read
          cases read with
          | ok value =>
            refine iff_of_false (not_escapes_ok value) ?_
            rintro ⟨_, fails, -⟩
            cases fails
          | error cause =>
            cases cause with
            | malformed =>
              refine iff_of_false (not_escapes_failure _) ?_
              rintro ⟨_, fails, other⟩
              cases fails
              exact other rfl
            | numeralTooLong => exact iff_of_true (escapes_number _) ⟨_, rfl, nofun⟩
            | tooDeep => exact iff_of_true ⟨_, rfl, nofun⟩ ⟨_, rfl, nofun⟩
        · rw [if_pos failed]
          exact iff_of_false (not_escapes_failure _) fun h => failed h.1

/-- One list more is opened than the reader goes deep. -/
theorem readValue_brackets (dialect : Json.Dialect) (depth : Nat) {fuel : Nat}
    (fuelled : 2 * depth < fuel) (rest : List Char) :
    Json.readValue dialect fuel depth (List.replicate (depth + 1) '[' ++ rest) = .error .tooDeep := by
  induction depth generalizing fuel with
  | zero =>
    obtain ⟨fuel, rfl⟩ := Nat.exists_eq_add_one.mpr fuelled
    rfl
  | succ depth ih =>
    obtain ⟨fuel, rfl⟩ : ∃ n, fuel = n + 1 + 1 := ⟨fuel - 2, by omega⟩
    have opens (n : Nat) : List.replicate (n + 1) '[' ++ rest = '[' :: (List.replicate n '[' ++ rest) :=
      rfl
    have items : Json.readItems dialect (fuel + 1) depth []
        (List.replicate (depth + 1) '[' ++ rest) = .error .tooDeep := by
      rw [Json.readItems, ih (by omega)]
    rw [opens, Json.readValue, if_neg (Nat.succ_ne_zero depth), opens,
      Json.skipSpace_cons (by decide)]
    exact items

/-- However deep the reader goes, there is an output that is nested deeper. -/
theorem unreadable_brackets (nesting : Nat) (messages : List UInt8) :
    Unreadable nesting
      (.ended 0 (Text.Utf8.encode (String.ofList (List.replicate (nesting + 1) '['))) messages) := by
  have plain (n : Nat) : plainLines (List.replicate n '[') = List.replicate n '[' := by
    induction n with
    | zero => rfl
    | succ n ih =>
      rw [List.replicate_succ, plainLines, ih, if_neg (by decide)]
      simp
  refine .nested (Text.Utf8.decode?_encode _) ?_
  have solid : Json.skipSpace (List.replicate (nesting + 1) '[') = List.replicate (nesting + 1) '[' :=
    Json.skipSpace_cons (by decide)
  have deep : Json.readValue { loneSurrogates := true, maxDepth := nesting } (2 * (nesting + 1) + 2)
      nesting (List.replicate (nesting + 1) '[') = .error .tooDeep := by
    simpa using readValue_brackets _ nesting (by omega) []
  rw [String.toList_ofList, plain, Json.read, String.toList_ofList, solid, List.length_replicate, deep]
  rfl

/-- No streams, or a first one without fields. -/
def DimensionFault (report : Json Double) : Prop :=
  ¬ IsObject report ∨ counts (streamsOf report) = true ∧
    ∀ stream rest, streamsOf report = .list (stream :: rest) → ¬ IsObject stream

/-- What stands in the place of a width or a height and is no whole number. -/
def NoSize (value : Json Double) : Prop :=
  ∃ found, Decode.optional Decode.integer value = .problems found

/-- The first video stream has no whole number as a width or a height. -/
def SizeFault (report : Json Double) : Prop :=
  ∃ items stream, itemsOf (streamsOf report) = some items ∧ firstOf "video" items = some stream ∧
    (NoSize ((stream.get? "width").getD .null) ∨ NoSize ((stream.get? "height").getD .null))

theorem escapes_checked_iff {α : Type} {checked : Checked α} :
    Escapes (liftM checked : Except Failure α) ↔ ∃ found, checked = .problems found := by
  cases checked with
  | ok a => exact iff_of_false (not_escapes_ok a) nofun
  | problems found => exact iff_of_true ⟨_, rfl, nofun⟩ ⟨found, rfl⟩

theorem escapes_videoFormat_iff {width height : Json Double} {rate : Option Double} :
    Escapes (liftM (Decode.videoFormat (.object [("width", width), ("height", height),
      ("frame_rate", .ofReal? rate)])) : Except Failure VideoFormat) ↔ NoSize width ∨ NoSize height := by
  have fields : Decode.videoFormat (.object [("width", width), ("height", height),
      ("frame_rate", .ofReal? rate)]) =
      VideoFormat.mk <$> (Decode.optional Decode.integer width).under "width"
        <*> (Decode.optional Decode.integer height).under "height"
        <*> (Decode.optional Decode.number (.ofReal? rate)).under "frame_rate" := by
    rfl
  have rates : (Decode.optional Decode.number (.ofReal? rate)).under "frame_rate" = .ok rate := by
    cases rate with
    | none => rfl
    | some x => rfl
  rw [escapes_checked_iff, fields, rates]
  unfold NoSize
  cases Decode.optional Decode.integer width with
  | problems found =>
    cases Decode.optional Decode.integer height with
    | problems more => exact iff_of_true ⟨_, rfl⟩ (.inl ⟨found, rfl⟩)
    | ok h => exact iff_of_true ⟨_, rfl⟩ (.inl ⟨found, rfl⟩)
  | ok w =>
    cases Decode.optional Decode.integer height with
    | problems found => exact iff_of_true ⟨_, rfl⟩ (.inr ⟨found, rfl⟩)
    | ok h => exact iff_of_false nofun fun none => none.elim nofun nofun

variable {run : ProbeRun} {fault : Json Double → Prop}

/-- What is made of a report escapes as the run does, or as its making does. -/
theorem escapes_of_report_iff {α : Type} {next : Json Double → Except Failure α}
    (h : ∀ report, Escapes (next report) ↔ fault report) :
    Escapes (run.report nesting >>= next) ↔
      run.Unreadable nesting ∨ ∃ report, run.report nesting = .ok report ∧ fault report := by
  rw [escapes_bind_iff, escapes_report_iff]
  simp only [h]

theorem escapes_duration_iff (path : String) : Escapes (run.duration nesting path) ↔
    run.Unreadable nesting ∨ ∃ report, run.report nesting = .ok report ∧
      (¬ IsObject report ∨ DurationFault (formatOf report)) := by
  refine escapes_of_report_iff fun report => ?_
  by_cases object : IsObject report
  · rw [field_of_isObject object, liftM_ok, ok_bind, or_iff_right (not_not.mpr object),
      ← escapes_durationIn?_iff]
    refine escapes_bind_of_not fun duration => ?_
    cases duration with
    | some duration => exact not_escapes_ok duration
    | none => exact not_escapes_failure _
  · rw [field_of_not object]
    exact iff_of_true (escapes_shape _) (.inl object)

/-- Only a list has a first stream that may be an object. -/
theorem firstStream_eq_ok {stream : Json Double} (h : firstStream value = .ok stream)
    (object : IsObject stream) : ∃ rest, value = .list (stream :: rest) := by
  cases value with
  | null | bool _ | int _ | real _ | object _ => cases h
  | list items =>
    cases items with
    | nil => cases h
    | cons first rest =>
      cases h
      exact ⟨rest, rfl⟩
  | text s =>
    cases h
    obtain ⟨fields, impossible⟩ := object
    cases impossible

theorem escapes_dimensions_iff (path : String) : Escapes (run.dimensions nesting path) ↔
    run.Unreadable nesting ∨ ∃ report, run.report nesting = .ok report ∧ DimensionFault report := by
  refine escapes_of_report_iff fun report => ?_
  unfold DimensionFault
  by_cases object : IsObject report
  · rw [field_of_isObject object, liftM_ok, ok_bind, or_iff_right (not_not.mpr object)]
    have there : (report.get? "streams").getD (.list []) = streamsOf report := rfl
    rw [there]
    dsimp only
    generalize streamsOf report = streams
    by_cases present : counts streams = true
    · rw [present, Bool.not_true, if_neg Bool.false_ne_true, and_iff_right rfl]
      cases first : firstStream streams with
      | error cause =>
        refine iff_of_true (escapes_shape cause) ?_
        rintro stream rest rfl
        cases first
      | ok stream =>
        rw [liftM_ok, ok_bind]
        by_cases fields : IsObject stream
        · obtain ⟨rest, rfl⟩ := firstStream_eq_ok first fields
          rw [plain_of_isObject fields, plain_of_isObject fields, liftM_ok, ok_bind, liftM_ok, ok_bind]
          refine iff_of_false ?_ fun others => others stream rest rfl fields
          split
          · exact not_escapes_failure _
          · exact not_escapes_failure _
          · exact not_escapes_ok _
        · rw [plain_of_not fields]
          refine iff_of_true (escapes_shape _) ?_
          rintro stream' rest rfl
          cases first
          exact fields
    · rw [Bool.eq_false_iff.mpr present, Bool.not_false, if_pos rfl]
      exact iff_of_false (not_escapes_failure _) fun h => Bool.false_ne_true h.1
  · rw [field_of_not object]
    exact iff_of_true (escapes_shape _) (.inl object)

theorem escapes_mediaFile_iff (path : String) (id : Option String) :
    Escapes (run.mediaFile nesting path id) ↔ run.Unreadable nesting ∨
      ∃ report, run.report nesting = .ok report ∧ (InfoFault report ∨ SizeFault report) := by
  unfold mediaFile probedMedia
  rw [bind_assoc]
  refine escapes_of_report_iff fun report => ?_
  rw [← escapes_ofReport_iff]
  refine (ofReport_decided report).escapes_bind_iff fun info told => ?_
  obtain ⟨items, here, size⟩ := size_of_ofReport told
  have sized : SizeFault report ↔ ∃ stream, firstOf "video" items = some stream ∧
      (NoSize ((stream.get? "width").getD .null) ∨ NoSize ((stream.get? "height").getD .null)) := by
    unfold SizeFault
    rw [here]
    simp only [Option.some.injEq, exists_and_left, exists_eq_left']
  rw [sized]
  cases first : firstOf "video" items with
  | none =>
    rw [first] at size
    dsimp only at size ⊢
    rw [size, if_neg Bool.false_ne_true]
    exact iff_of_false (not_escapes_ok _) nofun
  | some stream =>
    rw [first] at size
    dsimp only at size ⊢
    obtain ⟨shown, same⟩ := size
    obtain ⟨width, height⟩ := Prod.mk.inj same
    rw [shown, if_pos rfl]
    refine (escapes_bind_of_not fun found => not_escapes_ok _).trans ?_
    rw [escapes_videoFormat_iff, width, height]
    simp only [Option.some.injEq, exists_eq_left']

end ProbeRun

end Montage
