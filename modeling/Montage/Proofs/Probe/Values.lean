import Montage.Probe.Media
import Montage.Proofs.Action
import Montage.Proofs.Number.Range

/-!
# Values of a report that are not what they are taken for

A probe that fails is to say so as a failed probe. What it looks up in a report may be any JSON value,
though, and is taken for what it should be. Here are the values for which something else comes out.

## Main definitions

* `Escapes` — an operation fails, and not as a failed probe
* `Report.NumberFault`, `Report.WholeFault`, `Report.RateFault`, `Report.DurationFault` — values that
  cannot be used in their places

## Main results

* `ProbedMedia.escapes_durationIn?_iff`, `ProbedMedia.escapes_frameRateOf_iff` — looking for a duration
  or a rate escapes at exactly these values
-/

namespace Montage

/-- An operation fails, and not as a failed probe. -/
def Escapes {α : Type} (result : Except Failure α) : Prop :=
  ∃ failure, result = .error failure ∧ ∀ told, failure ≠ .render (.probe told)

section

variable {α β : Type} {first : Except Failure α} {next : α → Except Failure β}

theorem not_escapes_ok (a : α) : ¬ Escapes (.ok a) := by
  rintro ⟨failure, impossible, -⟩
  cases impossible

theorem not_escapes_failure (message : String) :
    ¬ Escapes (.error (ProbeRun.failure message) : Except Failure α) := by
  rintro ⟨failure, same, other⟩
  exact other _ (Except.error.inj same).symm

theorem escapes_shape (cause : ShapeError) : Escapes (.error (.shape cause) : Except Failure α) :=
  ⟨_, rfl, nofun⟩

theorem escapes_number (cause : NumberError) : Escapes (.error (.number cause) : Except Failure α) :=
  ⟨_, rfl, nofun⟩

theorem liftM_ok (a : α) : (liftM (.ok a : Except ShapeError α) : Except Failure α) = .ok a := rfl

/-- A sequence escapes in its first part or behind it. -/
theorem escapes_bind_iff :
    Escapes (first >>= next) ↔ Escapes first ∨ ∃ a, first = .ok a ∧ Escapes (next a) := by
  cases first with
  | error failure =>
    constructor
    · rintro ⟨failure', same, other⟩
      exact .inl ⟨failure', congrArg Except.error (Except.error.inj same), other⟩
    · rintro (⟨failure', same, other⟩ | ⟨a, impossible, -⟩)
      · exact ⟨failure', congrArg Except.error (Except.error.inj same), other⟩
      · cases impossible
  | ok a =>
    constructor
    · intro escapes
      exact .inr ⟨a, rfl, escapes⟩
    · rintro (impossible | ⟨a, same, escapes⟩)
      · exact absurd impossible (not_escapes_ok a)
      · cases same
        exact escapes

theorem escapes_bind_of_ok {a : α} (h : first = .ok a) : Escapes (first >>= next) ↔ Escapes (next a) := by
  subst h
  rfl

/-- Where the rest cannot escape, only the first part can. -/
theorem escapes_bind_of_not (h : ∀ a, ¬ Escapes (next a)) : Escapes (first >>= next) ↔ Escapes first := by
  rw [escapes_bind_iff, or_iff_left]
  rintro ⟨a, -, escapes⟩
  exact h a escapes

/-- An operation returns or escapes: it never fails as a failed probe. -/
def Decided (result : Except Failure α) : Prop := (∃ a, result = .ok a) ∨ Escapes result

theorem decided_ok (a : α) : Decided (.ok a) := .inl ⟨a, rfl⟩

theorem Decided.bind (decided : Decided first) (others : ∀ a, Decided (next a)) :
    Decided (first >>= next) := by
  obtain ⟨a, rfl⟩ | escapes := decided
  · exact others a
  · exact .inr (escapes_bind_iff.mpr (.inl escapes))

theorem Decided.escapes_bind_iff (decided : Decided first) {fault : Prop}
    (h : ∀ a, first = .ok a → (Escapes (next a) ↔ fault)) :
    Escapes (first >>= next) ↔ Escapes first ∨ fault := by
  obtain ⟨a, rfl⟩ | escapes := decided
  · rw [or_iff_right (not_escapes_ok a)]
    exact h a rfl
  · exact iff_of_true (Montage.escapes_bind_iff.mpr (.inl escapes)) (.inl escapes)

end

namespace Report

/-! ### Values -/

/-- A value with fields. -/
def IsObject (value : Json Double) : Prop := ∃ fields, value = .object fields

/-- A value that is no number, stands for none and denotes none; or a whole number beyond doubles. -/
def NumberFault : Json Double → Prop
  | .int n => Double.overflow ≤ n.natAbs
  | .text s => Text.decimal? s = none
  | .null | .list _ | .object _ => True
  | .bool _ | .real _ => False

/-- A value that cannot be cut down to a whole number and denotes none. -/
def WholeFault : Json Double → Prop
  | .real x => x.isFinite = false
  | .text s => Text.whole? s = none
  | .null | .list _ | .object _ => True
  | .int _ | .bool _ => False

/-- A value in the place of a rate that is there, and is no text. -/
def RateFault (value : Json Double) : Prop := counts value = true ∧ ∀ s, value ≠ .text s

/-- What is no place for a duration, or is one and holds something else. -/
def DurationFault : Json Double → Prop
  | .object fields => ∃ value, fields.lookup "duration" = some value ∧ NumberFault value
  | .list items => .text "duration" ∈ items
  | .text s => "duration".toList <:+: s.toList
  | .null | .bool _ | .int _ | .real _ => True

theorem field_of_isObject {value : Json Double} (h : IsObject value) (name : String) :
    field value name = .ok (value.get? name) := by
  obtain ⟨fields, rfl⟩ := h
  rfl

theorem field_of_not {value : Json Double} (h : ¬ IsObject value) (name : String) :
    field value name = .error .notObject := by
  cases value with
  | object fields => exact absurd ⟨fields, rfl⟩ h
  | null | bool _ | int _ | real _ | text _ | list _ => rfl

theorem escapes_number_iff {value : Json Double} : Escapes (number value) ↔ NumberFault value := by
  cases value with
  | null | list _ | object _ => exact iff_of_true (escapes_shape _) trivial
  | bool b => exact iff_of_false (not_escapes_ok _) id
  | real x => exact iff_of_false (not_escapes_ok _) id
  | text s =>
    unfold number NumberFault
    dsimp only
    cases Text.decimal? s with
    | none => exact iff_of_true (escapes_number _) rfl
    | some x => exact iff_of_false (not_escapes_ok _) nofun
  | int n =>
    unfold number NumberFault
    dsimp only
    cases read : Double.ofInt n with
    | error cause => exact iff_of_true (escapes_number cause) (Double.ofInt_eq_error_iff.mp read).2
    | ok x =>
      refine iff_of_false (not_escapes_ok x) fun beyond => ?_
      rw [Double.ofInt_eq_error_iff.mpr ⟨rfl, beyond⟩] at read
      cases read

theorem escapes_whole_iff {value : Json Double} : Escapes (whole value) ↔ WholeFault value := by
  cases value with
  | null | list _ | object _ => exact iff_of_true (escapes_shape _) trivial
  | bool b => exact iff_of_false (not_escapes_ok _) id
  | int n => exact iff_of_false (not_escapes_ok _) id
  | text s =>
    unfold whole WholeFault
    dsimp only
    cases Text.whole? s with
    | none => exact iff_of_true (escapes_number _) rfl
    | some n => exact iff_of_false (not_escapes_ok n) nofun
  | real x =>
    cases x with
    | nan => exact iff_of_true (escapes_number _) rfl
    | infinite negative => exact iff_of_true (escapes_number _) rfl
    | finite negative units fits => exact iff_of_false (not_escapes_ok _) nofun

theorem number_decided (value : Json Double) : Decided (number value) := by
  cases value with
  | null | list _ | object _ => exact .inr (escapes_shape _)
  | bool _ | real _ => exact decided_ok _
  | text s =>
    unfold number
    dsimp only
    cases Text.decimal? s with
    | none => exact .inr (escapes_number _)
    | some x => exact decided_ok x
  | int n =>
    unfold number
    dsimp only
    cases Double.ofInt n with
    | error cause => exact .inr (escapes_number cause)
    | ok x => exact decided_ok x

theorem whole_decided (value : Json Double) : Decided (whole value) := by
  cases value with
  | null | list _ | object _ => exact .inr (escapes_shape _)
  | bool _ | int _ => exact decided_ok _
  | text s =>
    unfold whole
    dsimp only
    cases Text.whole? s with
    | none => exact .inr (escapes_number _)
    | some n => exact decided_ok n
  | real x =>
    unfold whole
    dsimp only
    cases Scalar.truncate x with
    | error cause => exact .inr (escapes_number cause)
    | ok n => exact decided_ok n

theorem occurs_iff {text cs : List Char} : occurs text cs = true ↔ text <:+: cs := by
  induction cs with
  | nil => rw [occurs, List.isEmpty_iff, List.infix_nil]
  | cons c rest ih => rw [occurs, Bool.or_eq_true, ih, List.isPrefixOf_iff_prefix, List.infix_cons_iff]

end Report

open Report

namespace ProbedMedia

variable {info next : ProbedMedia} {stream value other : Json Double} {name : String}

theorem plain_of_isObject (h : IsObject stream) (name : String) :
    plain stream name = .ok ((stream.get? name).getD .null) := by
  rw [plain, field_of_isObject h]
  rfl

theorem plain_of_not (h : ¬ IsObject stream) (name : String) : plain stream name = .error .notObject := by
  rw [plain, field_of_not h]
  rfl

/-! ### Durations and rates -/

theorem any_text_iff {items : List (Json Double)} :
    (items.any fun item => match item with | .text s => decide (s = name) | _ => false) = true ↔
      .text name ∈ items := by
  rw [List.any_eq_true]
  constructor
  · rintro ⟨item, inside, same⟩
    split at same
    · rwa [← of_decide_eq_true same]
    · cases same
  · intro inside
    exact ⟨_, inside, decide_eq_true rfl⟩

/-- What holds no duration has none. -/
theorem durationIn?_of_not_holds (h : holds value "duration" = .ok false) :
    durationIn? value = .ok none := by
  unfold durationIn?
  rw [h]
  rfl

/-- In a list or a text there is a word, but nothing under it. -/
theorem escapes_durationIn?_of_holds (h : holds value "duration" = .ok true) (other : ¬ IsObject value) :
    Escapes (durationIn? value) := by
  have lost : under value "duration" = .error .wrongType := by
    cases value with
    | object fields => exact absurd ⟨fields, rfl⟩ other
    | null | bool _ | int _ | real _ | text _ | list _ => rfl
  unfold durationIn?
  rw [h, lost]
  exact escapes_shape _

theorem durationIn?_of_lookup {fields : List (String × Json Double)}
    (here : fields.lookup "duration" = some value) :
    durationIn? (.object fields) = number value >>= fun x => .ok (some x) := by
  have there : holds (.object fields) "duration" = .ok true := by rw [holds, here]; rfl
  have found : under (.object fields) "duration" = .ok value := by rw [under, here]
  unfold durationIn?
  rw [there, found]
  rfl

/-- What is no object holds no duration, or is a fault. -/
theorem holds_or_escapes (other : ¬ IsObject value) :
    holds value "duration" = .ok false ∧ ¬ DurationFault value ∨
      Escapes (durationIn? value) ∧ DurationFault value := by
  have decided (b : Bool) (found : holds value "duration" = .ok b) (fault : b = true ↔ DurationFault value) :
      holds value "duration" = .ok false ∧ ¬ DurationFault value ∨
        Escapes (durationIn? value) ∧ DurationFault value := by
    cases b with
    | false => exact .inl ⟨found, fun h => Bool.false_ne_true (fault.mpr h)⟩
    | true => exact .inr ⟨escapes_durationIn?_of_holds found other, fault.mp rfl⟩
  cases value with
  | null | bool _ | int _ | real _ => exact .inr ⟨escapes_shape _, trivial⟩
  | object fields => exact absurd ⟨fields, rfl⟩ other
  | list items => exact decided _ rfl any_text_iff
  | text s => exact decided _ rfl occurs_iff

theorem holds_of_lookup_none {fields : List (String × Json Double)}
    (here : fields.lookup "duration" = none) : holds (.object fields) "duration" = .ok false := by
  rw [holds, here]
  rfl

theorem escapes_durationIn?_iff : Escapes (durationIn? value) ↔ DurationFault value := by
  by_cases object : IsObject value
  · obtain ⟨fields, rfl⟩ := object
    cases here : fields.lookup "duration" with
    | none =>
      rw [durationIn?_of_not_holds (holds_of_lookup_none here)]
      refine iff_of_false (not_escapes_ok _) ?_
      rintro ⟨value, there, -⟩
      rw [here] at there
      cases there
    | some value =>
      have fault : DurationFault (.object fields) ↔ NumberFault value := by
        simp only [DurationFault, here, Option.some.injEq, exists_eq_left']
      rw [fault, durationIn?_of_lookup here, escapes_bind_of_not fun x => not_escapes_ok _]
      exact escapes_number_iff
  · obtain ⟨absent, sound⟩ | ⟨escapes, fault⟩ := holds_or_escapes object
    · rw [durationIn?_of_not_holds absent]
      exact iff_of_false (not_escapes_ok _) sound
    · exact iff_of_true escapes fault

theorem get?_of_not_isObject (other : ¬ IsObject value) (name : String) : value.get? name = none := by
  cases value with
  | object fields => exact absurd ⟨fields, rfl⟩ other
  | null | bool _ | int _ | real _ | text _ | list _ => rfl

/-- What is read without trouble is none if there is nothing under the name. -/
theorem durationIn?_eq_none_iff {duration : Option Double} (read : durationIn? value = .ok duration) :
    duration = none ↔ value.get? "duration" = none := by
  have nowhere (absent : holds value "duration" = .ok false) : duration = none := by
    rw [durationIn?_of_not_holds absent] at read
    exact (Except.ok.inj read).symm
  by_cases object : IsObject value
  · obtain ⟨fields, rfl⟩ := object
    cases here : fields.lookup "duration" with
    | none => exact iff_of_true (nowhere (holds_of_lookup_none here)) here
    | some value =>
      have there : (Json.object fields).get? "duration" = some value := here
      rw [durationIn?_of_lookup here] at read
      obtain ⟨x, -, same⟩ := exists_of_bind_eq_ok read
      cases same
      rw [there]
      exact iff_of_false nofun nofun
  · obtain ⟨absent, -⟩ | ⟨⟨failure, fails, -⟩, -⟩ := holds_or_escapes object
    · exact iff_of_true (nowhere absent) (get?_of_not_isObject object _)
    · rw [fails] at read
      cases read

theorem durationIn?_decided (value : Json Double) : Decided (durationIn? value) := by
  by_cases object : IsObject value
  · obtain ⟨fields, rfl⟩ := object
    cases here : fields.lookup "duration" with
    | none =>
      rw [durationIn?_of_not_holds (holds_of_lookup_none here)]
      exact decided_ok none
    | some value =>
      rw [durationIn?_of_lookup here]
      exact (number_decided value).bind fun x => decided_ok _
  · obtain ⟨absent, -⟩ | ⟨escapes, -⟩ := holds_or_escapes object
    · rw [durationIn?_of_not_holds absent]
      exact decided_ok none
    · exact .inr escapes

/-- The rate that a value denotes, where it is looked at as one. -/
def rateOf? : Json Double → Option Double
  | .text s => frameRateOfText s
  | _ => none

theorem frameRateOf_of_not (sound : ¬ RateFault value) : frameRateOf value = .ok (rateOf? value) := by
  unfold frameRateOf
  by_cases present : counts value = true
  · rw [present, Bool.not_true, if_neg Bool.false_ne_true]
    cases value with
    | text s => rfl
    | null | bool _ | int _ | real _ | list _ | object _ => exact absurd ⟨present, nofun⟩ sound
  · rw [Bool.eq_false_iff.mpr present, Bool.not_false, if_pos rfl]
    cases value with
    | text s =>
      have empty : s = "" := by
        by_contra some
        exact present (decide_eq_true some)
      subst empty
      rfl
    | null | bool _ | int _ | real _ | list _ | object _ => rfl

theorem escapes_frameRateOf_iff : Escapes (frameRateOf value) ↔ RateFault value := by
  by_cases fault : RateFault value
  · refine iff_of_true ?_ fault
    obtain ⟨present, noText⟩ := fault
    unfold frameRateOf
    rw [present, Bool.not_true, if_neg Bool.false_ne_true]
    cases value with
    | text s => exact absurd rfl (noText s)
    | null | bool _ | int _ | real _ => exact escapes_shape _
    | list items =>
      dsimp only [holds]
      cases items.any _ with
      | true => exact escapes_shape _
      | false => exact escapes_shape _
    | object fields =>
      dsimp only [holds]
      cases (fields.lookup "/").isSome with
      | true => exact escapes_shape _
      | false => exact escapes_shape _
  · rw [frameRateOf_of_not fault]
    exact iff_of_false (not_escapes_ok _) fault

theorem frameRateOf_decided (value : Json Double) : Decided (frameRateOf value) := by
  by_cases fault : RateFault value
  · exact .inr (escapes_frameRateOf_iff.mpr fault)
  · rw [frameRateOf_of_not fault]
    exact decided_ok _

end ProbedMedia

end Montage
