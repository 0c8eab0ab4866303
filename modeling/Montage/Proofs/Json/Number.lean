import Montage.Json.Reader
import Montage.Proofs.Number.Shortest
import Montage.Proofs.Text.Digits

/-!
# Numbers that are written in JSON are read back

The digits of a number, a point among them and an exponent behind them are taken apart again, however
the decimal is laid out; so a double is read as the double that it was, since the decimal that is
written for it is rounded to it.

## Main results

* `readAtom_int` — a whole number of not too many digits is read as it was
* `readAtom_double` — a finite double is read as it was, in every layout
-/

namespace Montage.Json

open Text

variable {cs ds rest rest' rest'' : List Char} {negative : Bool}

/-- What stands behind a number is not part of it. -/
def Ends (rest : List Char) : Prop :=
  ∀ c ∈ rest.head?, c.isDigit = false ∧ c ≠ '.' ∧ c ≠ 'e' ∧ c ≠ 'E'

/-- No digit stands next. -/
def NoDigit (rest : List Char) : Prop := ∀ c ∈ rest.head?, c.isDigit = false

theorem Ends.noDigit (h : Ends rest) : NoDigit rest := fun c hc => (h c hc).1

theorem noDigit_cons {c : Char} (h : c.isDigit = false) : NoDigit (c :: rest) := by
  rintro d hd
  obtain rfl : c = d := by simpa using hd
  exact h

theorem ends_nil : Ends [] := by simp [Ends]

theorem ends_cons {c : Char} (h : c.isDigit = false ∧ c ≠ '.' ∧ c ≠ 'e' ∧ c ≠ 'E') :
    Ends (c :: rest) := by
  rintro d hd
  obtain rfl : c = d := by simpa using hd
  exact h

/-! ### The parts of a number -/

theorem spanDigits_append (numeric : Numeric ds) (stops : NoDigit rest) :
    spanDigits (ds ++ rest) = (digitValues ds, rest) := by
  have taken : rest.takeWhile Char.isDigit = [] ∧ rest.dropWhile Char.isDigit = rest := by
    cases rest with
    | nil => exact ⟨rfl, rfl⟩
    | cons c rest =>
      have := stops c (by simp)
      simp [this]
  rw [spanDigits, List.takeWhile_append_of_pos numeric, List.dropWhile_append_of_pos numeric,
    taken.1, taken.2, List.append_nil]
  rfl

theorem isEmpty_digitValues (filled : ds ≠ []) : (digitValues ds).isEmpty = false := by
  cases ds with
  | nil => exact absurd rfl filled
  | cons => rfl

theorem readFraction_point (numeric : Numeric ds) (filled : ds ≠ []) (stops : NoDigit rest) :
    readFraction ('.' :: (ds ++ rest)) = (some (digitValues ds), rest) := by
  simp only [readFraction, spanDigits_append numeric stops, isEmpty_digitValues filled,
    Bool.false_eq_true, if_false]

theorem readFraction_of_ne (h : ∀ c ∈ rest.head?, c ≠ '.') : readFraction rest = (none, rest) := by
  cases rest with
  | nil => rfl
  | cons c rest =>
    have : c ≠ '.' := h c (by simp)
    unfold readFraction
    split
    · next heq => exact absurd (List.cons.inj heq).1 this
    · rfl

theorem readExponent_of_ne (h : ∀ c ∈ rest.head?, c ≠ 'e' ∧ c ≠ 'E') :
    readExponent rest = (none, rest) := by
  cases rest with
  | nil => rfl
  | cons c rest =>
    obtain ⟨small, large⟩ := h c (by simp)
    simp [readExponent, small, large]

/-- A sign is taken off; digits have none. -/
theorem takeSign_append (numeric : Numeric ds) (filled : ds ≠ []) :
    takeSign (ds ++ rest) = (false, ds ++ rest) := by
  cases ds with
  | nil => exact absurd rfl filled
  | cons c ds =>
    have digit := numeric c List.mem_cons_self
    unfold takeSign
    split
    · next heq =>
      obtain rfl := (List.cons.inj heq).1
      exact absurd digit (by decide)
    · next heq =>
      obtain rfl := (List.cons.inj heq).1
      exact absurd digit (by decide)
    · rfl

/-- An exponent is read in every layout. -/
theorem readExponent_exponentText (layout : DoubleLayout) (e : Int) (stops : NoDigit rest) :
    readExponent ('e' :: ((layout.exponentText e).toList ++ rest)) = (some e, rest) := by
  have numeric := numeric_paddedDigits layout.exponentDigits e.natAbs
  have filled := paddedDigits_ne_nil layout.exponentDigits e.natAbs
  have value := ofDigits_paddedDigits layout.exponentDigits e.natAbs
  rw [DoubleLayout.exponentText, String.toList_append, toList_padded, List.append_assoc]
  generalize paddedDigits layout.exponentDigits e.natAbs = ds at numeric filled value
  have signed : takeSign ((if e < 0 then "-" else if layout.plusSign then "+" else "").toList ++
      (ds ++ rest)) = (decide (e < 0), ds ++ rest) := by
    split
    · next negative => rw [decide_eq_true negative]; rfl
    · next positive =>
      rw [decide_eq_false positive]
      split
      · rfl
      · change takeSign (ds ++ rest) = (false, ds ++ rest)
        exact takeSign_append numeric filled
  simp only [readExponent, signed, spanDigits_append numeric stops, isEmpty_digitValues filled, value,
    Bool.false_eq_true, if_false, decide_true, Bool.true_or, if_true, decide_eq_true_eq]
  rw [Prod.mk.injEq, Option.some.injEq]
  refine ⟨?_, rfl⟩
  split <;> omega

/-- A number with a fraction or an exponent. -/
theorem readNumberTail_real {whole : List Nat} {fraction : Option (List Nat)}
    {exponent : Option Int} (hf : readFraction rest = (fraction, rest'))
    (he : readExponent rest' = (exponent, rest''))
    (h : fraction.isSome = true ∨ exponent.isSome = true) :
    readNumberTail negative whole rest = .ok (.real (.ofDecimal negative
      (ofDigits (whole ++ fraction.getD [])) (exponent.getD 0 - (fraction.getD []).length)),
      rest'') := by
  rw [readNumberTail, hf]
  dsimp only
  rw [he]
  dsimp only
  cases fraction with
  | some _ => rfl
  | none =>
    cases exponent with
    | some _ => rfl
    | none => exact absurd h (by decide)

/-- Digits that may stand in front of the point: a zero at their start is all of them. -/
def Leads (whole : List Char) : Prop :=
  whole = ['0'] ∨ ∃ c ds, whole = c :: ds ∧ c ≠ '0'

theorem leads_toDigits (n : Nat) : Leads (Nat.toDigits 10 n) := by
  rcases Nat.eq_zero_or_pos n with rfl | positive
  · exact .inl (Nat.toDigits_zero 10)
  · exact .inr (toDigits_eq_cons positive)

theorem readNumber_append {whole : List Char} (leads : Leads whole) (numeric : Numeric whole)
    (stops : NoDigit rest) :
    readNumber negative (whole ++ rest) = readNumberTail negative (digitValues whole) rest := by
  rcases leads with rfl | ⟨c, ds, rfl, first⟩
  · rfl
  · have taken := spanDigits_append numeric stops
    unfold readNumber
    split
    · next heq => exact absurd (List.cons.inj heq).1 first
    · rw [taken]
      rfl

section Parts

variable {whole fraction : List Char} (leads : Leads whole) (numeric : Numeric whole)
  (numeric' : Numeric fraction) (filled : fraction ≠ []) (ends : Ends rest)

include leads numeric ends

/-- Digits alone are a whole number, unless there are too many of them. -/
theorem readNumber_whole : readNumber negative (whole ++ rest) =
    if maxWholeDigits < whole.length then .error .numeralTooLong
    else .ok (.int (if negative then -(ofDigits (digitValues whole) : Int)
      else ofDigits (digitValues whole)), rest) := by
  rw [readNumber_append leads numeric ends.noDigit, readNumberTail,
    readFraction_of_ne fun c hc => (ends c hc).2.1]
  dsimp only
  rw [readExponent_of_ne fun c hc => (ends c hc).2.2]
  dsimp only
  rw [length_digitValues]

theorem readNumber_exponent (layout : DoubleLayout) (e : Int) :
    readNumber negative (whole ++ 'e' :: ((layout.exponentText e).toList ++ rest)) =
      .ok (.real (.ofDecimal negative (ofDigits (digitValues whole)) e), rest) := by
  rw [readNumber_append leads numeric (noDigit_cons (by decide))]
  refine (readNumberTail_real (readFraction_of_ne fun c hc => ?_)
    (readExponent_exponentText layout e ends.noDigit) (.inr rfl)).trans ?_
  · obtain rfl : 'e' = c := by simpa using hc
    decide
  · simp

include numeric' filled

theorem readNumber_point :
    readNumber negative (whole ++ '.' :: (fraction ++ rest)) = .ok (.real (.ofDecimal negative
      (ofDigits (digitValues (whole ++ fraction))) (-fraction.length)), rest) := by
  rw [readNumber_append leads numeric (noDigit_cons (by decide)), digitValues_append]
  refine (readNumberTail_real (readFraction_point numeric' filled ends.noDigit)
    (readExponent_of_ne fun c hc => (ends c hc).2.2) (.inl rfl)).trans ?_
  simp [length_digitValues]

theorem readNumber_point_exponent (layout : DoubleLayout) (e : Int) :
    readNumber negative
        (whole ++ '.' :: (fraction ++ 'e' :: ((layout.exponentText e).toList ++ rest))) =
      .ok (.real (.ofDecimal negative (ofDigits (digitValues (whole ++ fraction)))
        (e - fraction.length)), rest) := by
  rw [readNumber_append leads numeric (noDigit_cons (by decide)), digitValues_append]
  refine (readNumberTail_real (readFraction_point numeric' filled (noDigit_cons (by decide)))
    (readExponent_exponentText layout e ends.noDigit) (.inl rfl)).trans ?_
  simp [length_digitValues]

end Parts

/-! ### Decimals

A decimal is laid out in four ways: all its digits behind the point, the point among them, zeros and
the point behind them, or the first of them and an exponent. -/

section Layouts

variable {d : Decimal} {n k : Nat}

theorem leads_append (h : Leads cs) (more : cs ≠ ['0']) : Leads (cs ++ ds) := by
  rcases h with zero | ⟨c, tail, rfl, first⟩
  · exact absurd zero more
  · exact .inr ⟨c, tail ++ ds, rfl, first⟩

theorem toDigits_ne_zero (positive : 0 < n) : Nat.toDigits 10 n ≠ ['0'] := by
  obtain ⟨c, ds, digits, first⟩ := toDigits_eq_cons positive
  rw [digits]
  exact fun h => first (List.cons.inj h).1

theorem leads_take (positive : 0 < n) (some : 0 < k) : Leads ((Nat.toDigits 10 n).take k) := by
  obtain ⟨c, ds, digits, first⟩ := toDigits_eq_cons positive
  obtain ⟨k, rfl⟩ : ∃ m, k = m + 1 := Nat.exists_eq_succ_of_ne_zero (by omega)
  rw [digits]
  exact .inr ⟨c, ds.take k, rfl, first⟩

theorem numeric_take (n k : Nat) : Numeric ((Nat.toDigits 10 n).take k) :=
  (numeric_toDigits n).sublist (List.take_subset _ _)

theorem numeric_drop (n k : Nat) : Numeric ((Nat.toDigits 10 n).drop k) :=
  (numeric_toDigits n).sublist (List.drop_subset _ _)

/-- All digits behind the point. -/
theorem readNumber_behind_point (ends : Ends rest)
    (place : -(k + (Nat.toDigits 10 d.digits).length : Int) = d.exponent) :
    readNumber negative ('0' :: '.' :: (List.replicate k '0' ++ Nat.toDigits 10 d.digits ++ rest)) =
      .ok (.real (.ofDecimal negative d.digits d.exponent), rest) := by
  refine (readNumber_point (.inl rfl) (numeric_zeros 1)
    ((numeric_zeros k).append (numeric_toDigits d.digits))
    (List.append_ne_nil_of_right_ne_nil _ Nat.toDigits_ne_nil) ends).trans ?_
  have digits := ofDigits_zeros_append (k + 1) (Nat.toDigits 10 d.digits)
  rw [ofDigits_toDigits, List.replicate_succ, List.cons_append] at digits
  rw [List.singleton_append, digits, List.length_append, List.length_replicate, Nat.cast_add, place]

/-- The point among the digits. -/
theorem readNumber_around_point (ends : Ends rest) (positive : 0 < d.digits) (some : 0 < k)
    (more : k < (Nat.toDigits 10 d.digits).length)
    (place : (k : Int) = (Nat.toDigits 10 d.digits).length + d.exponent) :
    readNumber negative ((Nat.toDigits 10 d.digits).take k ++ '.' ::
        ((Nat.toDigits 10 d.digits).drop k ++ rest)) =
      .ok (.real (.ofDecimal negative d.digits d.exponent), rest) := by
  refine (readNumber_point (leads_take positive some) (numeric_take _ k) (numeric_drop _ k) ?_
    ends).trans ?_
  · rw [Ne, List.drop_eq_nil_iff]
    omega
  · rw [List.take_append_drop, ofDigits_toDigits, List.length_drop]
    congr 4
    omega

/-- Zeros and the point behind the digits. -/
theorem readNumber_before_point (ends : Ends rest) (positive : 0 < d.digits) :
    readNumber negative (Nat.toDigits 10 d.digits ++ List.replicate k '0' ++ '.' :: '0' :: rest) =
      .ok (.real (.ofDecimal negative (d.digits * 10 ^ (k + 1)) (-1)), rest) := by
  have zero : Numeric ['0'] := numeric_zeros 1
  refine (readNumber_point (leads_append (leads_toDigits _) (toDigits_ne_zero positive))
    ((numeric_toDigits _).append (numeric_zeros k)) zero (List.cons_ne_nil _ _) ends).trans ?_
  have digits := ofDigits_append_zeros (Nat.toDigits 10 d.digits) (k + 1)
  rw [ofDigits_toDigits, List.replicate_succ', ← List.append_assoc] at digits
  rw [digits]
  rfl

/-- The first digit, the others behind the point, and an exponent. -/
theorem readNumber_scientific (layout : DoubleLayout) (ends : Ends rest) (positive : 0 < d.digits) :
    readNumber negative ((Nat.toDigits 10 d.digits).take 1 ++
        ((if ((Nat.toDigits 10 d.digits).drop 1).isEmpty then []
          else '.' :: (Nat.toDigits 10 d.digits).drop 1) ++
        'e' :: ((layout.exponentText ((Nat.toDigits 10 d.digits).length + d.exponent - 1)).toList ++
          rest))) =
      .ok (.real (.ofDecimal negative d.digits d.exponent), rest) := by
  have parts := List.take_append_drop 1 (Nat.toDigits 10 d.digits)
  have value := ofDigits_toDigits d.digits
  have counted : 0 < (Nat.toDigits 10 d.digits).length := Nat.length_toDigits_pos
  have rest_length : ((Nat.toDigits 10 d.digits).drop 1).length =
      (Nat.toDigits 10 d.digits).length - 1 := List.length_drop
  split
  · next none =>
    rw [List.isEmpty_iff] at none
    rw [none, List.append_nil] at parts
    rw [none, List.length_nil] at rest_length
    refine (readNumber_exponent (leads_take positive Nat.one_pos) (numeric_take _ 1) ends layout
      _).trans ?_
    rw [parts, value]
    congr 4
    omega
  · next more =>
    refine (readNumber_point_exponent (leads_take positive Nat.one_pos) (numeric_take _ 1)
      (numeric_drop _ 1) (fun h => more (by rw [h]; rfl)) ends layout _).trans ?_
    rw [parts, value, rest_length]
    congr 4
    omega

/-- A decimal is read as one of the same value. -/
theorem readNumber_decimalText (layout : DoubleLayout) (positive : 0 < d.digits)
    (ends : Ends rest) :
    ∃ d' : Decimal, d'.value = d.value ∧
      readNumber negative ((layout.decimalText d).toList ++ rest) =
        .ok (.real (.ofDecimal negative d'.digits d'.exponent), rest) := by
  unfold DoubleLayout.decimalText
  rw [toList_toString]
  dsimp only
  split
  · split
    · next small =>
      refine ⟨d, rfl, ?_⟩
      rw [String.toList_append, String.toList_ofList, String.toList_ofList]
      exact readNumber_behind_point ends (by omega)
    · split
      · next among =>
        refine ⟨d, rfl, ?_⟩
        rw [String.toList_append, String.toList_append, String.toList_ofList, String.toList_ofList,
          String.toList_ofList, List.append_assoc, List.append_assoc]
        exact readNumber_around_point ends positive (by omega) (by omega) (by omega)
      · next behind =>
        refine ⟨⟨d.digits * 10 ^ (d.exponent.toNat + 1), -1⟩, ?_, ?_⟩
        · have whole : d.exponent = (d.exponent.toNat : ℤ) := by omega
          unfold Decimal.value
          dsimp only
          conv_rhs => rw [whole]
          push_cast
          rw [zpow_natCast, zpow_neg_one, pow_succ]
          field_simp
        · rw [String.toList_append, String.toList_ofList, List.append_assoc,
            show ".0".toList = ['.', '0'] from rfl]
          rw [show ((Nat.toDigits 10 d.digits).length + d.exponent -
            (Nat.toDigits 10 d.digits).length).toNat = d.exponent.toNat by omega]
          exact readNumber_before_point ends positive
  · refine ⟨d, rfl, ?_⟩
    refine (congrArg (readNumber negative) ?_).trans (readNumber_scientific layout ends positive)
    rw [String.toList_append, String.toList_append, String.toList_append, String.toList_ofList]
    split
    · simp
    · simp

end Layouts

/-! ### Numbers among the values -/

theorem exists_digit_of_readNumber {result : Json Double × List Char}
    (h : readNumber negative cs = .ok result) : ∃ c tail, cs = c :: tail ∧ c.isDigit = true := by
  cases cs with
  | nil => exact absurd h (by simp [readNumber, spanDigits])
  | cons c tail =>
    refine ⟨c, tail, rfl, ?_⟩
    by_contra other
    have nothing : spanDigits (c :: tail) = ([], c :: tail) := by simp [spanDigits, other]
    unfold readNumber at h
    split at h
    · next heq =>
      obtain rfl := (List.cons.inj heq).1
      exact other (by decide)
    · rw [nothing] at h
      exact absurd h (by simp)

theorem afterWord?_eq_none {word : String} (h : ¬ word.toList <+: cs) : afterWord? word cs = none := by
  rw [afterWord?, if_neg]
  rwa [List.isPrefixOf_iff_prefix]

/-- No word begins with a digit. -/
theorem readAtom_digit {c : Char} (digit : c.isDigit = true) :
    readAtom (c :: cs) = readNumber false (c :: cs) := by
  have differ {l : Char} (letter : l.isDigit = false) : l ≠ c := by
    rintro rfl
    exact absurd (digit.symm.trans letter) (by decide)
  have sign : c ≠ '-' := (differ (by decide)).symm
  have other {word : String} {l : Char} {ls : List Char} (letters : word.toList = l :: ls)
      (letter : l.isDigit = false) : afterWord? word (c :: cs) = none := by
    refine afterWord?_eq_none ?_
    rw [letters, List.cons_prefix_cons]
    exact fun h => differ letter h.1
  unfold readAtom
  dsimp only
  rw [List.findSome?_eq_none_iff.mpr]
  · dsimp only
    split
    · next heq => exact absurd (List.cons.inj heq).1 sign
    · rfl
  · intro entry hentry
    simp only [List.mem_cons, List.not_mem_nil, or_false] at hentry
    rcases hentry with rfl | rfl | rfl | rfl | rfl | rfl <;>
      exact Option.map_eq_none_iff.mpr (other rfl (by decide))

/-- No word has a digit behind a sign. -/
theorem readAtom_minus {c : Char} (digit : c.isDigit = true) :
    readAtom ('-' :: c :: cs) = readNumber true (c :: cs) := by
  unfold readAtom
  dsimp only
  rw [List.findSome?_eq_none_iff.mpr]
  · rfl
  intro entry hentry
  simp only [List.mem_cons, List.not_mem_nil, or_false] at hentry
  rw [Option.map_eq_none_iff]
  refine afterWord?_eq_none ?_
  rcases hentry with rfl | rfl | rfl | rfl | rfl | rfl
  case inr.inr.inr.inr.inr =>
    rintro ⟨more, heq⟩
    obtain rfl : 'I' = c := (List.cons.inj (List.cons.inj heq).2).1
    exact absurd digit (by decide)
  all_goals
    rintro ⟨more, heq⟩
    exact absurd (List.cons.inj heq).1 (by decide)

/-- A number is told from a word. -/
theorem readAtom_signed {c : Char} (digit : c.isDigit = true) :
    readAtom ((if negative then "-" else "").toList ++ c :: cs) = readNumber negative (c :: cs) := by
  cases negative with
  | true => exact readAtom_minus digit
  | false => exact readAtom_digit digit

theorem readAtom_of_readNumber {result : Json Double × List Char}
    (h : readNumber negative cs = .ok result) :
    readAtom ((if negative then "-" else "").toList ++ cs) = .ok result := by
  obtain ⟨c, tail, rfl, digit⟩ := exists_digit_of_readNumber h
  exact (readAtom_signed digit).trans h

theorem toList_toString_int (n : Int) : (toString n).toList =
    (if decide (n < 0) then "-" else "").toList ++ Nat.toDigits 10 n.natAbs := by
  cases n with
  | ofNat m =>
    rw [decide_eq_false (by simp)]
    exact toList_toString m
  | negSucc m =>
    rw [decide_eq_true (Int.negSucc_lt_zero m)]
    change ("-" ++ toString (m + 1)).toList = _
    rw [String.toList_append, toList_toString]
    rfl

/-- A whole number of not too many digits is read as it was. -/
theorem readAtom_int {n : Int} (few : (Nat.toDigits 10 n.natAbs).length ≤ maxWholeDigits)
    (ends : Ends rest) : readAtom ((toString n).toList ++ rest) = .ok (.int n, rest) := by
  rw [toList_toString_int, List.append_assoc]
  apply readAtom_of_readNumber
  rw [readNumber_whole (leads_toDigits _) (numeric_toDigits _) ends, if_neg (Nat.not_lt.mpr few),
    ofDigits_toDigits]
  congr 3
  split
  · next negative =>
    have := of_decide_eq_true negative
    omega
  · next positive =>
    have := of_decide_eq_false (Bool.not_eq_true _ ▸ positive)
    omega

theorem toList_toString_int_cons (n : Int) : ∃ c ds, c.isDigit = true ∧ (toString n).toList =
    (if decide (n < 0) then "-" else "").toList ++ c :: ds ∧ Nat.toDigits 10 n.natAbs = c :: ds := by
  cases digits : Nat.toDigits 10 n.natAbs with
  | nil => exact absurd digits (by simp)
  | cons c ds =>
    have numeric := numeric_toDigits n.natAbs
    rw [digits] at numeric
    refine ⟨c, ds, numeric c List.mem_cons_self, ?_, rfl⟩
    rw [toList_toString_int, digits]

/-- A whole number that is read has not too many digits. -/
theorem few_of_readAtom {n : Int} {result : Json Double × List Char} (ends : Ends rest)
    (h : readAtom ((toString n).toList ++ rest) = .ok result) :
    (Nat.toDigits 10 n.natAbs).length ≤ maxWholeDigits := by
  by_contra many
  obtain ⟨c, ds, digit, spelled, digits⟩ := toList_toString_int_cons n
  have long : readNumber (decide (n < 0)) (Nat.toDigits 10 n.natAbs ++ rest) =
      .error .numeralTooLong := by
    rw [readNumber_whole (leads_toDigits _) (numeric_toDigits _) ends, if_pos (Nat.lt_of_not_le many)]
  rw [digits, List.cons_append] at long
  rw [spelled, List.append_assoc, List.cons_append, readAtom_signed digit, long] at h
  exact absurd h (by simp)

/-- A finite double is read as it was, however it is laid out. -/
theorem readAtom_double (layout : DoubleLayout) {x : Double} (finite : x.isFinite = true)
    (ends : Ends rest) : readAtom ((layout.text x).toList ++ rest) = .ok (.real x, rest) := by
  cases x with
  | nan => exact absurd finite (by decide)
  | infinite _ => exact absurd finite Bool.false_ne_true
  | finite negative units fits =>
    rw [DoubleLayout.text, String.toList_append, List.append_assoc]
    refine readAtom_of_readNumber ?_
    rcases Nat.eq_zero_or_pos units with rfl | positive
    · rw [if_pos rfl]
      have zero : Numeric ['0'] := numeric_zeros 1
      rw [String.toList_ofList]
      exact readNumber_point (.inl rfl) zero zero (List.cons_ne_nil _ _) ends
    · have meets := Decimal.meets_shortest fits.bits positive
      obtain ⟨d, same, read⟩ := readNumber_decimalText layout (meets.digits_pos positive) ends
      rw [if_neg (Nat.ne_of_gt positive), read,
        Double.ofDecimal_of_meets negative fits positive (meets.of_value_eq same)]

end Montage.Json
