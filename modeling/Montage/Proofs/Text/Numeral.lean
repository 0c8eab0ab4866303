import Mathlib.Data.List.Basic
import Montage.Text.Numeral

/-!
# What is read as a number

Digits that are not decimal, such as superscripts, count as digits but are part of no number. So a
text that looks like a number need not be one: of digits alone it takes decimal ones, and not too
many of them, and of digits and points at most one point.

## Main definitions

* `Text.Digits`, `Text.Decimals` — texts of digits, and of decimal digits only

## Main results

* `whole?_signed` — which texts of minus signs and digits are whole numbers
* `decimal?_isSome_iff` — which texts of digits and points are decimals
-/

namespace Montage.Text

variable {c : Char} {cs rest : List Char}

/-- Some digits, of whatever form. -/
def Digits (cs : List Char) : Prop := cs ≠ [] ∧ ∀ c ∈ cs, isDigit c = true

/-- Nothing but decimal digits. -/
def Decimals (cs : List Char) : Prop := ∀ c ∈ cs, isDecimalDigit c = true

instance (cs : List Char) : Decidable (Decimals cs) := inferInstanceAs (Decidable (∀ c ∈ cs, _))

/-- The number that decimal digits denote. -/
def numberOf (cs : List Char) : Nat := ofDigits (cs.filterMap digitValue?)

/-! ### Digits are neither blanks nor letters

The tables of digits and of blanks do not meet, nor do they meet the capitals. -/

theorem exists_first_of_isDecimalDigit (h : isDecimalDigit c = true) :
    ∃ first ∈ digitZeros, first ≤ c.toNat ∧ c.toNat < first + 10 := by
  unfold isDecimalDigit digitValue? at h
  split at h
  · split at h
    · next digit =>
      unfold Char.isDigit at digit
      rw [Bool.and_eq_true, decide_eq_true_iff, decide_eq_true_iff] at digit
      exact ⟨0x30, by decide, digit.1, Nat.lt_succ_of_le digit.2⟩
    · cases h
  · rw [Option.isSome_map] at h
    obtain ⟨first, found⟩ := Option.isSome_iff_exists.mp h
    have inside := List.find?_some found
    rw [Bool.and_eq_true, decide_eq_true_iff, decide_eq_true_iff] at inside
    exact ⟨first, List.mem_of_find?_eq_some found, inside.1, inside.2⟩

/-- Every digit is in one of the ranges of the tables. -/
theorem exists_range_of_isDigit (h : isDigit c = true) :
    ∃ range ∈ digitZeros.map (fun first => (first, first + 9)) ++ digitForms,
      range.1 ≤ c.toNat ∧ c.toNat ≤ range.2 := by
  unfold isDigit at h
  rw [Bool.or_eq_true] at h
  obtain decimal | other := h
  · obtain ⟨first, known, low, high⟩ := exists_first_of_isDecimalDigit decimal
    exact ⟨(first, first + 9), List.mem_append_left _ (List.mem_map_of_mem known), low,
      Nat.le_of_lt_succ high⟩
  · obtain ⟨range, known, inside⟩ := List.any_eq_true.mp other
    rw [Bool.and_eq_true, decide_eq_true_iff, decide_eq_true_iff] at inside
    exact ⟨range, List.mem_append_right _ known, inside⟩

theorem isBlank_of_isDigit (h : isDigit c = true) : isBlank c = false := by
  obtain ⟨digits, known, low, high⟩ := exists_range_of_isDigit h
  have apart : ∀ digits ∈ digitZeros.map (fun first => (first, first + 9)) ++ digitForms,
      ∀ blank ∈ blanks, digits.2 < blank.1 ∨ blank.2 < digits.1 := by decide +kernel
  refine Bool.eq_false_iff.mpr fun blank => ?_
  obtain ⟨blank, isBlank, inside⟩ := List.any_eq_true.mp blank
  rw [Bool.and_eq_true, decide_eq_true_iff, decide_eq_true_iff] at inside
  have := apart digits known blank isBlank
  omega

theorem toLower_of_isDecimalDigit (h : isDecimalDigit c = true) : c.toLower = c := by
  obtain ⟨first, known, low, high⟩ := exists_first_of_isDecimalDigit h
  have apart : ∀ first ∈ digitZeros, first + 9 < 'A'.toNat ∨ 'Z'.toNat < first := by decide +kernel
  have small := apart first known
  refine dif_neg fun capital => ?_
  have bounds : 'A'.toNat ≤ c.toNat ∧ c.toNat ≤ 'Z'.toNat := capital
  omega

theorem ne_of_isDigit {d : Char} (h : isDigit c = true) (other : isDigit d = false) : c ≠ d := by
  intro same
  rw [same, other] at h
  cases h

theorem isDigit_of_isDecimalDigit (h : isDecimalDigit c = true) : isDigit c = true := by
  unfold isDigit
  rw [h, Bool.true_or]

theorem digitValue?_of_not (h : isDecimalDigit c = false) : digitValue? c = none :=
  Option.not_isSome_iff_eq_none.mp (Bool.eq_false_iff.mp h)

/-! ### Signs, digits and points as they stand -/

theorem dropWhile_of_forall {p : Char → Bool} (h : ∀ c ∈ cs, p c = false) : cs.dropWhile p = cs := by
  cases cs with
  | nil => rfl
  | cons c cs => exact List.dropWhile_cons_of_neg (Bool.eq_false_iff.mp (h c List.mem_cons_self))

/-- A text without blanks is not shortened. -/
theorem stripNumber_of_forall (h : ∀ c ∈ cs, isBlank c = false) : stripNumber cs = cs := by
  have notBlank : ∀ c ∈ cs, isNumberBlank c = false := fun c inside => by
    rw [isNumberBlank, h c inside, Bool.false_and]
  rw [stripNumber, dropWhile_of_forall notBlank, dropEndWhile,
    dropWhile_of_forall fun c inside => notBlank c (List.mem_reverse.mp inside), List.reverse_reverse]

/-- Digits are taken up to the first character that is none. -/
theorem takeDigits_append (decimals : Decimals cs)
    (ends : ∀ c ∈ rest.head?, isDecimalDigit c = false ∧ c ≠ '_') :
    takeDigits (cs ++ rest) = (cs.filterMap digitValue?, rest) := by
  induction cs with
  | nil =>
    cases rest with
    | nil => rfl
    | cons c rest =>
      have stops := digitValue?_of_not (ends c rfl).1
      unfold takeDigits
      simp only [List.nil_append, stops, List.filterMap_nil]
  | cons c cs ih =>
    obtain ⟨d, value⟩ := Option.isSome_iff_exists.mp (decimals c List.mem_cons_self)
    have others := ih fun e inside => decimals e (List.mem_cons_of_mem _ inside)
    unfold takeDigits
    simp only [List.filterMap_cons_some value, List.cons_append, value]
    -- What follows is no underscore: it is a digit, or `rest`.
    split
    · next e behind shape =>
      have head : (cs ++ rest).head? = some '_' := by rw [shape]; rfl
      cases cs with
      | nil => exact absurd rfl (ends '_' head).2
      | cons e' cs =>
        obtain rfl := Option.some.inj head
        exact absurd (decimals '_' (List.mem_cons_of_mem _ List.mem_cons_self)) (by decide)
    · rw [others]

theorem length_filterMap_digitValue? (decimals : Decimals cs) :
    (cs.filterMap digitValue?).length = cs.length := by
  rw [List.length_filterMap_eq_countP]
  exact List.countP_eq_length.mpr decimals

/-- Decimal digits, and what stands behind the last one in front. -/
theorem exists_split (cs : List Char) : ∃ front back, cs = front ++ back ∧ Decimals front ∧
    ∀ c ∈ back.head?, isDecimalDigit c = false := by
  refine ⟨cs.takeWhile isDecimalDigit, cs.dropWhile isDecimalDigit,
    List.takeWhile_append_dropWhile.symm,
    fun c inside => List.all_eq_true.mp List.all_takeWhile c inside, fun c inside => ?_⟩
  have stops := List.head?_dropWhile_not isDecimalDigit cs
  rw [Option.mem_def.mp inside] at stops
  exact Bool.eq_false_iff.mpr (by simpa using stops)

theorem takeSign_of_ne (h : ∀ c ∈ cs.head?, c ≠ '-' ∧ c ≠ '+') : takeSign cs = (false, cs) := by
  unfold takeSign
  split
  · exact absurd rfl (h '-' rfl).1
  · exact absurd rfl (h '+' rfl).2
  · rfl

/-- Digits are taken to their end if they are decimal, else up to the first that is not. -/
theorem takeDigits_of_digits (digits : Digits cs) :
    Decimals cs ∧ takeDigits cs = (cs.filterMap digitValue?, []) ∨
      ¬ Decimals cs ∧ ∃ ds c rest, takeDigits cs = (ds, c :: rest) := by
  obtain ⟨front, back, rfl, decimals, stops⟩ := exists_split cs
  have taken : takeDigits (front ++ back) = (front.filterMap digitValue?, back) :=
    takeDigits_append decimals fun c inside => ⟨stops c inside, ne_of_isDigit
      (digits.2 c (List.mem_append_right _ (List.mem_of_mem_head? inside))) (by decide)⟩
  cases back with
  | nil =>
    rw [List.append_nil] at taken ⊢
    exact .inl ⟨decimals, taken⟩
  | cons c back =>
    refine .inr ⟨fun all => ?_, _, c, back, taken⟩
    have := stops c rfl
    rw [all c (List.mem_append_right _ List.mem_cons_self)] at this
    cases this

/-! ### Whole numbers -/

/-- A text of minus signs and digits is a whole number if it has at most one sign and its digits are
decimal and not too many. -/
theorem whole?_signed (signs : Nat) (digits : Digits cs) :
    whole? (String.ofList (List.replicate signs '-' ++ cs)) =
      if signs ≤ 1 ∧ Decimals cs ∧ cs.length ≤ maxWholeDigits then
        some (if signs = 1 then -(numberOf cs : Int) else numberOf cs)
      else none := by
  have notBlank : ∀ c ∈ List.replicate signs '-' ++ cs, isBlank c = false := fun c inside => by
    obtain sign | digit := List.mem_append.mp inside
    · rw [List.eq_of_mem_replicate sign]
      decide
    · exact isBlank_of_isDigit (digits.2 c digit)
  have unsigned : ∀ c ∈ cs.head?, c ≠ '-' ∧ c ≠ '+' := fun c inside =>
    ⟨ne_of_isDigit (digits.2 c (List.mem_of_mem_head? inside)) (by decide),
      ne_of_isDigit (digits.2 c (List.mem_of_mem_head? inside)) (by decide)⟩
  have sign : takeSign (List.replicate signs '-' ++ cs) =
      (decide (0 < signs), List.replicate (signs - 1) '-' ++ cs) := by
    cases signs with
    | zero => exact takeSign_of_ne unsigned
    | succ signs => rfl
  unfold whole?
  rw [String.toList_ofList, stripNumber_of_forall notBlank, sign]
  dsimp only
  by_cases few : signs ≤ 1
  · have none : signs - 1 = 0 := Nat.sub_eq_zero_of_le few
    rw [none, List.replicate_zero, List.nil_append]
    obtain ⟨decimals, taken⟩ | ⟨other, ds, c, rest, taken⟩ := takeDigits_of_digits digits
    · have count := length_filterMap_digitValue? decimals
      have some : (cs.filterMap digitValue?).isEmpty = false := by
        rw [List.isEmpty_eq_false_iff, ← List.length_pos_iff, count]
        exact List.length_pos_iff.mpr digits.1
      have negative : decide (0 < signs) = decide (signs = 1) := decide_eq_decide.mpr (by omega)
      simp only [taken, some, count, negative, numberOf, Bool.false_or, decide_eq_true_eq, few,
        decimals, true_and]
      by_cases bounded : cs.length ≤ maxWholeDigits
      · rw [if_neg (Nat.not_lt.mpr bounded), if_pos bounded]
      · rw [if_pos (Nat.not_le.mp bounded), if_neg bounded]
    · rw [taken, if_neg fun h => other h.2.1]
  · -- The second sign is no digit.
    obtain ⟨more, rfl⟩ : ∃ more, signs = more + 2 := ⟨signs - 2, by omega⟩
    rw [if_neg fun h => few h.1]
    rfl

/-! ### Decimals -/

theorem Decimals.count_point (decimals : Decimals cs) : cs.count '.' = 0 :=
  List.count_eq_zero.mpr fun inside => absurd (decimals '.' inside) (by decide)

/-- Digits and points, without the points behind the first. -/
theorem exists_split_at_point (pointed : ∀ c ∈ cs, c = '.' ∨ isDecimalDigit c = true) :
    ∃ front back, cs = front ++ back ∧ Decimals front ∧ (back = [] ∨ ∃ rest, back = '.' :: rest) := by
  obtain ⟨front, back, rfl, decimals, stops⟩ := exists_split cs
  refine ⟨front, back, rfl, decimals, ?_⟩
  cases back with
  | nil => exact .inl rfl
  | cons c back =>
    obtain rfl | digit := pointed c (List.mem_append_right _ List.mem_cons_self)
    · exact .inr ⟨back, rfl⟩
    · rw [stops c rfl] at digit
      cases digit

theorem takeDigits_of_point {back : List Char} (decimals : Decimals cs)
    (point : back = [] ∨ ∃ rest, back = '.' :: rest) :
    takeDigits (cs ++ back) = (cs.filterMap digitValue?, back) := by
  refine takeDigits_append decimals fun c inside => ?_
  obtain rfl | ⟨rest, rfl⟩ := point
  · cases inside
  · obtain rfl := Option.some.inj inside
    exact ⟨by decide, by decide⟩

theorem isEmpty_filterMap_digitValue? (decimals : Decimals cs) :
    (cs.filterMap digitValue?).isEmpty = cs.isEmpty := by
  rw [Bool.eq_iff_iff, List.isEmpty_iff_length_eq_zero, List.isEmpty_iff_length_eq_zero,
    length_filterMap_digitValue? decimals]

theorem Decimals.exists_ne_point_iff (decimals : Decimals cs) : (∃ c ∈ cs, c ≠ '.') ↔ cs ≠ [] := by
  constructor
  · rintro ⟨c, inside, -⟩
    exact List.ne_nil_of_mem inside
  · intro some
    obtain ⟨c, inside⟩ := List.exists_mem_of_ne_nil cs some
    exact ⟨c, inside, ne_of_isDigit (isDigit_of_isDecimalDigit (decimals c inside)) (by decide)⟩

theorem unsignedDecimal?_of_whole {whole : List Nat} (negative : Bool)
    (taken : takeDigits cs = (whole, [])) :
    (unsignedDecimal? negative cs).isSome = !whole.isEmpty := by
  unfold unsignedDecimal?
  simp only [taken, List.isEmpty_nil, Bool.and_true]
  cases whole.isEmpty with
  | true => rfl
  | false => rfl

/-- A decimal has a digit in front of its point or behind it, and nothing but an exponent follows. -/
theorem unsignedDecimal?_of_point {whole fraction : List Nat} {behind : List Char} (negative : Bool)
    (front : takeDigits cs = (whole, '.' :: behind)) (back : takeDigits behind = (fraction, rest)) :
    (unsignedDecimal? negative cs).isSome =
      (!(whole.isEmpty && fraction.isEmpty) && (exponent? rest).isSome) := by
  unfold unsignedDecimal?
  simp only [front, back]
  cases whole.isEmpty && fraction.isEmpty with
  | true => rfl
  | false => exact Option.isSome_map

theorem unsignedDecimal?_isSome_iff (negative : Bool)
    (pointed : ∀ c ∈ cs, c = '.' ∨ isDecimalDigit c = true) :
    (unsignedDecimal? negative cs).isSome ↔ cs.count '.' ≤ 1 ∧ ∃ c ∈ cs, c ≠ '.' := by
  obtain ⟨front, back, rfl, decimals, point⟩ := exists_split_at_point pointed
  have taken := takeDigits_of_point decimals point
  obtain rfl | ⟨back, rfl⟩ := point
  · rw [unsignedDecimal?_of_whole negative taken, isEmpty_filterMap_digitValue? decimals,
      List.append_nil, decimals.count_point, decimals.exists_ne_point_iff]
    cases front with
    | nil => decide
    | cons c front => exact iff_of_true rfl ⟨Nat.zero_le 1, List.cons_ne_nil c front⟩
  · obtain ⟨fraction, rest, rfl, decimals', point'⟩ := exists_split_at_point fun c inside =>
      pointed c (List.mem_append_right _ (List.mem_cons_of_mem _ inside))
    have digits : (∃ c ∈ front ++ '.' :: (fraction ++ rest), c ≠ '.') ↔
        front ≠ [] ∨ fraction ≠ [] ∨ ∃ c ∈ rest, c ≠ '.' := by
      rw [← decimals.exists_ne_point_iff, ← decimals'.exists_ne_point_iff]
      simp only [List.mem_append, List.mem_cons, or_and_right, exists_or, exists_eq_left,
        ne_eq, not_true_eq_false, false_or]
    rw [unsignedDecimal?_of_point negative taken (takeDigits_of_point decimals' point'), digits,
      isEmpty_filterMap_digitValue? decimals, isEmpty_filterMap_digitValue? decimals',
      List.count_append, decimals.count_point, List.count_cons_self, List.count_append,
      decimals'.count_point]
    obtain rfl | ⟨rest, rfl⟩ := point'
    · cases front <;> cases fraction <;> simp [exponent?]
    · -- A second point is no exponent.
      rw [List.count_cons_self]
      have second : exponent? ('.' :: rest) = none := rfl
      rw [second, Option.isSome_none, Bool.and_false]
      exact iff_of_false Bool.false_ne_true fun h => absurd h.1 (by omega)

/-- A text of digits and points is a decimal if it has a digit and at most one point. -/
theorem decimal?_isSome_iff (pointed : ∀ c ∈ cs, c = '.' ∨ isDecimalDigit c = true) :
    (decimal? (String.ofList cs)).isSome ↔ cs.count '.' ≤ 1 ∧ ∃ c ∈ cs, c ≠ '.' := by
  have notBlank : ∀ c ∈ cs, isBlank c = false := fun c inside => by
    obtain rfl | digit := pointed c inside
    · decide
    · exact isBlank_of_isDigit (isDigit_of_isDecimalDigit digit)
  have other : ∀ d, d ≠ '.' → isDecimalDigit d = false → ∀ c ∈ cs, c ≠ d := by
    rintro d noPoint noDigit c inside rfl
    obtain point | digit := pointed c inside
    · exact noPoint point
    · rw [noDigit] at digit
      cases digit
  have sign : takeSign cs = (false, cs) := takeSign_of_ne fun c inside =>
    ⟨other '-' (by decide) (by decide) c (List.mem_of_mem_head? inside),
      other '+' (by decide) (by decide) c (List.mem_of_mem_head? inside)⟩
  have lower : cs.map Char.toLower = cs := by
    refine (List.map_congr_left fun c inside => ?_).trans (List.map_id cs)
    obtain rfl | digit := pointed c inside
    · rfl
    · exact toLower_of_isDecimalDigit digit
  have unnamed : namedDouble? false cs = none := by
    -- The words for infinity and NaN begin with letters.
    have word {s : String} {first : Char} {rest : List Char} (spelled : s.toList = first :: rest)
        (noPoint : first ≠ '.') (noDigit : isDecimalDigit first = false) : String.ofList cs ≠ s := by
      rintro rfl
      rw [String.toList_ofList] at spelled
      have begins : first ∈ cs := by rw [spelled]; exact List.mem_cons_self
      exact other first noPoint noDigit first begins rfl
    unfold namedDouble?
    rw [lower]
    simp only [Bool.or_eq_true, decide_eq_true_eq]
    rw [if_neg (not_or.mpr ⟨word rfl (by decide) (by decide), word rfl (by decide) (by decide)⟩),
      if_neg (word rfl (by decide) (by decide))]
  unfold decimal?
  rw [String.toList_ofList, stripNumber_of_forall notBlank, sign]
  dsimp only
  rw [unnamed]
  exact unsignedDecimal?_isSome_iff false pointed

end Montage.Text
