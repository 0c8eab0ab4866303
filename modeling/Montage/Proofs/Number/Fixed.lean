import Mathlib.Data.List.DropRight
import Mathlib.Data.Nat.Digits.Defs
import Montage.Proofs.Number.Exact
import Montage.Proofs.Number.Order
import Montage.Proofs.Text.Digits

/-!
# Numbers written with at most six places

A number is written with six places, and zeros and a point are taken off its end. The point keeps the
zeros in front of it from being taken off too. So what is left denotes what all the places did, the
multiple of a millionth that is nearest to the number, and nothing is left that says nothing.

## Main definitions

* `FixedNumeral` — a sign, a whole part and the places behind a point
* `FixedNumeral.IsCanonical` — no zero, no point and no sign is there in vain
* `FixedNumeral.Spells` — a text is the canonical numeral of a number

## Main results

* `toList_fixed` — what is left of six places is the numeral of the millionths
* `FixedNumeral.Spells.unique` — a text denotes one number
* `Double.fixed_spells_nearest` — doubles are written as the nearest multiples of a millionth
-/

namespace Montage

/-- A decimal as it is written: behind a sign, a whole part and the places behind the point. -/
@[ext]
structure FixedNumeral where
  negative : Bool
  whole : List Char
  places : List Char

namespace FixedNumeral

/-- The characters of a numeral. There is no point without places. -/
def chars (d : FixedNumeral) : List Char :=
  (if d.negative then ['-'] else []) ++ d.whole ++
    if d.places = [] then [] else '.' :: d.places

/-- The number that a numeral denotes: each place counts a tenth of the one in front of it. -/
def value (d : FixedNumeral) : Rat :=
  (if d.negative then -1 else 1) *
    (Text.ofDigits (Text.digitValues d.whole) +
      Text.ofDigits (Text.digitValues d.places) / 10 ^ d.places.length)

/-- Nothing is written in vain: no zero in front of another digit, none at the end of the places,
of which there are at most six, and no sign of zero. -/
structure IsCanonical (d : FixedNumeral) : Prop where
  whole : Text.Numeric d.whole
  places : Text.Numeric d.places
  begun : d.whole ≠ []
  leading : d.whole.head? = some '0' → d.whole = ['0']
  six : d.places.length ≤ 6
  trailing : d.places.getLast? ≠ some '0'
  sign : d.negative = true → d.value ≠ 0

/-- A text is the canonical numeral of a number. -/
def Spells (text : String) (q : Rat) : Prop :=
  ∃ d : FixedNumeral, d.IsCanonical ∧ text.toList = d.chars ∧ d.value = q

variable {d e : FixedNumeral} {n : Int} {count : Nat} {negative : Bool}

/-! ### A text denotes one number -/

theorem chars_of_upright (h : d.negative = false) :
    d.chars = d.whole ++ if d.places = [] then [] else '.' :: d.places := by
  rw [chars, h, if_neg Bool.false_ne_true, List.nil_append]

theorem chars_of_negative (h : d.negative = true) :
    d.chars = '-' :: (d.whole ++ if d.places = [] then [] else '.' :: d.places) := by
  rw [chars, h, if_pos rfl, List.singleton_append, List.cons_append]

/-- The whole part ends where the digits do. -/
theorem parts_inj (hd : Text.Numeric d.whole) (he : Text.Numeric e.whole)
    (same : (d.whole ++ if d.places = [] then [] else '.' :: d.places) =
      e.whole ++ if e.places = [] then [] else '.' :: e.places) :
    d.whole = e.whole ∧ d.places = e.places := by
  have digits {c : FixedNumeral} (hc : Text.Numeric c.whole) :
      (c.whole ++ if c.places = [] then [] else '.' :: c.places).takeWhile Char.isDigit = c.whole := by
    rw [List.takeWhile_append_of_pos hc]
    split
    · exact List.append_nil _
    · exact List.append_nil _
  have whole : d.whole = e.whole := by rw [← digits hd, same, digits he]
  rw [whole] at same
  have places := List.append_cancel_left same
  refine ⟨whole, ?_⟩
  split at places
  · next none =>
    split at places
    · next none' => rw [none, none']
    · cases places
  · split at places
    · cases places
    · exact (List.cons.inj places).2

theorem chars_inj (hd : Text.Numeric d.whole) (he : Text.Numeric e.whole) (hd' : d.whole ≠ [])
    (he' : e.whole ≠ []) (same : d.chars = e.chars) : d = e := by
  -- A sign is no digit, so that a numeral with a sign does not begin as one without.
  have unsigned {c : FixedNumeral} (hc : Text.Numeric c.whole) (some : c.whole ≠ [])
      (upright : c.negative = false) (rest : List Char) : c.chars ≠ '-' :: rest := by
    intro sign
    obtain ⟨first, digits, cut⟩ := List.exists_cons_of_ne_nil some
    rw [chars_of_upright upright, cut, List.cons_append] at sign
    have digit := hc first (cut ▸ List.mem_cons_self)
    rw [(List.cons.inj sign).1] at digit
    exact absurd digit (by decide)
  cases hs : d.negative with
  | false =>
    cases hs' : e.negative with
    | false =>
      rw [chars_of_upright hs, chars_of_upright hs'] at same
      obtain ⟨whole, places⟩ := parts_inj hd he same
      exact FixedNumeral.ext (hs.trans hs'.symm) whole places
    | true => exact absurd (same.trans (chars_of_negative hs')) (unsigned hd hd' hs _)
  | true =>
    cases hs' : e.negative with
    | false => exact absurd (same.symm.trans (chars_of_negative hs)) (unsigned he he' hs' _)
    | true =>
      rw [chars_of_negative hs, chars_of_negative hs'] at same
      obtain ⟨whole, places⟩ := parts_inj hd he (List.cons.inj same).2
      exact FixedNumeral.ext (hs.trans hs'.symm) whole places

theorem Spells.unique {text : String} {p q : Rat} (hp : Spells text p) (hq : Spells text q) :
    p = q := by
  obtain ⟨d, canonical, written, rfl⟩ := hp
  obtain ⟨e, canonical', written', rfl⟩ := hq
  rw [chars_inj canonical.whole canonical'.whole canonical.begun canonical'.begun
    (written.symm.trans written')]

/-! ### The numeral of some millionths -/

/-- The numeral of `count / 10 ^ 6` behind a sign. -/
def ofCount (negative : Bool) (count : Nat) : FixedNumeral where
  negative
  whole := Nat.toDigits 10 (count / million)
  places := (padSix (count % million)).rdropWhile (· == '0')

/-- The numeral of `n / 10 ^ 6`. -/
def ofMillionths (n : Int) : FixedNumeral := ofCount (n < 0) n.natAbs

theorem whole_ofCount (negative : Bool) (count : Nat) :
    (ofCount negative count).whole = Nat.toDigits 10 (count / million) := by
  rw [ofCount]

theorem places_ofCount (negative : Bool) (count : Nat) :
    (ofCount negative count).places = (padSix (count % million)).rdropWhile (· == '0') := by
  rw [ofCount]

theorem padSix_eq (n : Nat) : padSix n = Text.paddedDigits 6 n := by
  rw [padSix, Text.paddedDigits, Text.toList_toString]

theorem numeric_padSix (n : Nat) : Text.Numeric (padSix n) :=
  padSix_eq n ▸ Text.numeric_paddedDigits 6 n

theorem length_padSix (h : count < million) : (padSix count).length = 6 := by
  have few : (Nat.toDigits 10 count).length ≤ 6 := Nat.toDigits_length 10 count 6 (by decide) h
  rw [padSix_eq, Text.paddedDigits, List.length_append, List.length_replicate]
  omega

theorem numeric_places (negative : Bool) (count : Nat) :
    Text.Numeric (ofCount negative count).places := by
  rw [places_ofCount]
  exact (numeric_padSix _).sublist (List.rdropWhile_prefix _ _).subset

theorem exists_zeros (cs : List Char) :
    ∃ zeros, cs.rdropWhile (· == '0') ++ List.replicate zeros '0' = cs := by
  have all : cs.rtakeWhile (· == '0') = List.replicate (cs.rtakeWhile (· == '0')).length '0' :=
    List.eq_replicate_iff.mpr ⟨rfl, fun c hc => by simpa using List.mem_rtakeWhile_imp hc⟩
  exact ⟨_, all ▸ List.rdropWhile_append_rtakeWhile⟩

/-- The zeros that were taken off are factors of ten. -/
theorem places_scaled (negative : Bool) (count : Nat) :
    ∃ zeros, (ofCount negative count).places.length + zeros = 6 ∧
      Text.ofDigits (Text.digitValues (ofCount negative count).places) * 10 ^ zeros =
        count % million := by
  have six := length_padSix (Nat.mod_lt count (show 0 < million by decide))
  obtain ⟨zeros, cut⟩ := exists_zeros (padSix (count % million))
  rw [← places_ofCount negative] at cut
  refine ⟨zeros, ?_, ?_⟩
  · rw [← six, ← cut, List.length_append, List.length_replicate]
  · rw [← Text.ofDigits_append_zeros, cut, padSix_eq, Text.ofDigits_paddedDigits]

theorem value_ofCount (negative : Bool) (count : Nat) :
    (ofCount negative count).value = (if negative then -1 else 1) * (count / 10 ^ 6) := by
  obtain ⟨zeros, six, scaled⟩ := places_scaled negative count
  have places : (Text.ofDigits (Text.digitValues (ofCount negative count).places) : Rat) /
      10 ^ (ofCount negative count).places.length = (count % million : Nat) / 10 ^ 6 := by
    rw [← scaled, ← six, pow_add, Nat.cast_mul, Nat.cast_pow, Nat.cast_ofNat,
      mul_div_mul_right _ _ (by positivity)]
  have parts : ((count / million : Nat) : Rat) + (count % million : Nat) / 10 ^ 6 =
      count / 10 ^ 6 := by
    have sum : ((million * (count / million) + count % million : Nat) : Rat) = count := by
      rw [Nat.div_add_mod]
    rw [← sum, Nat.cast_add, Nat.cast_mul, show ((million : Nat) : Rat) = 10 ^ 6 by norm_num [million]]
    field_simp
  have whole : Text.ofDigits (Text.digitValues (ofCount negative count).whole) = count / million := by
    rw [whole_ofCount, Text.ofDigits_toDigits]
  rw [value, places, whole, parts, ofCount]

theorem value_ofMillionths (n : Int) : (ofMillionths n).value = (n : Rat) / 10 ^ 6 := by
  rw [ofMillionths, value_ofCount, Nat.cast_natAbs]
  by_cases negative : n < 0
  · rw [if_pos (decide_eq_true negative), abs_of_neg negative, Int.cast_neg]
    ring
  · rw [if_neg (by simpa using negative), abs_of_nonneg (not_lt.mp negative), one_mul]

theorem isCanonical_ofMillionths (n : Int) : (ofMillionths n).IsCanonical where
  whole := by
    rw [ofMillionths, whole_ofCount]
    exact Text.numeric_toDigits _
  places := numeric_places _ _
  begun := by
    rw [ofMillionths, whole_ofCount]
    exact Nat.toDigits_ne_nil
  leading zero := by
    rw [ofMillionths, whole_ofCount] at zero ⊢
    rcases Nat.eq_zero_or_pos (n.natAbs / million) with none | positive
    · rw [none, Nat.toDigits_zero]
    · obtain ⟨c, ds, digits, first⟩ := Text.toDigits_eq_cons positive
      rw [digits] at zero
      exact absurd (Option.some.inj zero) first
  six := by
    obtain ⟨zeros, six, -⟩ := places_scaled (n < 0) n.natAbs
    exact Nat.le_of_add_right_le six.le
  trailing last := by
    rw [ofMillionths, places_ofCount] at last
    obtain ⟨some, zero⟩ := List.mem_getLast?_eq_getLast last
    exact List.rdropWhile_last_not _ _ some (beq_iff_eq.mpr zero.symm)
  sign negative := by
    have below : n < 0 := of_decide_eq_true negative
    rw [value_ofMillionths]
    exact div_ne_zero (Int.cast_ne_zero.mpr below.ne) (by positivity)

/-! ### What is taken off the end -/

/-- What stands in front of something that stays is not looked at. -/
theorem rdropWhile_append_cons {test : Char → Bool} {c : Char} (stays : ¬ test c = true)
    (front back : List Char) :
    (front ++ c :: back).rdropWhile test = front ++ c :: back.rdropWhile test := by
  -- Characters are taken off the end, so what stands behind is built up from its front.
  induction back using List.reverseRecOn with
  | nil => exact List.rdropWhile_concat_neg _ _ _ stays
  | append_singleton back last ih =>
    have cut : front ++ c :: (back ++ [last]) = (front ++ c :: back) ++ [last] := by simp
    rw [cut]
    by_cases taken : test last = true
    · rw [List.rdropWhile_concat_pos _ _ _ taken, List.rdropWhile_concat_pos _ _ _ taken, ih]
    · rw [List.rdropWhile_concat_neg _ _ _ taken, List.rdropWhile_concat_neg _ _ _ taken, cut]

theorem rdropWhile_point {digits : List Char} (numeric : Text.Numeric digits) (some : digits ≠ [])
    (front : List Char) : (front ++ digits).rdropWhile (· == '.') = front ++ digits := by
  rw [List.rdropWhile_eq_self_iff]
  intro _ point
  rw [List.getLast_append_of_ne_nil _ some] at point
  have digit := numeric _ (List.getLast_mem some)
  rw [beq_iff_eq.mp point] at digit
  exact absurd digit (by decide)

/-- Of the places the zeros at their end are taken off, and the point if nothing else is behind it. -/
theorem trimPlaces_point (front : List Char) {digits places : List Char} (whole : Text.Numeric digits)
    (begun : digits ≠ []) (numeric : Text.Numeric places) :
    trimPlaces (front ++ digits ++ '.' :: places) = front ++ digits ++
      if places.rdropWhile (· == '0') = [] then [] else '.' :: places.rdropWhile (· == '0') := by
  change (List.rdropWhile _ (front ++ digits ++ '.' :: places)).rdropWhile _ = _
  -- The point is no zero, so that the zeros end at it.
  rw [rdropWhile_append_cons (by decide)]
  split
  · next none =>
    rw [none, List.rdropWhile_concat_pos _ _ _ (by decide), List.append_nil]
    exact rdropWhile_point whole begun front
  · next some =>
    rw [List.append_cons]
    exact rdropWhile_point (numeric.sublist (List.rdropWhile_prefix _ _).subset) some _

theorem trimPlaces_sixPlaces (negative : Bool) (count : Nat) :
    trimPlaces (sixPlaces negative count) = (ofCount negative count).chars := by
  rw [sixPlaces, Text.toList_toString, trimPlaces_point _ (Text.numeric_toDigits _)
    Nat.toDigits_ne_nil (numeric_padSix _), chars, whole_ofCount, places_ofCount, ofCount]

theorem IsCanonical.chars_ne_nil (h : d.IsCanonical) : d.chars ≠ [] :=
  List.append_ne_nil_of_left_ne_nil (List.append_ne_nil_of_right_ne_nil _ h.begun) _

/-- Zero has no sign. -/
theorem IsCanonical.chars_ne_zero (h : d.IsCanonical) : d.chars ≠ ['-', '0'] := by
  intro same
  have zero : d = ⟨true, ['0'], []⟩ := chars_inj h.whole (Text.numeric_zeros 1) h.begun (by decide) same
  refine h.sign (zero ▸ rfl) ?_
  rw [zero]
  norm_num [value, Text.digitValues, Text.ofDigits]

/-- Zero is written without a sign, and any other number of millionths with its own. -/
theorem toList_fixedText (sign : n ≠ 0 → negative = decide (n < 0)) :
    (fixedText negative n.natAbs).toList = (ofMillionths n).chars := by
  by_cases zero : n = 0
  · subst zero
    cases negative <;> decide
  · have trimmed : trimPlaces (sixPlaces negative n.natAbs) = (ofMillionths n).chars := by
      rw [trimPlaces_sixPlaces, sign zero, ofMillionths]
    have canonical := isCanonical_ofMillionths n
    rw [fixedText, trimmed]
    simp only [canonical.chars_ne_zero, canonical.chars_ne_nil, decide_false, Bool.or_self,
      Bool.false_eq_true, if_false, String.toList_ofList]

theorem spells_ofMillionths {text : String} (h : text.toList = (ofMillionths n).chars) :
    Spells text ((n : Rat) / 10 ^ 6) :=
  ⟨ofMillionths n, isCanonical_ofMillionths n, h, value_ofMillionths n⟩

end FixedNumeral

/-! ### Numbers as they are written -/

section Written

variable {τ : Type} [Scalar τ] {x : τ} {p q : Rat}

theorem isNearest_millionths (q : Rat) : IsNearest (millionths q) (q * 10 ^ 6) := by
  rw [millionths_eq]
  exact isNearest_roundHalfEven _

theorem neg_iff_millionths_neg (some : millionths q ≠ 0) : q < 0 ↔ millionths q < 0 := by
  -- Rounding keeps the order of a number and zero, though it may make them equal.
  have zero : IsNearest 0 0 := roundHalfEven_intCast 0 ▸ isNearest_roundHalfEven 0
  constructor
  · intro below
    have := (isNearest_millionths q).mono zero (by linarith)
    omega
  · intro below
    by_contra above
    have := zero.mono (isNearest_millionths q) (by linarith)
    omega

/-- What is left of six places is the numeral of the millionths. -/
theorem toList_fixed (h : Scalar.value x = .ok q) :
    (Scalar.fixed x).toList = (FixedNumeral.ofMillionths (millionths q)).chars := by
  rw [Scalar.fixed, h]
  exact FixedNumeral.toList_fixedText fun some => decide_eq_decide.mpr (neg_iff_millionths_neg some)

theorem spells_fixed (h : Scalar.value x = .ok q) :
    FixedNumeral.Spells (Scalar.fixed x) ((millionths q : Rat) / 10 ^ 6) :=
  FixedNumeral.spells_ofMillionths (toList_fixed h)

/-- A number is written as the nearest number of six places is. -/
theorem fixed_roundSixPlaces (x : Rat) :
    Scalar.fixed (Scalar.roundSixPlaces x) = Scalar.fixed x := by
  have rounded := toList_fixed (x := Scalar.roundSixPlaces x) rfl
  rw [millionths_roundSixPlaces, ← toList_fixed (x := x) rfl] at rounded
  exact String.toList_inj.mp rounded

end Written

namespace Double

variable {x y : Double} {p q : Rat} {m n : Int}

theorem exists_value (finite : x.isFinite = true) : ∃ q, x.value = .ok q := by
  cases x with
  | nan => cases finite
  | infinite negative => cases finite
  | finite negative units fits => exact ⟨_, rfl⟩

/-- Finite doubles are ordered as the numbers that they stand for. -/
theorem value_le_value (hp : x.value = .ok p) (hq : y.value = .ok q) (h : x ≤ y) : p ≤ q := by
  have place {z : Double} {a : Int} {r : Rat} (placed : z.position? = some a) (exact : z.value = .ok r) :
      r = a / one := by
    cases z with
    | nan => cases exact
    | infinite negative => cases exact
    | finite negative units fits =>
      obtain rfl := Option.some.inj placed
      rw [← Except.ok.inj exact, Rat.mkRat_eq_div]
  obtain ⟨a, b, ha, hb, le⟩ := le_iff.mp h
  rw [place ha hp, place hb hq]
  exact div_le_div_of_nonneg_right (by exact_mod_cast le) (Nat.cast_nonneg _)

/-- The multiple of a millionth that is nearest to a finite number, counted in millionths. Of two that
are as near it is the even one. -/
def RoundsTo (x : Double) (n : Int) : Prop := ∃ q, x.value = .ok q ∧ IsNearest n (q * 10 ^ 6)

/-- Finite doubles are written as the canonical numerals of the nearest multiples of a millionth. So what
is written for them is in their order, and alike if and only if they are rounded alike. -/
theorem fixed_spells_nearest (hx : x.isFinite = true) (hy : y.isFinite = true) :
    ∃ m n : Int, x.RoundsTo m ∧ y.RoundsTo n ∧
      FixedNumeral.Spells (Scalar.fixed x) (m / 10 ^ 6) ∧
      FixedNumeral.Spells (Scalar.fixed y) (n / 10 ^ 6) ∧
      (x ≤ y → (m / 10 ^ 6 : Rat) ≤ n / 10 ^ 6) ∧ (Scalar.fixed x = Scalar.fixed y ↔ m = n) := by
  obtain ⟨p, hp⟩ := exists_value hx
  obtain ⟨q, hq⟩ := exists_value hy
  have spelled := spells_fixed (x := x) hp
  have spelled' := spells_fixed (x := y) hq
  refine ⟨millionths p, millionths q, ⟨p, hp, isNearest_millionths p⟩, ⟨q, hq, isNearest_millionths q⟩,
    spelled, spelled', fun le => ?_, fun same => ?_, fun same => ?_⟩
  · have ordered := (isNearest_millionths p).mono (isNearest_millionths q)
      (mul_le_mul_of_nonneg_right (value_le_value hp hq le) (by norm_num))
    exact div_le_div_of_nonneg_right (by exact_mod_cast ordered) (by norm_num)
  · have alike := spelled.unique (same ▸ spelled')
    exact_mod_cast (div_left_inj' (by norm_num)).mp alike
  · have texts := toList_fixed (x := x) hp
    rw [same, ← toList_fixed (x := y) hq] at texts
    exact String.toList_inj.mp texts

/-- Half a millionth goes to the even neighbour, and what is rounded to zero has no sign. -/
theorem tie_is_written_even : ∃ x y : Double, x = ofRatio true 1 128 ∧ y = ofRatio true 1 10000000 ∧
    x.isFinite = true ∧ y.isFinite = true ∧
    Scalar.fixed x = "-0.007812" ∧ Scalar.fixed y = "0" ∧
    ∃ m n : Int, x.RoundsTo m ∧ y.RoundsTo n ∧
      FixedNumeral.Spells (Scalar.fixed x) (m / 10 ^ 6) ∧
      FixedNumeral.Spells (Scalar.fixed y) (n / 10 ^ 6) ∧
      (x ≤ y → (m / 10 ^ 6 : Rat) ≤ n / 10 ^ 6) ∧ (Scalar.fixed x = Scalar.fixed y ↔ m = n) := by
  have hx : (ofRatio true 1 128).isFinite = true := by decide +kernel
  have hy : (ofRatio true 1 10000000).isFinite = true := by decide +kernel
  exact ⟨_, _, rfl, rfl, hx, hy, by decide +kernel, by decide +kernel, fixed_spells_nearest hx hy⟩

end Double

end Montage
