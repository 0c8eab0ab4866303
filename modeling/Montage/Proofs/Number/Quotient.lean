import Montage.Proofs.Number.Exact
import Montage.Proofs.Number.Order

/-!
# Quotients rounded down

A quotient is rounded down in steps: the remainder is taken off, what is left is divided, and the
outcome is moved to the nearest whole number. The remainder is exact, and below `2 ^ 51` the other
steps are so close to the whole number that together they make no error: the outcome is the exact
quotient, rounded down.

## Main results

* `significantBits_mod` — the remainder of two doubles is a double
* `four_mul_roundBits_mul` — a multiple of a double is rounded by at most a quarter of the double
* `Double.floorDiv_finite` — the quotient rounded down is the exact one
-/

namespace Montage

/-! ### Rounding near a multiple -/

theorem roundDiv_mul_right (num den : Nat) {c : Nat} (hc : 0 < c) :
    roundDiv (num * c) (den * c) = roundDiv num den := by
  have twice : 2 * (num * c % (den * c)) = 2 * (num % den) * c := by
    rw [Nat.mul_mod_mul_right]
    ring
  unfold roundDiv
  simp only [twice, Nat.mul_div_mul_right _ _ hc, Nat.mul_lt_mul_right hc, Nat.mul_left_inj hc.ne']

/-- Rounding depends on the quotient only. -/
theorem roundBits_mul_right (num den : Nat) {c : Nat} (hc : 0 < c) :
    roundBits (num * c) (den * c) = roundBits num den := by
  have places : bitSpacing (num * c) (den * c) = bitSpacing num den := by
    rw [bitSpacing, bitSpacing, Nat.mul_div_mul_right _ _ hc]
  rw [roundBits, roundBits, places, Nat.mul_right_comm den c, roundDiv_mul_right _ _ hc]

theorem roundBits_zero (den : Nat) : roundBits 0 den = 0 := by
  have nothing (d : Nat) : roundDiv 0 d = 0 := by
    unfold roundDiv
    rw [Nat.zero_mod, Nat.zero_div]
    exact if_pos (by omega)
  rw [roundBits, nothing, Nat.zero_mul]

/-- A whole number is at most half a spacing away from what it is rounded to. -/
theorem two_mul_roundBits (n : Nat) :
    2 * roundBits n 1 ≤ 2 * n + bitSpacing n 1 ∧ 2 * n ≤ 2 * roundBits n 1 + bitSpacing n 1 := by
  have near := two_mul_roundDiv n (bitSpacing_pos n 1)
  rwa [roundBits, Nat.one_mul]

/-- A number is rounded by at most a quarter of what it is a multiple of. -/
theorem four_mul_roundBits_mul {k : Nat} (units : Nat) (few : k < 2 ^ 51) :
    4 * roundBits (k * units) 1 ≤ (4 * k + 1) * units ∧
    4 * k * units ≤ 4 * roundBits (k * units) 1 + units := by
  have split : (4 * k + 1) * units = 4 * (k * units) + units := by ring
  rw [split, Nat.mul_assoc]
  by_cases dense : (k * units).log2 ≤ 52
  · have whole : SignificantBits (k * units) := by
      rw [SignificantBits, Nat.sub_eq_zero_of_le dense]
      exact Nat.one_dvd _
    rw [roundBits_self whole]
    omega
  · obtain ⟨low, high⟩ := two_mul_roundBits (k * units)
    have some : k * units ≠ 0 := by
      intro zero
      simp [zero] at dense
    have spacing : bitSpacing (k * units) 1 * 2 ^ 52 = 2 ^ (k * units).log2 := by
      rw [bitSpacing, Nat.div_one, Nat.pow_eq, ← Nat.pow_add, Nat.sub_add_cancel (by omega)]
    have less : bitSpacing (k * units) 1 * 2 ^ 52 ≤ 2 ^ 51 * units := by
      rw [spacing]
      exact (Nat.log2_self_le some).trans (Nat.mul_le_mul_right _ few.le)
    omega

/-- The remainder of two doubles is a double. -/
theorem significantBits_mod {m n : Nat} (bits : SignificantBits m) (bits' : SignificantBits n) :
    SignificantBits (m % n) := by
  rcases Nat.lt_or_ge m n with less | above
  · rwa [Nat.mod_eq_of_lt less]
  rcases Nat.eq_zero_or_pos n with rfl | positive
  · rwa [Nat.mod_zero]
  have some : n ≠ 0 := positive.ne'
  -- The two are multiples of the spacing at the smaller one.
  have common : 2 ^ (n.log2 - 52) ∣ m % n := by
    have logs : n.log2 ≤ m.log2 :=
      (Nat.le_log2 (by omega)).mpr ((Nat.log2_self_le some).trans above)
    exact (Nat.dvd_mod_iff bits').mpr ((Nat.pow_dvd_pow 2 (by omega)).trans bits)
  have less : (m % n).log2 ≤ n.log2 := by
    by_cases zero : m % n = 0
    · simp [zero]
    · exact (Nat.le_log2 some).mpr ((Nat.log2_self_le zero).trans (Nat.mod_lt m positive).le)
  exact (Nat.pow_dvd_pow 2 (by omega)).trans common

namespace Double

variable {count units k : Nat}

/-! ### Whole numbers -/

theorem mul_one_le_limit : 2 ^ 53 * one ≤ limit := by
  have exponents : 53 + 1074 ≤ 2098 := by decide
  unfold limit one
  revert exponents
  generalize 1074 = n
  generalize 2098 = m
  intro exponents
  exact (Nat.pow_add 2 53 n).symm.trans_le (Nat.pow_le_pow_right (by decide) exponents)

theorem fits_whole (few : k < 2 ^ 53) : Fits (k * one) := by
  have bits : SignificantBits (k * one) := by
    unfold one
    generalize 1074 = n
    exact significantBits_mul_two_pow few.le
  exact ⟨bits, (Nat.mul_lt_mul_of_pos_right few one_pos).trans_le mul_one_le_limit⟩

theorem nearest_of_fits (negative : Bool) (fits : Fits units) :
    nearest negative units 1 = finite negative units fits := by
  have same := roundBits_self fits.bits
  have bounded : roundBits units 1 < limit := same.symm ▸ fits.bounded
  rw [nearest, dif_pos bounded]
  simp only [same]

theorem ofRatio_whole (negative : Bool) (few : k < 2 ^ 53) :
    ofRatio negative k 1 = finite negative (k * one) (fits_whole few) :=
  nearest_of_fits negative (fits_whole few)

theorem floor_finite (fits : Fits count) (place : count / one = k) (few : k < 2 ^ 53) :
    (finite false count fits).floor = finite false (k * one) (fits_whole few) := by
  have whole : (signed false count).fdiv one = k := by
    rw [signed, if_neg Bool.false_ne_true, Int.fdiv_eq_ediv_of_nonneg _ (Int.natCast_nonneg _)]
    exact_mod_cast place
  unfold floor
  dsimp only
  rw [whole]
  split
  · next zero => simp only [signedZero, Int.natCast_eq_zero.mp zero, Nat.zero_mul]
  · split
    · next exact =>
      obtain rfl : k * one = count := place ▸ Nat.div_mul_cancel (Nat.dvd_of_mod_eq_zero exact)
      rfl
    · have upright : ¬ (k : Int) < 0 := Int.not_lt.mpr (Int.natCast_nonneg _)
      rw [decide_eq_false upright, Int.natAbs_natCast, ofRatio_whole false few]

/-! ### The steps of the division -/

variable {negative : Bool}

theorem remainder_finite (negative : Bool) (fits : Fits count) (fits' : Fits units) (positive : 0 < units) :
    (finite negative count fits).remainder (finite false units fits') =
      finite negative (count % units)
        ⟨significantBits_mod fits.bits fits'.bits, (Nat.mod_le _ _).trans_lt fits.bounded⟩ := by
  unfold remainder
  dsimp only
  rw [if_neg positive.ne', nearest_of_fits]

theorem fits_roundBits_div_mul (fits : Fits count) : Fits (roundBits (count / units * units) 1) := by
  refine ⟨significantBits_roundBits _ _, lt_of_le_of_lt ?_ fits.bounded⟩
  have below := roundBits_mono Nat.one_pos (Nat.div_mul_le_self count units)
  rwa [roundBits_self fits.bits] at below

/-- What is left without the remainder is the multiple of the divisor, rounded. -/
theorem sub_remainder (fits : Fits count) (fits' : Fits (count % units))
    (above : negative = true → count = 0) :
    finite negative count fits - finite negative (count % units) fits' =
      finite false (roundBits (count / units * units) 1) (fits_roundBits_div_mul fits) := by
  have difference : signed negative count + signed (!negative) (count % units) =
      (count / units * units : Nat) := by
    have parts := Nat.div_add_mod' count units
    cases negative with
    | false =>
      simp only [signed, Bool.not_false, Bool.false_eq_true, if_false, if_true]
      omega
    | true =>
      simp only [signed, above rfl, Nat.zero_mod, Nat.zero_div, Nat.zero_mul]
      simp
  change (if signed negative count + signed (!negative) (count % units) = 0
    then signedZero (negative && !negative)
    else nearest (signed negative count + signed (!negative) (count % units) < 0)
      (signed negative count + signed (!negative) (count % units)).natAbs 1) = _
  rw [difference]
  split
  · next zero =>
    simp only [signedZero, Bool.and_not_self, Int.natCast_eq_zero.mp zero, roundBits_zero]
  · rw [decide_eq_false (by omega), Int.natAbs_natCast, nearest,
      dif_pos (fits_roundBits_div_mul fits).bounded]

/-- A double divided by another one, as long as the quotient is small. -/
theorem div_finite {num den : Nat} (fits : Fits num) (fits' : Fits den) (positive : 0 < den)
    (small : roundBits (num * one) den < limit) :
    finite false num fits / finite false den fits' =
      finite false (roundBits (num * one) den) ⟨significantBits_roundBits _ _, small⟩ := by
  change (if den = 0 then _ else nearest (false != false) (num * one) den) = _
  rw [if_neg positive.ne', nearest, dif_pos small]
  rfl

/-- A quarter of one. -/
@[irreducible] def quarter : Nat := Nat.pow 2 1072

theorem quarter_pos : 0 < quarter := by
  unfold quarter
  generalize 1072 = n
  exact Nat.two_pow_pos n

theorem one_eq : one = 4 * quarter := by
  unfold one quarter
  rw [show 1074 = 2 + 1072 from rfl]
  generalize 1072 = n
  exact Nat.pow_add 2 2 n

/-- A number of quarters is rounded to itself. -/
theorem roundBits_quarters {n den : Nat} (few : n < 2 ^ 53) (positive : 0 < den) :
    roundBits (n * quarter * den) den = n * quarter := by
  have bits : SignificantBits (n * quarter) := by
    unfold quarter
    generalize 1072 = e
    exact significantBits_mul_two_pow few.le
  have scaled := roundBits_mul_right (n * quarter) 1 positive
  rwa [Nat.one_mul, roundBits_self bits] at scaled

/-- The rounded multiple divided by the divisor is at most a quarter away from the whole number. -/
theorem roundBits_quotient (positive : 0 < units) (few : k < 2 ^ 51) :
    4 * k * quarter ≤ roundBits (roundBits (k * units) 1 * one) units + quarter ∧
    roundBits (roundBits (k * units) 1 * one) units ≤ (4 * k + 1) * quarter := by
  obtain ⟨high, low⟩ := four_mul_roundBits_mul units few
  have four : roundBits (k * units) 1 * one = 4 * roundBits (k * units) 1 * quarter := by
    rw [one_eq]
    ring
  rw [four]
  constructor
  · rcases Nat.eq_zero_or_pos k with rfl | some
    · simp
    · obtain ⟨j, rfl⟩ : ∃ j, k = j + 1 := Nat.exists_eq_succ_of_ne_zero some.ne'
      have below : (4 * j + 3) * quarter * units ≤ 4 * roundBits ((j + 1) * units) 1 * quarter := by
        calc (4 * j + 3) * quarter * units = (4 * j + 3) * units * quarter := by ring
          _ ≤ 4 * roundBits ((j + 1) * units) 1 * quarter := by
            refine Nat.mul_le_mul_right _ ?_
            have : 4 * (j + 1) * units = (4 * j + 3) * units + units := by ring
            omega
      have rounded := roundBits_mono positive below
      rw [roundBits_quarters (by omega) positive] at rounded
      have : 4 * (j + 1) * quarter = (4 * j + 3) * quarter + quarter := by ring
      omega
  · have above : 4 * roundBits (k * units) 1 * quarter ≤ (4 * k + 1) * quarter * units := by
      calc 4 * roundBits (k * units) 1 * quarter ≤ (4 * k + 1) * units * quarter :=
            Nat.mul_le_mul_right _ high
        _ = (4 * k + 1) * quarter * units := by ring
    have rounded := roundBits_mono positive above
    rwa [roundBits_quarters (by omega) positive] at rounded

/-! ### The quotient -/

theorem roundedPlace_quarters {n : Nat} (few : n < 2 ^ 53) :
    roundedPlace (n * quarter : Nat) = (n * quarter : Nat) := by
  have whole := roundBits_quarters few Nat.one_pos
  rw [Nat.mul_one] at whole
  have below : n * quarter ≤ limit := by
    refine le_trans ?_ mul_one_le_limit
    rw [one_eq, ← Nat.mul_assoc]
    exact Nat.mul_le_mul_right _ (by omega)
  have positive : ¬ ((n * quarter : Nat) : Int) < 0 := Int.not_lt.mpr (Int.natCast_nonneg _)
  rw [roundedPlace, Int.natAbs_natCast, whole, Nat.min_eq_left below, decide_eq_false positive]
  rfl

theorem position?_half : (ofRatio false 1 2).position? = some ((2 * quarter : Nat) : Int) := by
  have half := @roundBits_quarters 2 2 (by decide) (by decide)
  have below : 2 * quarter ≤ limit := by
    refine le_trans ?_ mul_one_le_limit
    rw [one_eq]
    omega
  rw [ofRatio, position?_nearest, one_eq, Nat.one_mul, show 4 * quarter = 2 * quarter * 2 by ring,
    half, Nat.min_eq_left below]
  rfl

theorem position?_sub_upright (fits : Fits count) (fits' : Fits units) :
    (finite false count fits - finite false units fits').position? =
      some (roundedPlace (count - units : Int)) := by
  have bounded := fits.bounded
  have positive := limit_pos
  have low : ¬ (count : Int) ≤ -limit := by omega
  have high : ¬ (limit : Int) ≤ count := by omega
  rw [position?_sub_finite]
  change some (differencePlace (units : Int) (count : Int)) = _
  rw [differencePlace, if_neg low, if_neg high]

theorem add_upright (fits : Fits count) (fits' : Fits units) (fits'' : Fits (count + units)) :
    finite false count fits + finite false units fits' = finite false (count + units) fits'' := by
  have sum : signed false count + signed false units = (count + units : Nat) := rfl
  change (if signed false count + signed false units = 0 then signedZero false
    else nearest (signed false count + signed false units < 0)
      (signed false count + signed false units).natAbs 1) = _
  rw [sum]
  split
  · next zero => simp only [signedZero, Int.natCast_eq_zero.mp zero]
  · have upright : ¬ ((count + units : Nat) : Int) < 0 := Int.not_lt.mpr (Int.natCast_nonneg _)
    rw [decide_eq_false upright, Int.natAbs_natCast, nearest_of_fits]

theorem add_one_whole (few : k + 1 < 2 ^ 53) :
    finite false (k * one) (fits_whole (Nat.lt_of_succ_lt few)) + 1 =
      finite false ((k + 1) * one) (fits_whole few) := by
  have unit : (1 : Double) = finite false (1 * one) (fits_whole (by decide)) := by
    change ofRatio false 1 1 = _
    exact ofRatio_whole false (by decide)
  have sum : k * one + 1 * one = (k + 1) * one := (Nat.add_mul k 1 one).symm
  rw [unit, add_upright _ _ (sum.symm ▸ fits_whole few)]
  simp only [sum]

/-- What is at most a quarter away from a whole number is moved there. -/
theorem moved_floor (fits : Fits count) (few : k + 1 < 2 ^ 51)
    (low : 4 * (k + 1) * quarter ≤ count + quarter) (high : count ≤ (4 * (k + 1) + 1) * quarter) :
    (if ofRatio false 1 2 < finite false count fits - (finite false count fits).floor then
        (finite false count fits).floor + 1
      else (finite false count fits).floor) =
      finite false ((k + 1) * one) (fits_whole (few.trans (by decide))) := by
  have positive := quarter_pos
  have here : (k + 1) * one = 4 * (k + 1) * quarter := by
    rw [one_eq]
    ring
  have before : k * one + 4 * quarter = 4 * (k + 1) * quarter := by
    rw [one_eq]
    ring
  have next : (4 * (k + 1) + 1) * quarter = 4 * (k + 1) * quarter + quarter := by ring
  have size : one = 4 * quarter := one_eq
  rcases Nat.lt_or_ge count ((k + 1) * one) with below | above
  · -- The whole number below is too low.
    have place : count / one = k := by
      refine (Nat.div_eq_iff one_pos).mpr ⟨?_, ?_⟩ <;> omega
    have rest := position?_sub_upright fits (fits_whole (k := k) (by omega))
    have far := roundedPlace_mono (s := (3 * quarter : Nat)) (t := count - (k * one : Nat))
      (by omega)
    rw [roundedPlace_quarters (by decide)] at far
    have apart := lt_iff.mpr ⟨_, _, position?_half, rest, by omega⟩
    rw [floor_finite fits place (by omega), if_pos apart, add_one_whole (by omega)]
  · have place : count / one = k + 1 := by
      refine (Nat.div_eq_iff one_pos).mpr ⟨?_, ?_⟩ <;> omega
    have rest := position?_sub_upright fits (fits_whole (k := k + 1) (by omega))
    have near := roundedPlace_mono (s := count - ((k + 1) * one : Nat)) (t := (1 * quarter : Nat))
      (by omega)
    rw [roundedPlace_quarters (by decide)] at near
    have together := not_lt_of_position? position?_half rest (by omega)
    rw [floor_finite fits place (by omega), if_neg together]

/-- The steps of a division whose remainder has no other sign than the divisor. -/
theorem floorDiv_of_steps {x y r q : Double} (remains : x.remainder y = r)
    (upright : (decide (y < 0) != decide (r < 0)) = false) (divides : (x - r) / y = q) :
    floorDiv x y =
      if q.isZero then signedZero (x / y).isNegative
      else if ofRatio false 1 2 < q - q.floor then q.floor + 1 else q.floor := by
  subst remains divides
  unfold floorDiv
  dsimp only
  rw [upright, Bool.and_false, if_neg Bool.false_ne_true]

/-- A quotient below `2 ^ 51` is rounded down without an error. -/
theorem floorDiv_finite (fits : Fits count) (fits' : Fits units) (positive : 0 < units)
    (above : negative = true → count = 0) (few : count / units < 2 ^ 51) :
    ∃ sign : Bool, (sign = true → count / units = 0) ∧
      floorDiv (finite negative count fits) (finite false units fits') =
        finite sign (count / units * one) (fits_whole (few.trans (by decide))) := by
  obtain ⟨low, high⟩ := roundBits_quotient positive few
  have small : roundBits (roundBits (count / units * units) 1 * one) units < limit := by
    refine high.trans_lt (lt_of_lt_of_le ?_ mul_one_le_limit)
    rw [one_eq, ← Nat.mul_assoc]
    exact Nat.mul_lt_mul_of_pos_right (by omega) quarter_pos
  have remains := remainder_finite negative fits fits' positive
  have upright {sign : Bool} {n : Nat} (fits : Fits n) (zero : sign = true → n = 0) :
      decide (finite sign n fits < 0) = false := by
    have place : (0 : Double).position? = some 0 := by
      change (ofRatio false 0 1).position? = some 0
      rw [ofRatio_whole false (by decide)]
      simp [position?, signed]
    refine decide_eq_false (not_lt_of_position? rfl place ?_)
    cases sign <;> simp [signed, zero]
  rw [floorDiv_of_steps remains
    (by rw [upright fits' (by simp), upright _ fun sign => by simp [above sign]]; rfl)
    (by rw [sub_remainder fits _ above, div_finite _ fits' positive small])]
  generalize count / units = k at *
  cases k with
  | zero =>
    have zero : roundBits (roundBits (0 * units) 1 * one) units = 0 := by
      rw [Nat.zero_mul, roundBits_zero, Nat.zero_mul, roundBits_zero]
    refine ⟨(finite negative count fits / finite false units fits').isNegative, fun _ => rfl, ?_⟩
    rw [isZero, beq_iff_eq.mpr zero, if_pos rfl]
    simp only [signedZero, Nat.zero_mul]
  | succ k =>
    have some : roundBits (roundBits ((k + 1) * units) 1 * one) units ≠ 0 := by
      have := quarter_pos
      intro zero
      rw [zero] at low
      have : 4 * (k + 1) * quarter = 4 * k * quarter + 4 * quarter := by ring
      omega
    refine ⟨false, (by simp), ?_⟩
    rw [moved_floor _ few low high, isZero, beq_eq_false_iff_ne.mpr some, if_neg Bool.false_ne_true]

theorem value_upright (fits : Fits count) (zero : negative = true → count = 0) :
    (finite negative count fits).value = .ok ((count : Rat) / one) := by
  have upright : signed negative count = count := by
    cases negative <;> simp [signed, zero]
  rw [value, upright, Rat.mkRat_eq_div]
  rfl

/-- The whole part of a quotient that is rounded down is the exact one. -/
theorem truncate_floorDiv (fits : Fits count) (fits' : Fits units) (positive : 0 < units)
    (above : negative = true → count = 0) (few : count / units < 2 ^ 51) :
    Scalar.truncate (Scalar.floorDiv (finite negative count fits) (finite false units fits')) =
      .ok ((count / units : Nat) : Int) := by
  obtain ⟨sign, zero, floored⟩ := floorDiv_finite fits fits' positive above few
  have unit : (one : Rat) ≠ 0 := Nat.cast_ne_zero.mpr one_pos.ne'
  have whole : ((count / units * one : Nat) : Rat) / one = ((count / units : Nat) : Rat) := by
    rw [Nat.cast_mul, mul_div_cancel_right₀ _ unit]
  change Except.map _ (floorDiv (finite negative count fits) (finite false units fits')).value = _
  rw [floored, value_upright _ fun down => by rw [zero down, Nat.zero_mul], whole, Except.map,
    Rat.num_natCast, if_neg (Int.not_lt.mpr (Int.natCast_nonneg _))]
  exact congrArg _ (Rat.floor_intCast _)

/-- A multiple is rounded once. -/
theorem multiplePlace_eq (few : k < 2 ^ 53) :
    multiplePlace units k = min (roundBits (k * units) 1) limit := by
  have factor : roundBits (k * one) 1 = k * one := roundBits_self (fits_whole few).bits
  have scaled := roundBits_mul_right (k * units) 1 one_pos
  rw [Nat.one_mul] at scaled
  rw [multiplePlace, factor, if_pos (fits_whole few).bounded, Nat.mul_right_comm, scaled]

end Double

end Montage
