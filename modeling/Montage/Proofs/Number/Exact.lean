import Mathlib.Algebra.Group.Int.Even
import Mathlib.Algebra.Order.Field.Rat
import Mathlib.Data.Rat.Cast.Order
import Mathlib.Tactic.FieldSimp
import Mathlib.Tactic.Linarith
import Mathlib.Tactic.Ring
import Montage.Number.Scalar

/-!
# Exact times

Times that are rational numbers are added and compared without rounding. They are rounded where they
are written, and to the nearest number of six places; a half goes to the even neighbour, so that the
order of numbers is kept.

## Main definitions

* `IsNearest` — a whole number that is nearest to a number

## Main results

* `isNearest_roundHalfEven` — rounding gives the nearest whole number
* `IsNearest.mono` — nearest whole numbers are in the order of the numbers
-/

namespace Montage

namespace Scalar

@[simp] theorem zero_rat : (zero : Rat) = 0 := by
  change mkRat 0 (Nat.pow 10 0) = 0
  exact Rat.zero_mkRat _

@[simp] theorem whole_rat (n : Nat) : (whole n : Rat) = n := by
  change mkRat (n : Int) (Nat.pow 10 0) = n
  simp [Rat.mkRat_eq_div]

@[simp] theorem maxOf_rat (x y : Rat) : maxOf x y = max x y := by
  rw [max_def_lt]
  rfl

@[simp] theorem minOf_rat (x y : Rat) : minOf x y = min x y := by
  rw [min_comm, min_def_lt]
  rfl

@[simp] theorem round_rat (x : Rat) : round x = .ok (roundHalfEven x) := rfl

end Scalar

/-! ### Rounding -/

/-- A quotient is at most half away from what it is rounded to. -/
theorem two_mul_roundDiv (num : Nat) {den : Nat} (h : 0 < den) :
    2 * (roundDiv num den * den) ≤ 2 * num + den ∧ 2 * num ≤ 2 * (roundDiv num den * den) + den := by
  have parts := Nat.div_add_mod' num den
  have rest := Nat.mod_lt num h
  unfold roundDiv
  split
  · next low => omega
  · next high =>
    rw [Nat.add_mul]
    omega

theorem abs_roundDiv_sub_le (num : Nat) {den : Nat} (h : 0 < den) :
    |(roundDiv num den : Rat) - num / den| ≤ 1 / 2 := by
  obtain ⟨low, high⟩ := two_mul_roundDiv num h
  have low : (2 * (roundDiv num den * den) : Rat) ≤ 2 * num + den := by exact_mod_cast low
  have high : (2 * num : Rat) ≤ 2 * (roundDiv num den * den) + den := by exact_mod_cast high
  have pos : (0 : Rat) < den := by exact_mod_cast h
  rw [abs_le]
  constructor
  · rw [neg_le_sub_iff_le_add, div_le_iff₀ pos]
    linarith
  · rw [sub_le_iff_le_add', ← mul_le_mul_iff_of_pos_right pos, add_mul, div_mul_cancel₀ _ pos.ne']
    linarith

/-- What is rounded by half a divisor is rounded to an even number. -/
theorem even_roundDiv {num den : Nat} (h : 0 < den)
    (half : 2 * (roundDiv num den * den) = 2 * num + den ∨
      2 * (roundDiv num den * den) + den = 2 * num) : Even (roundDiv num den) := by
  have parts := Nat.div_add_mod' num den
  have rest := Nat.mod_lt num h
  rw [Nat.even_iff]
  unfold roundDiv at half ⊢
  split at half
  · next low =>
    rw [if_pos low]
    omega
  · next high =>
    rw [if_neg high]
    rw [Nat.add_mul] at half
    omega

theorem even_roundDiv_of_abs {num den : Nat} (h : 0 < den)
    (half : |(roundDiv num den : Rat) - num / den| = 1 / 2) : Even (roundDiv num den) := by
  have pos : (den : Rat) ≠ 0 := Nat.cast_ne_zero.mpr h.ne'
  have quotient : (num : Rat) = num / den * den := (div_mul_cancel₀ _ pos).symm
  apply even_roundDiv h
  rcases (abs_eq (by norm_num)).mp half with above | below
  · left
    have scaled : (2 * (roundDiv num den * den) : Rat) = 2 * num + den := by
      rw [eq_add_of_sub_eq above, add_mul, ← quotient]
      ring
    exact_mod_cast scaled
  · right
    have scaled : (2 * (roundDiv num den * den) + den : Rat) = 2 * num := by
      rw [eq_add_of_sub_eq below, add_mul, ← quotient]
      ring
    exact_mod_cast scaled

/-- A number is rounded as its distance from zero is. -/
theorem abs_roundHalfEven_sub (q : Rat) : |(roundHalfEven q : Rat) - q| =
    |(roundDiv q.num.natAbs q.den : Rat) - q.num.natAbs / q.den| := by
  have parts : q = q.num / q.den := (Rat.num_div_den q).symm
  unfold roundHalfEven
  split
  · next negative =>
    have size : ((q.num.natAbs : Nat) : Rat) = -q.num := by
      rw [Nat.cast_natAbs, abs_of_neg negative, Int.cast_neg]
    rw [size, neg_div, ← parts, Int.cast_neg, Int.cast_natCast, ← abs_neg, neg_sub,
      sub_neg_eq_add, sub_neg_eq_add, add_comm]
  · next positive =>
    have size : ((q.num.natAbs : Nat) : Rat) = q.num := by
      rw [Nat.cast_natAbs, abs_of_nonneg (not_lt.mp positive)]
    rw [size, ← parts, Int.cast_natCast]

theorem abs_roundHalfEven_sub_le (q : Rat) : |(roundHalfEven q : Rat) - q| ≤ 1 / 2 := by
  rw [abs_roundHalfEven_sub]
  exact abs_roundDiv_sub_le q.num.natAbs q.den_pos

theorem even_roundHalfEven_iff (q : Rat) :
    Even (roundHalfEven q) ↔ Even (roundDiv q.num.natAbs q.den) := by
  unfold roundHalfEven
  split
  · rw [even_neg, Int.even_coe_nat]
  · rw [Int.even_coe_nat]

/-! ### The nearest whole number -/

/-- No whole number is nearer to `q` than `n`, and another one is as near only if `n` is even. -/
structure IsNearest (n : Int) (q : Rat) : Prop where
  least (m : Int) : |(n : Rat) - q| ≤ |(m : Rat) - q|
  even (m : Int) : m ≠ n → |(m : Rat) - q| = |(n : Rat) - q| → Even n

namespace IsNearest

variable {m n : Int} {p q : Rat}

/-- Whole numbers are so far apart that one at most half away is the nearest. -/
theorem of_within (near : |(n : Rat) - q| ≤ 1 / 2) (even : |(n : Rat) - q| = 1 / 2 → Even n) :
    IsNearest n q := by
  have half {m : Int} (other : m ≠ n) : 1 / 2 ≤ |(m : Rat) - q| := by
    have apart : (1 : Rat) ≤ |(m : Rat) - n| := by
      exact_mod_cast Int.one_le_abs (sub_ne_zero.mpr other)
    have between := abs_sub_le (m : Rat) q n
    rw [abs_sub_comm q] at between
    linarith
  constructor
  · intro m
    by_cases same : m = n
    · rw [same]
    · exact near.trans (half same)
  · intro m other tie
    exact even (le_antisymm near (tie ▸ half other))

end IsNearest

/-- A half is rounded to the even neighbour. -/
theorem isNearest_roundHalfEven (q : Rat) : IsNearest (roundHalfEven q) q := by
  refine .of_within (abs_roundHalfEven_sub_le q) fun tie => ?_
  rw [abs_roundHalfEven_sub] at tie
  rw [even_roundHalfEven_iff]
  exact even_roundDiv_of_abs q.den_pos tie

namespace IsNearest

variable {m n : Int} {p q : Rat}

theorem within (h : IsNearest n q) : |(n : Rat) - q| ≤ 1 / 2 :=
  (h.least _).trans (abs_roundHalfEven_sub_le q)

/-- Behind a half there is another number that is as near. -/
theorem even_of_half (h : IsNearest n q) (half : |(n : Rat) - q| = 1 / 2) : Even n := by
  rcases (abs_eq (by norm_num)).mp half with above | below
  · refine h.even (n - 1) (by omega) ?_
    rw [half, Int.cast_sub, Int.cast_one, abs_eq (by norm_num)]
    right
    linarith
  · refine h.even (n + 1) (by omega) ?_
    rw [half, Int.cast_add, Int.cast_one, abs_eq (by norm_num)]
    left
    linarith

/-- Larger numbers have larger nearest ones. -/
theorem mono (hm : IsNearest m p) (hn : IsNearest n q) (h : p ≤ q) : m ≤ n := by
  by_contra above
  have step : (n : Rat) + 1 ≤ m := by exact_mod_cast not_le.mp above
  have low := (abs_le.mp hm.within).2
  have high := (abs_le.mp hn.within).1
  -- Both are rounded from the middle between two neighbours, but only one of these is even.
  have next : m = n + 1 := by
    have : (m : Rat) = n + 1 := by linarith
    exact_mod_cast this
  have up : |(m : Rat) - p| = 1 / 2 := (abs_eq (by norm_num)).mpr (.inl (by linarith))
  have down : |(n : Rat) - q| = 1 / 2 := (abs_eq (by norm_num)).mpr (.inr (by linarith))
  have both := next ▸ hm.even_of_half up
  exact Int.not_even_iff_odd.mpr (hn.even_of_half down).add_one both

theorem unique (hm : IsNearest m q) (hn : IsNearest n q) : m = n :=
  le_antisymm (hm.mono hn le_rfl) (hn.mono hm le_rfl)

end IsNearest

theorem roundHalfEven_intCast (n : Int) : roundHalfEven n = n := by
  have itself : IsNearest n n := .of_within (by norm_num) (by norm_num)
  exact (isNearest_roundHalfEven n).unique itself

/-! ### Six places -/

/-- A number is counted in millionths. -/
theorem millionths_eq (q : Rat) : millionths q = roundHalfEven (q * 10 ^ 6) := by
  rw [millionths, Rat.mkRat_eq_div, Int.cast_mul, mul_div_right_comm, Rat.num_div_den]
  norm_num [million]

theorem roundSixPlaces_rat (x : Rat) : Scalar.roundSixPlaces x = (millionths x : Rat) / 10 ^ 6 := by
  change mkRat (millionths x) million = _
  rw [Rat.mkRat_eq_div]
  norm_num [million]

/-- A number is at most half a millionth away from the one that is written for it. -/
theorem abs_roundSixPlaces_sub_le (x : Rat) :
    |Scalar.roundSixPlaces x - x| ≤ 1 / 2000000 := by
  have near := abs_roundHalfEven_sub_le (x * 10 ^ 6)
  rw [roundSixPlaces_rat, millionths_eq, abs_le] at *
  constructor <;> linarith [near.1, near.2]

theorem millionths_roundSixPlaces (x : Rat) :
    millionths (Scalar.roundSixPlaces x) = millionths x := by
  rw [roundSixPlaces_rat, millionths_eq, div_mul_cancel₀ _ (by norm_num), roundHalfEven_intCast]

theorem roundSixPlaces_zero : Scalar.roundSixPlaces (0 : Rat) = 0 := by
  have none : roundHalfEven 0 = 0 := roundHalfEven_intCast 0
  rw [roundSixPlaces_rat, millionths_eq, zero_mul, none, Int.cast_zero, zero_div]

/-- Numbers a millionth apart stay in order when one of them is written. -/
theorem roundSixPlaces_compare {t x : Rat} (apart : 1 / 1000000 ≤ |t - x|) :
    (Scalar.roundSixPlaces x ≤ t ↔ x ≤ t) ∧ (t ≤ Scalar.roundSixPlaces x ↔ t ≤ x) := by
  obtain ⟨low, high⟩ := abs_le.mp (abs_roundSixPlaces_sub_le x)
  rcases le_abs.mp apart with after | before
  · exact ⟨⟨fun _ => by linarith, fun _ => by linarith⟩,
      fun _ => by linarith, fun _ => by linarith⟩
  · exact ⟨⟨fun _ => by linarith, fun _ => by linarith⟩,
      fun _ => by linarith, fun _ => by linarith⟩

end Montage
