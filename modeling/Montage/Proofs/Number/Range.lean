import Montage.Proofs.Number.Order

/-!
# Numbers beyond the range of doubles

Half a spacing below a power of two, numbers begin to be rounded up to it, for the power is the even
neighbour. So a number is beyond all doubles from half a spacing above the largest double on.

## Main results

* `roundBits_lt_two_pow_iff` — the numbers that stay below a power of two
* `Double.ofInt_eq_error_iff`, `Double.ofQuotient_eq_error_iff` — when there is no nearest double
-/

namespace Montage

/-- Which quotients are rounded to less than an even number. The half below it is not. -/
theorem roundDiv_lt_iff_of_even {num den k : Nat} (hden : 0 < den) (even : k % 2 = 0)
    (positive : 0 < k) : roundDiv num den < k ↔ 2 * num < (2 * k - 1) * den := by
  have parts := Nat.div_add_mod num den
  have rest := Nat.mod_lt num hden
  rcases Nat.lt_trichotomy (num / den + 1) k with below | edge | above
  · -- Even the upper neighbour is below.
    have rounded := roundDiv_le num den
    have bound : den * (num / den + 1) ≤ den * (k - 1) := Nat.mul_le_mul_left _ (by omega)
    have double : (2 * k - 1) * den = 2 * (den * (k - 1)) + den := by
      obtain ⟨j, rfl⟩ := Nat.exists_eq_add_of_lt positive
      simp only [Nat.zero_add, Nat.add_sub_cancel]
      rw [show 2 * (j + 1) - 1 = 2 * j + 1 by omega]
      ring
    rw [Nat.mul_add, Nat.mul_one] at bound
    constructor
    · intro
      omega
    · intro
      omega
  · -- The lower neighbour is odd, so that the half goes up.
    have double : (2 * k - 1) * den = 2 * (den * (num / den)) + den := by
      rw [← edge, show 2 * (num / den + 1) - 1 = 2 * (num / den) + 1 by omega]
      ring
    have odd : ¬ num / den % 2 = 0 := by omega
    unfold roundDiv
    split
    · next down =>
      have : 2 * (num % den) < den := down.resolve_right fun tie => odd tie.2
      constructor
      · intro
        omega
      · intro
        omega
    · next up =>
      have : ¬ 2 * (num % den) < den := fun less => up (.inl less)
      constructor
      · intro
        omega
      · intro
        omega
  · -- The quotient itself has reached the number.
    have reached : k ≤ num / den := by omega
    have rounded : num / den ≤ roundDiv num den := by
      unfold roundDiv
      split <;> omega
    have bound : den * k ≤ den * (num / den) := Nat.mul_le_mul_left _ reached
    have double : (2 * k - 1) * den + den = 2 * (den * k) := by
      obtain ⟨j, rfl⟩ := Nat.exists_eq_add_of_lt positive
      rw [show 2 * (0 + j + 1) - 1 = 2 * j + 1 by omega]
      ring
    constructor
    · intro
      omega
    · intro
      omega

/-- Which quotients are rounded to less than a power of two. -/
theorem roundBits_lt_two_pow_iff {num den k : Nat} (hden : 0 < den) :
    roundBits num den < 2 ^ (k + 54) ↔ num < (2 ^ (k + 54) - 2 ^ k) * den := by
  have half : 2 ^ (k + 54) - 2 ^ k = (2 ^ 54 - 1) * 2 ^ k := by
    rw [Nat.sub_mul, Nat.one_mul, Nat.pow_add, Nat.mul_comm]
  have spaced := Nat.two_pow_pos k
  rcases Nat.lt_or_ge (num / den) (2 ^ (k + 53)) with small | large
  · -- The power of two below is already an upper bound.
    have bound : num < 2 ^ (k + 53) * den := (Nat.div_lt_iff_lt_mul hden).mp small
    have rounded := roundBits_le_two_pow hden small (Nat.le_add_left 53 k)
    have lower : (2 : Nat) ^ (k + 53) < 2 ^ (k + 54) := Nat.pow_lt_pow_right Nat.one_lt_two (by omega)
    have inside : 2 ^ (k + 53) ≤ (2 ^ 54 - 1) * 2 ^ k := by
      rw [Nat.pow_add, Nat.mul_comm]
      exact Nat.mul_le_mul_right _
        (Nat.le_sub_one_of_lt (Nat.pow_lt_pow_right Nat.one_lt_two (Nat.lt_succ_self 53)))
    rw [half]
    exact ⟨fun _ => bound.trans_le (Nat.mul_le_mul_right _ inside), fun _ => rounded.trans_lt lower⟩
  · rcases Nat.lt_or_ge (num / den) (2 ^ (k + 54)) with below | beyond
    · have some : num / den ≠ 0 := Nat.ne_of_gt ((Nat.two_pow_pos _).trans_le large)
      have log : (num / den).log2 = k + 53 :=
        Nat.le_antisymm (Nat.le_of_lt_succ ((Nat.log2_lt some).mpr below))
          ((Nat.le_log2 some).mpr large)
      have spacing : bitSpacing num den = 2 ^ k * 2 := by
        rw [bitSpacing, log, Nat.pow_eq, show k + 53 - 52 = k + 1 by omega, Nat.pow_succ]
      have power : (2 : Nat) ^ (k + 54) = 2 ^ 53 * (2 ^ k * 2) := by
        rw [show k + 54 = 53 + (k + 1) by omega, Nat.pow_add, Nat.pow_succ 2 k]
      have doubled : (2 * 2 ^ 53 - 1) * (den * (2 ^ k * 2)) = 2 * ((2 ^ 54 - 1) * 2 ^ k * den) := by
        norm_num
        ring
      have spaced' : 0 < 2 ^ k * 2 := Nat.mul_pos spaced Nat.two_pos
      rw [roundBits, spacing, half, power, Nat.mul_lt_mul_right spaced',
        roundDiv_lt_iff_of_even (Nat.mul_pos hden spaced') (by norm_num) (by norm_num), doubled,
        Nat.mul_lt_mul_left Nat.two_pos]
    · have some : num / den ≠ 0 := Nat.ne_of_gt ((Nat.two_pow_pos _).trans_le beyond)
      have rounded : 2 ^ (k + 54) ≤ roundBits num den :=
        (Nat.pow_le_pow_right (by omega) ((Nat.le_log2 some).mpr beyond)).trans
          (two_pow_le_roundBits hden (Nat.log2_self_le some) rfl)
      have reached : 2 ^ (k + 54) * den ≤ num := (Nat.le_div_iff_mul_le hden).mp beyond
      constructor
      · intro less
        exact absurd rounded (Nat.not_le.mpr less)
      · intro less
        exact absurd (reached.trans_lt less)
          (Nat.not_lt.mpr (Nat.mul_le_mul_right _ (Nat.sub_le _ _)))

namespace Double

/-- From here on a number is rounded up beyond the largest double. -/
def overflow : Nat := Nat.pow 2 1024 - Nat.pow 2 970

/-- The powers of two behind the range of doubles. -/
theorem exists_exponents : ∃ b n, limit = Nat.pow 2 (b + n + 54) ∧
    overflow = Nat.pow 2 (b + 54) - Nat.pow 2 b ∧ one = Nat.pow 2 n := by
  have high : 2098 = 970 + 1074 + 54 := by decide
  have middle : 1024 = 970 + 54 := by decide
  unfold limit overflow one
  revert high middle
  -- The powers themselves are never computed.
  generalize 970 = b
  generalize 1074 = n
  generalize 2098 = top
  generalize 1024 = range
  rintro rfl rfl
  exact ⟨b, n, rfl, rfl, rfl⟩

/-- Which quotients of units are rounded to a double. -/
theorem roundBits_lt_limit_iff_units {num den : Nat} (hden : 0 < den) :
    roundBits num den < limit ↔ num < overflow * one * den := by
  obtain ⟨b, n, hlimit, hoverflow, hone⟩ := exists_exponents
  have units : 2 ^ (b + n + 54) - 2 ^ (b + n) = (2 ^ (b + 54) - 2 ^ b) * 2 ^ n := by
    rw [Nat.sub_mul, ← Nat.pow_add, ← Nat.pow_add, Nat.add_right_comm b n 54]
  simp only [Nat.pow_eq] at hlimit hoverflow hone
  rw [hlimit, hoverflow, hone, roundBits_lt_two_pow_iff hden, units]

theorem roundBits_lt_limit_iff {num den : Nat} (hden : 0 < den) :
    roundBits (num * one) den < limit ↔ num < overflow * den := by
  rw [roundBits_lt_limit_iff_units hden, Nat.mul_right_comm, Nat.mul_lt_mul_right one_pos]

theorem ofRatio_eq (negative : Bool) (num den : Nat) :
    ofRatio negative num den = nearest negative (num * one) den := by unfold ofRatio; rfl

/-- Rounding a quotient leaves the doubles from half a spacing above the largest one on. -/
theorem ofRatio_eq_infinite_iff {negative negative' : Bool} {num den : Nat} (hden : 0 < den) :
    ofRatio negative num den = .infinite negative' ↔
      negative = negative' ∧ overflow * den ≤ num := by
  rw [ofRatio_eq, nearest]
  split
  · next inside =>
    have less := (roundBits_lt_limit_iff hden).mp inside
    exact ⟨fun same => absurd same (by simp), fun beyond => absurd beyond.2 (Nat.not_le.mpr less)⟩
  · next outside =>
    have beyond := fun less => outside ((roundBits_lt_limit_iff hden).mpr less)
    rw [infinite.injEq]
    exact ⟨fun same => ⟨same, Nat.not_lt.mp beyond⟩, And.left⟩

theorem inRange_eq_error_iff {x : Double} {cause : NumberError} :
    inRange x = .error cause ↔ cause = .tooLarge ∧ ∃ negative, x = .infinite negative := by
  cases x with
  | infinite negative =>
    exact ⟨fun h => ⟨(Except.error.inj h).symm, negative, rfl⟩, fun h => congrArg Except.error h.1.symm⟩
  | nan => exact ⟨nofun, fun ⟨_, _, h⟩ => nomatch h⟩
  | finite negative units fits => exact ⟨nofun, fun ⟨_, _, h⟩ => nomatch h⟩

/-- A whole number has no nearest double if and only if it is beyond all of them. -/
theorem ofInt_eq_error_iff {n : Int} {cause : NumberError} :
    ofInt n = .error cause ↔ cause = .tooLarge ∧ overflow ≤ n.natAbs := by
  rw [ofInt, inRange_eq_error_iff]
  simp only [ofRatio_eq_infinite_iff Nat.one_pos, Nat.mul_one, exists_eq_left']

/-- A quotient has no nearest double if and only if it is beyond all of them. -/
theorem ofQuotient_eq_error_iff {n d : Int} (hd : d ≠ 0) {cause : NumberError} :
    ofQuotient n d = .error cause ↔ cause = .tooLarge ∧ overflow * d.natAbs ≤ n.natAbs := by
  rw [ofQuotient, if_neg hd, inRange_eq_error_iff]
  simp only [ofRatio_eq_infinite_iff (Int.natAbs_pos.mpr hd), exists_eq_left']

end Double

end Montage
