/-!
Rounding a quotient to the nearest whole number, ties to even, and rounding a quotient to the
nearest whole number of at most 53 significant bits. Main statement: the latter is a count that
a double can hold, unless it is too large for every double (`significantBits_roundBits`).
-/

namespace Montage

/-- A number of six decimal places is a whole number of millionths. -/
def million : Nat := 1000000

/-- The whole number nearest to `num / den`; a half goes to the even neighbour. -/
def roundDiv (num den : Nat) : Nat :=
  if 2 * (num % den) < den ∨ (2 * (num % den) = den ∧ num / den % 2 = 0) then
    num / den
  else
    num / den + 1

/-- Rounding moves a quotient up by at most one. -/
theorem roundDiv_le (num den : Nat) : roundDiv num den ≤ num / den + 1 := by
  unfold roundDiv; split <;> omega

/-- A rational rounded to the nearest whole number; a half goes to the even neighbour. -/
def roundHalfEven (q : Rat) : Int :=
  if q.num < 0 then -(roundDiv q.num.natAbs q.den : Int) else roundDiv q.num.natAbs q.den

/-- `n` is a whole multiple of a power of two with a factor of at most 53 bits. -/
def SignificantBits (n : Nat) : Prop := Nat.pow 2 (n.log2 - 52) ∣ n

instance (n : Nat) : Decidable (SignificantBits n) := inferInstanceAs (Decidable (_ ∣ _))

/-- The spacing of the 53 bit numbers around `num / den`. -/
def bitSpacing (num den : Nat) : Nat := Nat.pow 2 ((num / den).log2 - 52)

/-- The 53 bit number nearest to `num / den`; a half goes to the even neighbour. -/
def roundBits (num den : Nat) : Nat :=
  roundDiv num (den * bitSpacing num den) * bitSpacing num den

/-- Every multiple of a power of two by at most `2 ^ 53` has 53 significant bits. -/
theorem significantBits_mul_two_pow {r e : Nat} (h : r ≤ Nat.pow 2 53) :
    SignificantBits (r * Nat.pow 2 e) := by
  unfold SignificantBits
  simp only [Nat.pow_eq] at h ⊢
  by_cases hr : r = 0
  · simp [hr]
  by_cases htop : r = 2 ^ 53
  · subst htop
    rw [← Nat.pow_add, Nat.log2_two_pow]
    exact Nat.pow_dvd_pow 2 (by omega)
  · have hne : r * 2 ^ e ≠ 0 := Nat.mul_ne_zero hr (Nat.ne_of_gt (Nat.two_pow_pos e))
    have hlt : r * 2 ^ e < 2 ^ (53 + e) := by
      rw [Nat.pow_add]
      exact Nat.mul_lt_mul_of_pos_right (Nat.lt_of_le_of_ne h htop) (Nat.two_pow_pos e)
    have hlog : (r * 2 ^ e).log2 < 53 + e := (Nat.log2_lt hne).mpr hlt
    exact Nat.dvd_trans (Nat.pow_dvd_pow 2 (by omega)) (Nat.dvd_mul_left (2 ^ e) r)

/-- Rounding to 53 bits gives a 53 bit number. -/
theorem significantBits_roundBits (num den : Nat) : SignificantBits (roundBits num den) := by
  refine significantBits_mul_two_pow ?_
  refine Nat.le_trans (roundDiv_le _ _) ?_
  have h : num / (den * bitSpacing num den) < Nat.pow 2 53 := by
    simp only [Nat.pow_eq, bitSpacing]
    rw [← Nat.div_div_eq_div_mul]
    refine Nat.div_lt_of_lt_mul ?_
    by_cases hz : num / den = 0
    · rw [hz]
      exact Nat.mul_pos (Nat.two_pow_pos _) (Nat.two_pow_pos 53)
    · rw [← Nat.pow_add]
      exact (Nat.log2_lt hz).mp (by omega)
  omega

end Montage
