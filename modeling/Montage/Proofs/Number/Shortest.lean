import Mathlib.Algebra.Order.Field.Rat
import Mathlib.Data.Rat.Cast.Order
import Mathlib.Tactic.FieldSimp
import Mathlib.Tactic.Linarith
import Mathlib.Tactic.Positivity
import Montage.Proofs.Number.Order

/-!
# The shortest decimal of a double is read back as the double

The decimals that are rounded to a double are those of its interval, and of seventeen digits there
is one inside every interval. So the search for the shortest decimal always finds one, and what it
finds is rounded to the double.

## Main definitions

* `Decimal.value` — the number that a decimal denotes
* `Decimal.Meets` — a decimal lies in the interval of a double

## Main results

* `Decimal.meets_shortest` — the shortest decimal lies in the interval
* `Double.ofDecimal_of_meets` — what lies in the interval is rounded to the double
-/

namespace Montage

/-- Multiples of one number are at least that number apart. -/
theorem add_le_of_dvd_of_lt {a b d : Nat} (ha : d ∣ a) (hb : d ∣ b) (h : a < b) : a + d ≤ b := by
  obtain ⟨m, rfl⟩ := ha
  obtain ⟨n, rfl⟩ := hb
  exact Nat.mul_le_mul_left d (Nat.lt_of_mul_lt_mul_left h)

/-- A quotient at most half away from a whole number is rounded to it; one that is just half away,
if the number is even. -/
theorem roundDiv_eq {num den n : Nat} (hden : 0 < den) (low : 2 * (n * den) ≤ 2 * num + den)
    (high : 2 * num ≤ 2 * (n * den) + den)
    (tie : 2 * (n * den) = 2 * num + den ∨ 2 * num = 2 * (n * den) + den → n % 2 = 0) :
    roundDiv num den = n := by
  rcases Nat.le_total (n * den) num with above | below
  · obtain ⟨rest, rfl⟩ := Nat.exists_eq_add_of_le above
    have quotient : (n * den + rest) / den = n := by
      rw [Nat.add_comm, Nat.add_mul_div_right _ _ hden, Nat.div_eq_of_lt (by omega), Nat.zero_add]
    have remainder : (n * den + rest) % den = rest := by
      rw [Nat.add_comm, Nat.add_mul_mod_self_right, Nat.mod_eq_of_lt (by omega)]
    rw [roundDiv, quotient, remainder, if_pos]
    rcases Nat.lt_or_ge (2 * rest) den with less | half
    · exact .inl less
    · exact .inr ⟨by omega, tie (.inr (by omega))⟩
  · rcases Nat.eq_or_lt_of_le below with rfl | below
    · rw [roundDiv, Nat.mul_div_cancel _ hden, Nat.mul_mod_left, if_pos (.inl (by omega))]
    · obtain ⟨m, rfl⟩ : ∃ m, n = m + 1 := Nat.exists_eq_succ_of_ne_zero (by rintro rfl; omega)
      rw [Nat.add_mul, Nat.one_mul] at low high tie below
      obtain ⟨rest, rfl⟩ : ∃ rest, num = m * den + rest := Nat.exists_eq_add_of_le (by omega)
      have quotient : (m * den + rest) / den = m := by
        rw [Nat.add_comm, Nat.add_mul_div_right _ _ hden, Nat.div_eq_of_lt (by omega), Nat.zero_add]
      have remainder : (m * den + rest) % den = rest := by
        rw [Nat.add_comm, Nat.add_mul_mod_self_right, Nat.mod_eq_of_lt (by omega)]
      rw [roundDiv, quotient, remainder, if_neg]
      rintro (less | ⟨half, even⟩)
      · omega
      · have := tie (.inl (by omega))
        omega

/-- A number between two others, at one of them only if the ends belong to the interval. -/
def Within {α : Type} [LE α] [LT α] (low high : α) (closed : Bool) (x : α) : Prop :=
  if closed then low ≤ x ∧ x ≤ high else low < x ∧ x < high

section Within

variable {low high x c : ℚ} {closed : Bool}

theorem within_mul (hc : 0 < c) :
    Within (low * c) (high * c) closed (x * c) ↔ Within low high closed x := by
  unfold Within
  split
  · rw [mul_le_mul_iff_of_pos_right hc, mul_le_mul_iff_of_pos_right hc]
  · rw [mul_lt_mul_iff_of_pos_right hc, mul_lt_mul_iff_of_pos_right hc]

theorem within_cast {low high n : ℕ} :
    Within (low : ℚ) high closed n ↔ Within low high closed n := by
  unfold Within
  split
  · rw [Nat.cast_le, Nat.cast_le]
  · rw [Nat.cast_lt, Nat.cast_lt]

theorem Within.bounds {α : Type} [Preorder α] {low high x : α} (h : Within low high closed x) :
    low ≤ x ∧ x ≤ high := by
  unfold Within at h
  split at h
  · exact h
  · exact ⟨h.1.le, h.2.le⟩

theorem within_of_lt {α : Type} [Preorder α] {low high x : α} (below : low < x) (above : x < high) :
    Within low high closed x := by
  unfold Within
  split
  · exact ⟨below.le, above.le⟩
  · exact ⟨below, above⟩

end Within

/-! ### The interval of a double -/

namespace Double

variable {units num den : Nat}

/-- The distance from a double to the next larger one. -/
def spacing (units : Nat) : Nat := Nat.pow 2 (units.log2 - 52)

/-- Twice the distance from a double to the next smaller one. -/
def backSpacing (units : Nat) : Nat :=
  if units = Nat.pow 2 units.log2 && 1 < spacing units then spacing units else 2 * spacing units

/-- The lower end of the interval of a double, in quarters of a unit. -/
def lowEnd (units : Nat) : Nat := 4 * units - backSpacing units

/-- The upper end of the interval of a double, in quarters of a unit. -/
def highEnd (units : Nat) : Nat := 4 * units + 2 * spacing units

/-- Whether the ends belong to the interval. -/
def takesEnds (units : Nat) : Bool := units / spacing units % 2 == 0

theorem spacing_pos (units : Nat) : 0 < spacing units := Nat.two_pow_pos _

theorem backSpacing_le (units : Nat) : backSpacing units ≤ 2 * spacing units := by
  unfold backSpacing
  split <;> omega

theorem spacing_le_backSpacing (units : Nat) : spacing units ≤ backSpacing units := by
  unfold backSpacing
  split <;> omega

/-- A double is a whole number of spacings, of 53 bits. -/
theorem exists_eq_mul_spacing (bits : SignificantBits units) :
    ∃ n < 2 ^ 53, units = n * spacing units := by
  obtain ⟨n, hn⟩ := bits
  refine ⟨n, ?_, by rw [Nat.mul_comm]; exact hn⟩
  by_contra large
  rcases Nat.eq_zero_or_pos units with rfl | positive
  · rw [show Nat.log2 0 = 0 from by simp] at hn
    simp at hn
    omega
  have below : units < 2 ^ (units.log2 + 1) := Nat.lt_log2_self
  have above : 2 ^ (units.log2 - 52) * 2 ^ 53 ≤ units := by
    conv_rhs => rw [hn]
    exact Nat.mul_le_mul_left _ (by omega)
  rw [← Nat.pow_add] at above
  exact absurd ((Nat.pow_lt_pow_iff_right (by decide)).mp (above.trans_lt below)) (by omega)

/-- Two powers of two are apart by the spacing at the smaller one. -/
theorem spacing_dvd_two_pow {e : Nat} (h : units.log2 ≤ e) : spacing units ∣ 2 ^ e :=
  Nat.pow_dvd_pow 2 (by omega)

theorem spacing_le_units (positive : 0 < units) : spacing units ≤ units :=
  (Nat.pow_le_pow_right (by decide) (Nat.sub_le _ _)).trans
    (Nat.log2_self_le (Nat.ne_of_gt positive))

theorem two_le_lowEnd (positive : 0 < units) : 2 ≤ lowEnd units := by
  have := spacing_le_units positive
  have := backSpacing_le units
  unfold lowEnd
  omega

theorem highEnd_lt (fits : Fits units) (positive : 0 < units) : highEnd units < 6 * limit := by
  have := spacing_le_units positive
  have := fits.bounded
  unfold highEnd
  omega

theorem lowEnd_add (positive : 0 < units) : lowEnd units + backSpacing units = 4 * units := by
  have := spacing_le_units positive
  have := backSpacing_le units
  unfold lowEnd
  omega

/-- What lies in the interval of a double is rounded to it, if it is rounded to as many places. -/
theorem roundBits_of_bitSpacing (bits : SignificantBits units) (hden : 0 < den)
    (places : bitSpacing num den = spacing units) (positive : 0 < units)
    (h : Within (lowEnd units * den) (highEnd units * den) (takesEnds units) (4 * num)) :
    roundBits num den = units := by
  obtain ⟨n, -, hn⟩ := exists_eq_mul_spacing bits
  have spaced := spacing_pos units
  obtain ⟨low, high⟩ := h.bounds
  have ends := lowEnd_add positive
  have back := Nat.mul_le_mul_right den (backSpacing_le units)
  have product : n * (den * spacing units) = units * den := by
    conv_rhs => rw [hn]
    ring
  have lowSum : lowEnd units * den + backSpacing units * den = 4 * (units * den) := by
    rw [← Nat.add_mul, ends, Nat.mul_assoc]
  have highSum : highEnd units * den = 4 * (units * den) + 2 * (den * spacing units) := by
    unfold highEnd
    ring
  have twice : 2 * spacing units * den = 2 * (den * spacing units) := by ring
  rw [twice] at back
  have even (tie : lowEnd units * den = 4 * num ∨ 4 * num = highEnd units * den) : n % 2 = 0 := by
    by_contra odd
    have opened : takesEnds units = false := by
      rw [takesEnds, Nat.div_eq_of_eq_mul_left spaced hn]
      simpa using odd
    rw [opened] at h
    obtain ⟨below, above⟩ : lowEnd units * den < 4 * num ∧ 4 * num < highEnd units * den := h
    omega
  rw [roundBits, places, roundDiv_eq (n := n) (Nat.mul_pos hden spaced), ← hn]
  · rw [product]
    omega
  · rw [product]
    omega
  · rw [product]
    exact fun tie => even (by omega)

/-- What lies in the interval of a double is rounded to it. -/
theorem roundBits_of_within (bits : SignificantBits units) (hden : 0 < den) (positive : 0 < units)
    (h : Within (lowEnd units * den) (highEnd units * den) (takesEnds units) (4 * num)) :
    roundBits num den = units := by
  have hne := Nat.ne_of_gt positive
  have spaced := spacing_pos units
  obtain ⟨low, high⟩ := h.bounds
  have lowSum : lowEnd units * den + backSpacing units * den = 4 * units * den := by
    rw [← Nat.add_mul, lowEnd_add positive]
  have back := Nat.mul_le_mul_right den (backSpacing_le units)
  have whole : spacing units ∣ units := bits
  by_cases far : 2 ^ units.log2 ≤ num / den
  · -- The quotient has as many digits as the double.
    refine roundBits_of_bitSpacing bits hden ?_ positive h
    have room : units + spacing units ≤ 2 ^ (units.log2 + 1) :=
      add_le_of_dvd_of_lt whole (spacing_dvd_two_pow (Nat.le_succ _)) Nat.lt_log2_self
    have below : num / den < 2 ^ (units.log2 + 1) := by
      refine lt_of_lt_of_le (Nat.div_lt_of_lt_mul ?_) room
      have : 4 * num ≤ 4 * (den * units) + 2 * (den * spacing units) := by
        refine high.trans_eq ?_
        unfold highEnd
        ring
      have := Nat.mul_pos hden spaced
      rw [Nat.mul_add]
      omega
    have digits : (num / den).log2 = units.log2 :=
      (Nat.log2_eq_iff (Nat.ne_of_gt ((Nat.two_pow_pos _).trans_le far))).mpr ⟨far, below⟩
    rw [bitSpacing, digits, spacing]
  · have short : num / den < 2 ^ units.log2 := Nat.not_le.mp far
    have short' : num < 2 ^ units.log2 * den := (Nat.div_lt_iff_lt_mul hden).mp short
    -- The double is a power of two, and the numbers below it are closer together.
    have power : units = 2 ^ units.log2 := by
      by_contra differ
      have apart := add_le_of_dvd_of_lt (spacing_dvd_two_pow (Nat.le_refl units.log2)) whole
        (Nat.lt_of_le_of_ne (Nat.log2_self_le hne) (Ne.symm differ))
      have apart := Nat.mul_le_mul_right den apart
      have := Nat.mul_pos spaced hden
      rw [Nat.mul_assoc] at lowSum back
      rw [Nat.add_mul] at apart
      omega
    by_cases dense : units.log2 ≤ 52
    · -- They are whole numbers all the same.
      refine roundBits_of_bitSpacing bits hden ?_ positive h
      have places : (num / den).log2 ≤ units.log2 := by
        by_cases hz : num / den = 0
        · simp [hz]
        · exact ((Nat.log2_lt hz).mpr short).le
      rw [bitSpacing, spacing, Nat.sub_eq_zero_of_le dense,
        Nat.sub_eq_zero_of_le (places.trans dense)]
    · obtain ⟨e, he⟩ : ∃ e, units.log2 = e + 53 := Nat.exists_eq_add_of_le' (by omega)
      have wide : spacing units = 2 * 2 ^ e := by
        rw [spacing, he, show e + 53 - 52 = e + 1 by omega, Nat.pow_eq, Nat.pow_succ']
      have half : units = 2 ^ 53 * 2 ^ e := by rw [← Nat.pow_add, Nat.add_comm, ← he, ← power]
      have below : backSpacing units = spacing units := by
        have : 0 < 2 ^ e := Nat.two_pow_pos e
        unfold backSpacing
        rw [if_pos]
        rw [Bool.and_eq_true, decide_eq_true_eq, decide_eq_true_eq]
        exact ⟨power, by omega⟩
      -- All of it is counted in pieces of half a spacing.
      generalize hpiece : den * 2 ^ e = piece
      have size : 4 * units * den = 4 * (2 ^ 53 * piece) := by rw [half, ← hpiece]; ring
      have size' : spacing units * den = 2 * piece := by rw [wide, ← hpiece]; ring
      rw [below, size', size] at lowSum
      rw [← power, half, Nat.mul_assoc, Nat.mul_comm _ den, hpiece] at short'
      have digits : (num / den).log2 = e + 52 := by
        have far : 2 ^ (e + 52) ≤ num / den := by
          rw [Nat.le_div_iff_mul_le hden]
          have : 2 ^ (e + 52) * den = 2 ^ 52 * piece := by rw [← hpiece]; ring
          omega
        refine (Nat.log2_eq_iff (Nat.ne_of_gt ((Nat.two_pow_pos _).trans_le far))).mpr ⟨far, ?_⟩
        rw [show e + 52 + 1 = units.log2 by omega]
        exact short
      have places : bitSpacing num den = 2 ^ e := by
        rw [bitSpacing, digits, Nat.add_sub_cancel]
        rfl
      have even : 2 ^ 53 % 2 = 0 := by norm_num
      have rounded : roundDiv num (den * 2 ^ e) = 2 ^ 53 := by
        refine roundDiv_eq (Nat.mul_pos hden (Nat.two_pow_pos e)) ?_ ?_ fun _ => even
        · rw [hpiece]
          omega
        · rw [hpiece]
          omega
      rw [roundBits, places, rounded, ← half]

end Double

/-! ### Decimals in the interval -/

namespace Decimal

variable {units : Nat} {d d' : Decimal}

/-- A quarter of a unit is what the ends of an interval are counted in. -/
theorem quarters_eq : Nat.pow 2 1076 = 4 * Double.one := by decide +kernel

/-- How far the powers of ten reach beyond the doubles. -/
theorem powers_reach : 6 * Double.limit ≤ 4 * (Nat.pow 10 401 * Double.one) ∧
    4 * Double.one ≤ Nat.pow 10 401 ∧ Double.one ≤ Nat.pow 10 330 := by decide +kernel

/-- The number that a decimal denotes. -/
def value (d : Decimal) : ℚ := d.digits * (10 : ℚ) ^ d.exponent

/-- A decimal lies in the interval of a double. -/
def Meets (units : Nat) (d : Decimal) : Prop :=
  Within (Double.lowEnd units : ℚ) (Double.highEnd units) (Double.takesEnds units)
    (d.value * (4 * Double.one : ℕ))

theorem Meets.of_value_eq (h : d.Meets units) (same : d'.value = d.value) : d'.Meets units := by
  rwa [Meets, same]

theorem zpow_mul_pow_toNat (e : Int) :
    (10 : ℚ) ^ e * 10 ^ (-e).toNat = 10 ^ e.toNat := by
  rw [← zpow_natCast, ← zpow_natCast, ← zpow_add₀ (by norm_num)]
  congr 1
  omega

/-- The test for the interval counts in whole numbers. -/
theorem inside_iff {low high : Nat} {closed : Bool} :
    d.inside low high closed = true ↔
      Within (low : ℚ) high closed (d.value * (4 * Double.one : ℕ)) := by
  have scale : (0 : ℚ) < 10 ^ (-d.exponent).toNat := by positivity
  have counted : d.value * (4 * Double.one : ℕ) * 10 ^ (-d.exponent).toNat =
      (d.digits * Nat.pow 2 1076 * Nat.pow 10 d.exponent.toNat : ℕ) := by
    rw [quarters_eq, value, Nat.pow_eq]
    push_cast
    rw [← zpow_mul_pow_toNat d.exponent]
    ring
  rw [← within_mul scale, counted]
  have cast (n : Nat) : (n : ℚ) * 10 ^ (-d.exponent).toNat =
      (n * Nat.pow 10 (-d.exponent).toNat : ℕ) := by
    rw [Nat.pow_eq]
    push_cast
    rfl
  rw [cast, cast, within_cast, inside, Within]
  cases closed <;>
    simp only [if_true, if_false, Bool.false_eq_true, Bool.and_eq_true, decide_eq_true_eq]

theorem meets_iff_inside : d.Meets units ↔
    d.inside (Double.lowEnd units) (Double.highEnd units) (Double.takesEnds units) = true :=
  inside_iff.symm

/-- The test for the interval, as a statement on what is rounded. -/
theorem Meets.within (h : d.Meets units) :
    Within (Double.lowEnd units * Nat.pow 10 (-d.exponent).toNat)
      (Double.highEnd units * Nat.pow 10 (-d.exponent).toNat) (Double.takesEnds units)
      (4 * (d.digits * Nat.pow 10 d.exponent.toNat * Double.one)) := by
  have quarters : d.digits * Nat.pow 2 1076 * Nat.pow 10 d.exponent.toNat =
      4 * (d.digits * Nat.pow 10 d.exponent.toNat * Double.one) := by
    rw [quarters_eq]
    ring
  rw [meets_iff_inside, inside, quarters] at h
  unfold Within
  cases closed : Double.takesEnds units <;> simpa [closed] using h

theorem Meets.digits_pos (h : d.Meets units) (positive : 0 < units) : 0 < d.digits := by
  by_contra zero
  have low := h.within.bounds.1
  rw [Nat.eq_zero_of_not_pos zero, Nat.zero_mul, Nat.zero_mul, Nat.mul_zero] at low
  have := Nat.mul_pos (Nat.lt_of_lt_of_le Nat.two_pos (Double.two_le_lowEnd positive))
    (Nat.pow_pos (n := (-d.exponent).toNat) (show 0 < 10 by decide))
  exact absurd low (Nat.not_le.mpr this)

theorem pow_ten_le {m n : Nat} (h : m ≤ n) : Nat.pow 10 m ≤ Nat.pow 10 n :=
  Nat.pow_le_pow_right (by decide) h

/-- The largest doubles have few hundred digits. -/
theorem Meets.exponent_le (h : d.Meets units) (fits : Double.Fits units) (positive : 0 < units) :
    d.exponent ≤ 400 := by
  by_contra large
  obtain ⟨-, high⟩ := h.within.bounds
  rw [show (-d.exponent).toNat = 0 by omega] at high
  obtain ⟨beyond, -⟩ := powers_reach
  generalize htop : 401 = top at beyond
  have far : Nat.pow 10 top ≤ d.digits * Nat.pow 10 d.exponent.toNat := by
    calc Nat.pow 10 top ≤ Nat.pow 10 d.exponent.toNat := pow_ten_le (by omega)
      _ ≤ _ := Nat.le_mul_of_pos_left _ (h.digits_pos positive)
  have := Double.highEnd_lt fits positive
  have : Double.highEnd units * Nat.pow 10 0 = Double.highEnd units := Nat.mul_one _
  have := Nat.mul_le_mul_right Double.one far
  omega

/-- The digits of the smallest doubles begin few hundred places behind the point. -/
theorem Meets.le_exponent (h : d.Meets units) (positive : 0 < units) :
    -(400 + d.digits.log2 : Int) ≤ d.exponent := by
  by_contra small
  obtain ⟨low, -⟩ := h.within.bounds
  rw [show d.exponent.toNat = 0 by omega] at low
  obtain ⟨-, large, -⟩ := powers_reach
  generalize htop : 401 = top at large
  have near : Nat.pow 10 top * 2 ^ d.digits.log2 ≤ Nat.pow 10 (-d.exponent).toNat := by
    calc Nat.pow 10 top * 2 ^ d.digits.log2
        ≤ Nat.pow 10 top * Nat.pow 10 d.digits.log2 :=
          Nat.mul_le_mul_left _ (Nat.pow_le_pow_left (by decide) _)
      _ = Nat.pow 10 (top + d.digits.log2) := (Nat.pow_add 10 _ _).symm
      _ ≤ _ := pow_ten_le (by omega)
  have below : d.digits < 2 * 2 ^ d.digits.log2 := by
    rw [← Nat.pow_succ']
    exact Nat.lt_log2_self
  have : 2 * (Nat.pow 10 top * 2 ^ d.digits.log2) < 4 * (2 * 2 ^ d.digits.log2 * Double.one) :=
    calc 2 * (Nat.pow 10 top * 2 ^ d.digits.log2)
        ≤ Double.lowEnd units * Nat.pow 10 (-d.exponent).toNat :=
          Nat.mul_le_mul (Double.two_le_lowEnd positive) near
      _ ≤ 4 * (d.digits * Double.one) := by simpa using low
      _ < _ := by
          have := Nat.mul_lt_mul_of_pos_right below Double.one_pos
          omega
  have := Nat.mul_le_mul_right (2 ^ d.digits.log2) large
  have : 4 * (2 * 2 ^ d.digits.log2 * Double.one) =
      2 * (4 * Double.one * 2 ^ d.digits.log2) := by ring
  omega

end Decimal

namespace Double

variable {units : Nat} {d : Decimal}

/-- What lies in the interval of a double is rounded to it. -/
theorem ofDecimal_of_meets (negative : Bool) (fits : Fits units) (positive : 0 < units)
    (h : d.Meets units) : ofDecimal negative d.digits d.exponent = finite negative units fits := by
  have within := h.within
  have found {num den : Nat} (hden : 0 < den)
      (h : Within (lowEnd units * den) (highEnd units * den) (takesEnds units) (4 * num)) :
      nearest negative num den = finite negative units fits := by
    have rounded := roundBits_of_within fits.bits hden positive h
    unfold nearest
    simp only [rounded, dif_pos fits.bounded]
  rw [ofDecimal, if_neg (Nat.ne_of_gt (h.digits_pos positive)),
    if_neg (Int.not_lt.mpr (h.exponent_le fits positive)),
    if_neg (Int.not_lt.mpr (h.le_exponent positive))]
  split
  · next whole =>
    rw [show (-d.exponent).toNat = 0 by omega] at within
    exact found Nat.one_pos within
  · next fraction =>
    rw [show d.exponent.toNat = 0 by omega, show Nat.pow 10 0 = 1 from rfl, Nat.mul_one] at within
    exact found (Nat.pow_pos (show 0 < 10 by decide)) within

end Double

/-! ### The search -/

namespace Decimal

variable {units : Nat}

theorem value_normalize (fuel : Nat) (d : Decimal) : (normalize fuel d).value = d.value := by
  induction fuel generalizing d with
  | zero => rfl
  | succ fuel ih =>
    rw [normalize]
    split
    · next zero =>
      rw [ih, value, value, zpow_add_one₀ (by norm_num)]
      have : ((d.digits / 10 : ℕ) : ℚ) * 10 = d.digits := by
        exact_mod_cast Nat.div_mul_cancel (Nat.dvd_of_mod_eq_zero zero)
      rw [← this]
      ring
    · rfl

/-- The first digit of a double stands where the search expects it. -/
theorem zpow_pointPosition_le (positive : 0 < units) :
    (10 : ℚ) ^ (pointPosition units - 1) ≤ units / Double.one := by
  have one : (0 : ℚ) < Double.one := by exact_mod_cast Double.one_pos
  obtain ⟨-, -, far⟩ := powers_reach
  unfold pointPosition
  generalize 330 = places at far ⊢
  generalize hscaled : units * Nat.pow 10 places / Double.one = scaled
  generalize hlength : (Nat.toDigits 10 scaled).length = length
  have some : scaled ≠ 0 := by
    rw [← hscaled]
    exact Nat.ne_of_gt (Nat.div_pos (far.trans (Nat.le_mul_of_pos_left _ positive)) Double.one_pos)
  have digits : 10 ^ (length - 1) ≤ scaled := by
    by_contra few
    rcases Nat.eq_zero_or_pos (length - 1) with zero | more
    · rw [zero] at few
      omega
    · have := (Nat.length_toDigits_le_iff (b := 10) (by decide) more).mpr (Nat.not_le.mp few)
      omega
  have counted : 0 < length := hlength ▸ Nat.length_toDigits_pos
  have parts : (10 : ℚ) ^ (length - 1) * Double.one ≤ units * 10 ^ places := by
    have := (Nat.mul_le_mul_right Double.one digits).trans
      (hscaled ▸ Nat.div_mul_le_self _ _)
    exact_mod_cast this
  rw [show (length : ℤ) - places - 1 = (length - 1 : ℕ) - places by omega,
    zpow_sub₀ (by norm_num), zpow_natCast, zpow_natCast, div_le_div_iff₀ (by positivity) one]
  exact parts

/-- A decimal of seventeen digits is so close to the next that one of them is in the interval. -/
theorem gap_lt (bits : SignificantBits units) (positive : 0 < units) :
    4 * units < 10 ^ 16 * (Double.backSpacing units + 2 * Double.spacing units) := by
  have spaced := Double.spacing_pos units
  by_cases power : units = Nat.pow 2 units.log2 ∧ 1 < Double.spacing units
  · obtain ⟨power, wide⟩ := power
    have size : units = 2 ^ 52 * Double.spacing units := by
      have : 52 < units.log2 := by
        by_contra dense
        rw [Double.spacing, Nat.sub_eq_zero_of_le (Nat.not_lt.mp dense)] at wide
        exact absurd wide (by decide)
      rw [Double.spacing, Nat.pow_eq, ← Nat.pow_add, Nat.add_sub_cancel' this.le]
      exact power
    have := Double.spacing_le_backSpacing units
    omega
  · have back : Double.backSpacing units = 2 * Double.spacing units := by
      unfold Double.backSpacing
      rw [if_neg]
      rwa [Bool.and_eq_true, decide_eq_true_eq, decide_eq_true_eq]
    obtain ⟨n, small, hn⟩ := Double.exists_eq_mul_spacing bits
    have := Nat.mul_lt_mul_of_pos_right small spaced
    omega

theorem inside_of_ofCount? {low high count : Nat} {closed : Bool} {point : Int} {d : Decimal}
    (h : ofCount? units low high closed point count = some d) :
    d.inside low high closed = true := by
  unfold ofCount? at h
  dsimp only at h
  split at h
  · next below above =>
    split at h
    · exact Option.some.inj h ▸ below
    · exact Option.some.inj h ▸ above
  · next below _ => exact Option.some.inj h ▸ below
  · next _ above => exact Option.some.inj h ▸ above
  · exact absurd h (by simp)

/-- Of two neighbours on both sides of a number that are closer than the ends of an interval around
it, one is in the interval. -/
theorem inside_or_inside {low high x below above : ℚ} {closed : Bool} (hbelow : below ≤ x)
    (habove : x < above) (hlow : low < x) (hhigh : x < high) (gap : above - below < high - low) :
    Within low high closed below ∨ Within low high closed above := by
  rcases lt_or_ge low below with inside | outside
  · exact .inl (within_of_lt inside (hbelow.trans_lt hhigh))
  · exact .inr (within_of_lt (hlow.trans habove) (by linarith))

/-- The two neighbours of a double among the decimals of an exponent. -/
theorem neighbours (units : Nat) (e : Int) :
    let digits := units * Nat.pow 10 (-e).toNat / (Double.one * Nat.pow 10 e.toNat)
    value ⟨digits, e⟩ * (4 * Double.one : ℕ) ≤ 4 * units ∧
      4 * units < value ⟨digits + 1, e⟩ * (4 * Double.one : ℕ) := by
  intro digits
  have hden : 0 < Double.one * Nat.pow 10 e.toNat :=
    Nat.mul_pos Double.one_pos (Nat.pow_pos (by decide))
  have scale : (0 : ℚ) < 10 ^ (-e).toNat := by positivity
  have low : (digits * (Double.one * 10 ^ e.toNat) : ℚ) ≤ units * 10 ^ (-e).toNat := by
    exact_mod_cast Nat.div_mul_le_self _ _
  have high : (units * 10 ^ (-e).toNat : ℚ) < Double.one * 10 ^ e.toNat * (digits + 1) := by
    exact_mod_cast Nat.lt_mul_div_succ _ hden
  rw [← zpow_mul_pow_toNat e] at low high
  unfold value
  push_cast
  constructor
  · refine le_of_mul_le_mul_right ?_ scale
    linarith
  · refine lt_of_mul_lt_mul_right ?_ scale.le
    linarith

theorem exists_ofCount?_of_inside {low high count : Nat} {closed : Bool} {point : Int}
    (h : let e := point - (count : ℤ)
      let digits := units * Nat.pow 10 (-e).toNat / (Double.one * Nat.pow 10 e.toNat)
      inside low high closed ⟨digits, e⟩ = true ∨ inside low high closed ⟨digits + 1, e⟩ = true) :
    ∃ d, ofCount? units low high closed point count = some d := by
  unfold ofCount?
  dsimp only at h ⊢
  split
  · split
    · exact ⟨_, rfl⟩
    · exact ⟨_, rfl⟩
  · exact ⟨_, rfl⟩
  · exact ⟨_, rfl⟩
  · next outside outside' =>
    rw [outside, outside'] at h
    exact absurd h (by decide)

/-- Seventeen digits are enough for every double. -/
theorem exists_ofCount? (bits : SignificantBits units) (positive : 0 < units) :
    ∃ d, ofCount? units (Double.lowEnd units) (Double.highEnd units) (Double.takesEnds units)
      (pointPosition units) 17 = some d := by
  refine exists_ofCount?_of_inside ?_
  intro e digits
  obtain ⟨below, above⟩ := neighbours units e
  have one : (0 : ℚ) < Double.one := by exact_mod_cast Double.one_pos
  have spaced : (0 : ℚ) < Double.spacing units := by exact_mod_cast Double.spacing_pos units
  have back : (Double.spacing units : ℚ) ≤ Double.backSpacing units := by
    exact_mod_cast Double.spacing_le_backSpacing units
  have low : (Double.lowEnd units : ℚ) + Double.backSpacing units = 4 * units := by
    exact_mod_cast Double.lowEnd_add positive
  have high : (Double.highEnd units : ℚ) = 4 * units + 2 * Double.spacing units := by
    simp [Double.highEnd]
  have near :
      (4 * units : ℚ) < 10 ^ 16 * (Double.backSpacing units + 2 * Double.spacing units) := by
    exact_mod_cast gap_lt bits positive
  have step : value ⟨digits + 1, e⟩ * (4 * Double.one : ℕ) -
      value ⟨digits, e⟩ * (4 * Double.one : ℕ) = 10 ^ e * (4 * Double.one) := by
    unfold value
    push_cast
    ring
  have first : (10 : ℚ) ^ e * (4 * Double.one) * 10 ^ 16 ≤ 4 * units := by
    have whole := zpow_pointPosition_le positive
    rw [le_div_iff₀ one, show pointPosition units - 1 = e + (16 : ℕ) by omega,
      zpow_add₀ (by norm_num), zpow_natCast] at whole
    linarith
  have found : Meets units ⟨digits, e⟩ ∨ Meets units ⟨digits + 1, e⟩ :=
    inside_or_inside below above (by linarith) (by linarith) (by rw [step]; linarith)
  rwa [meets_iff_inside, meets_iff_inside] at found

/-- The shortest decimal is rounded to its double. -/
theorem meets_shortest (bits : SignificantBits units) (positive : 0 < units) :
    (shortest units).Meets units := by
  let search (n : Nat) : Option Decimal := ofCount? units (Double.lowEnd units)
    (Double.highEnd units) (Double.takesEnds units) (pointPosition units) (n + 1)
  have whole : shortest units =
      normalize 20 (((List.range 17).findSome? search).getD ⟨0, 0⟩) := rfl
  obtain ⟨last, hlast⟩ := exists_ofCount? bits positive
  cases tried : (List.range 17).findSome? search with
  | none =>
    have nothing := List.findSome?_eq_none_iff.mp tried 16 (by simp)
    exact absurd (nothing.symm.trans hlast) (by simp)
  | some found =>
    obtain ⟨n, -, hn⟩ := List.exists_of_findSome?_eq_some tried
    rw [whole, tried]
    exact (meets_iff_inside.mpr (inside_of_ofCount? hn)).of_value_eq (value_normalize 20 found)

end Decimal

end Montage
