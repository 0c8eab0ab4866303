import Mathlib.Order.Basic
import Mathlib.Tactic.Ring
import Montage.Number.Scalar

/-!
# Rounding keeps the order of numbers

Rounding to the nearest whole number, to 53 significant bits and to a double are monotone, and so
are the multiples of a positive double: a larger whole factor never gives a smaller product,
although two factors may give the same one. The same goes for the differences with one number.
-/

namespace Montage

/-- A larger quotient is not rounded to a smaller whole number. -/
theorem roundDiv_mono {a b den : Nat} (h : a ≤ b) : roundDiv a den ≤ roundDiv b den := by
  have quotients := Nat.div_le_div_right (c := den) h
  rcases Nat.lt_or_ge (a / den) (b / den) with apart | together
  · -- The upper neighbour of the smaller quotient is at most the larger quotient.
    refine (roundDiv_le a den).trans (apart.trans_le ?_)
    unfold roundDiv
    split
    · exact Nat.le_refl _
    · exact Nat.le_succ _
  · have same : a / den = b / den := Nat.le_antisymm quotients together
    have rests : a % den ≤ b % den := by
      have ha := Nat.div_add_mod a den
      have hb := Nat.div_add_mod b den
      rw [same] at ha
      omega
    unfold roundDiv
    rw [same]
    split_ifs <;> omega

/-- A whole number is rounded to itself. -/
theorem roundDiv_mul_self (n : Nat) {den : Nat} (h : 0 < den) : roundDiv (n * den) den = n := by
  simp [roundDiv, h, Nat.mul_div_cancel _ h]

/-- A double is rounded to itself. -/
theorem roundBits_self {units : Nat} (bits : SignificantBits units) : roundBits units 1 = units := by
  obtain ⟨n, hn⟩ := bits
  have spaced : 0 < Nat.pow 2 (units.log2 - 52) := Nat.two_pow_pos _
  rw [roundBits, bitSpacing, Nat.div_one, Nat.one_mul]
  generalize Nat.pow 2 (units.log2 - 52) = spacing at hn spaced
  rw [hn, Nat.mul_comm spacing n, roundDiv_mul_self n spaced]

theorem bitSpacing_pos (num den : Nat) : 0 < bitSpacing num den := Nat.two_pow_pos _

/-- Both bounds on a 53 bit number next to the power of two above its quotient. -/
theorem roundBits_le_two_pow {num den e : Nat} (hden : 0 < den) (h : num / den < 2 ^ e)
    (he : 53 ≤ e) : roundBits num den ≤ 2 ^ e := by
  have spacing : bitSpacing num den ∣ 2 ^ e := by
    rw [bitSpacing, Nat.pow_eq]
    by_cases hz : num / den = 0
    · simp [hz]
    · exact Nat.pow_dvd_pow 2 (by have := (Nat.log2_lt hz).mpr h; omega)
  obtain ⟨k, hk⟩ := spacing
  have hnum : num ≤ k * (den * bitSpacing num den) := by
    have := (Nat.div_lt_iff_lt_mul hden).mp h
    rw [hk] at this
    calc num ≤ bitSpacing num den * k * den := this.le
      _ = k * (den * bitSpacing num den) := by ring
  calc roundBits num den ≤ k * bitSpacing num den := by
        refine Nat.mul_le_mul_right _ ((roundDiv_mono hnum).trans_eq ?_)
        exact roundDiv_mul_self k (Nat.mul_pos hden (bitSpacing_pos num den))
    _ = 2 ^ e := by rw [hk, Nat.mul_comm]

theorem two_pow_le_roundBits {num den e : Nat} (hden : 0 < den) (h : 2 ^ e ≤ num / den)
    (he : (num / den).log2 = e) : 2 ^ e ≤ roundBits num den := by
  have spacing : bitSpacing num den ∣ 2 ^ e := by
    rw [bitSpacing, Nat.pow_eq, he]
    exact Nat.pow_dvd_pow 2 (Nat.sub_le _ _)
  obtain ⟨k, hk⟩ := spacing
  have hnum : k * (den * bitSpacing num den) ≤ num := by
    calc k * (den * bitSpacing num den) = 2 ^ e * den := by rw [hk]; ring
      _ ≤ num / den * den := Nat.mul_le_mul_right _ h
      _ ≤ num := Nat.div_mul_le_self num den
  calc 2 ^ e = k * bitSpacing num den := by rw [hk, Nat.mul_comm]
    _ ≤ roundBits num den := by
        refine Nat.mul_le_mul_right _ (Eq.trans_le ?_ (roundDiv_mono hnum))
        exact (roundDiv_mul_self k (Nat.mul_pos hden (bitSpacing_pos num den))).symm

/-- A larger quotient does not get a smaller 53 bit number. -/
theorem roundBits_mono {a b den : Nat} (hden : 0 < den) (h : a ≤ b) :
    roundBits a den ≤ roundBits b den := by
  have quotients := Nat.div_le_div_right (c := den) h
  rcases Nat.lt_or_ge (a / den).log2 (b / den).log2 with apart | together
  · by_cases small : (b / den).log2 ≤ 52
    · -- Both are rounded to whole numbers.
      have ha : bitSpacing a den = 1 := by
        rw [bitSpacing, Nat.sub_eq_zero_of_le (by omega), Nat.pow_eq, Nat.pow_zero]
      have hb : bitSpacing b den = 1 := by
        rw [bitSpacing, Nat.sub_eq_zero_of_le small, Nat.pow_eq, Nat.pow_zero]
      have rounded : roundDiv a den ≤ roundDiv b den := roundDiv_mono h
      simpa [roundBits, ha, hb] using rounded
    · -- A power of two lies between them.
      have hb : b / den ≠ 0 := by
        intro hz
        simp [hz] at small
      have below : a / den < 2 ^ (b / den).log2 := by
        by_cases hz : a / den = 0
        · rw [hz]; exact Nat.two_pow_pos _
        · exact (Nat.log2_lt hz).mp apart
      exact (roundBits_le_two_pow hden below (by omega)).trans
        (two_pow_le_roundBits hden (Nat.log2_self_le hb) rfl)
  · have same : (a / den).log2 = (b / den).log2 := by
      refine Nat.le_antisymm ?_ together
      by_cases hz : a / den = 0
      · simp [hz]
      · have hb : b / den ≠ 0 := fun hb => hz (Nat.le_zero.mp (hb ▸ quotients))
        exact (Nat.le_log2 hb).mpr ((Nat.log2_self_le hz).trans quotients)
    have spacing : bitSpacing a den = bitSpacing b den := by rw [bitSpacing, bitSpacing, same]
    rw [roundBits, roundBits, spacing]
    exact Nat.mul_le_mul_right _ (roundDiv_mono h)

namespace Double

theorem lt_iff {x y : Double} :
    x < y ↔ ∃ a b, x.position? = some a ∧ y.position? = some b ∧ a < b := by
  change x.lt y = true ↔ _
  unfold lt
  cases x.position? <;> cases y.position? <;> simp

theorem beq_iff {x y : Double} : (x == y) = true ↔
    ∃ a, x.position? = some a ∧ y.position? = some a := by
  unfold BEq.beq instBEq
  dsimp only
  cases x.position? with
  | none => simp
  | some a =>
    cases y.position? with
    | none => simp
    | some b => simp [eq_comm (a := a)]

theorem le_iff {x y : Double} :
    x ≤ y ↔ ∃ a b, x.position? = some a ∧ y.position? = some b ∧ a ≤ b := by
  change x.le y = true ↔ _
  unfold le
  cases x.position? <;> cases y.position? <;> simp

theorem not_le_of_lt {x y : Double} (h : x < y) : ¬ y ≤ x := fun le => by
  obtain ⟨a, b, ha, hb, less⟩ := Iff.mp lt_iff h
  obtain ⟨b', a', hb', ha', above⟩ := Iff.mp le_iff le
  have := Option.some.inj (ha.symm.trans ha')
  have := Option.some.inj (hb.symm.trans hb')
  omega

protected theorem lt_of_le_of_lt {x y z : Double} (le : x ≤ y) (less : y < z) : x < z := by
  obtain ⟨a, b, ha, hb, le⟩ := Iff.mp le_iff le
  obtain ⟨b', c, hb', hc, less⟩ := Iff.mp lt_iff less
  have := Option.some.inj (hb.symm.trans hb')
  exact Iff.mpr lt_iff ⟨a, c, ha, hc, by omega⟩

protected theorem le_trans {x y z : Double} (le : x ≤ y) (le' : y ≤ z) : x ≤ z := by
  obtain ⟨a, b, ha, hb, le⟩ := Iff.mp le_iff le
  obtain ⟨b', c, hb', hc, le'⟩ := Iff.mp le_iff le'
  have := Option.some.inj (hb.symm.trans hb')
  exact Iff.mpr le_iff ⟨a, c, ha, hc, by omega⟩

/-- Numbers can be compared. -/
theorem le_of_not_le {x y : Double} (hx : x.position?.isSome) (hy : y.position?.isSome)
    (h : ¬ x ≤ y) : y ≤ x := by
  obtain ⟨a, ha⟩ := Option.isSome_iff_exists.mp hx
  obtain ⟨b, hb⟩ := Option.isSome_iff_exists.mp hy
  have above : ¬ a ≤ b := fun le => h (Iff.mpr le_iff ⟨a, b, ha, hb, le⟩)
  exact Iff.mpr le_iff ⟨b, a, hb, ha, by omega⟩

theorem le_of_not_lt {x y : Double} (hx : x.position?.isSome) (hy : y.position?.isSome)
    (h : ¬ x < y) : y ≤ x := by
  obtain ⟨a, ha⟩ := Option.isSome_iff_exists.mp hx
  obtain ⟨b, hb⟩ := Option.isSome_iff_exists.mp hy
  have notBelow : ¬ a < b := fun less => h (Iff.mpr lt_iff ⟨a, b, ha, hb, less⟩)
  exact Iff.mpr le_iff ⟨b, a, hb, ha, by omega⟩

theorem not_lt_of_position? {x y : Double} {a b : Int} (hx : x.position? = some a)
    (hy : y.position? = some b) (h : b ≤ a) : ¬ x < y := fun less => by
  obtain ⟨a', b', ha, hb, less⟩ := Iff.mp lt_iff less
  have := Option.some.inj (hx.symm.trans ha)
  have := Option.some.inj (hy.symm.trans hb)
  omega

theorem not_beq_of_lt {x y : Double} (h : x < y) : ¬ (y == x) = true := fun same => by
  obtain ⟨a, b, ha, hb, less⟩ := Iff.mp lt_iff h
  obtain ⟨c, hc, hc'⟩ := Iff.mp beq_iff same
  have := Option.some.inj (ha.symm.trans hc')
  have := Option.some.inj (hb.symm.trans hc)
  omega

theorem beq_symm {x y : Double} (same : (x == y) = true) : (y == x) = true :=
  Iff.mpr beq_iff ((Iff.mp beq_iff same).imp fun _ h => h.symm)

theorem position?_zero : (Scalar.zero : Double).position? = some 0 := by
  change (ofDecimal (decide ((0 : Int) < 0)) 0 0).position? = some 0
  simp [ofDecimal, signedZero, position?, signed]

theorem le_of_lt {x y : Double} (h : x < y) : x ≤ y := by
  obtain ⟨a, b, ha, hb, less⟩ := Iff.mp lt_iff h
  exact Iff.mpr le_iff ⟨a, b, ha, hb, Int.le_of_lt less⟩

/-- Only the two zeros share a place. -/
theorem eq_of_position? {x y : Double} {a : Int} (hx : x.position? = some a) (hy : y.position? = some a)
    (away : a ≠ 0) : x = y := by
  have same {negative negative' : Bool} {m n : Nat} (hm : signed negative m = a)
      (hn : signed negative' n = a) : negative = negative' ∧ m = n := by
    unfold signed at hm hn
    cases negative <;> cases negative' <;> simp at hm hn ⊢ <;> omega
  cases x with
  | nan => cases hx
  | infinite negative =>
    cases y with
    | nan => cases hy
    | infinite negative' => rw [(same (Option.some.inj hx) (Option.some.inj hy)).1]
    | finite negative' n fits =>
      have := (same (Option.some.inj hx) (Option.some.inj hy)).2
      exact absurd fits.bounded (this ▸ Nat.lt_irrefl _)
  | finite negative m fits =>
    cases y with
    | nan => cases hy
    | infinite negative' =>
      have := (same (Option.some.inj hx) (Option.some.inj hy)).2
      exact absurd fits.bounded (this ▸ Nat.lt_irrefl _)
    | finite negative' n fits' =>
      obtain ⟨rfl, rfl⟩ := same (Option.some.inj hx) (Option.some.inj hy)
      rfl

/-- What is not at most zero is no number, an infinity or a positive number. -/
theorem eq_of_not_le_zero {x : Double} (h : ¬ x ≤ Scalar.zero) :
    x = nan ∨ x = infinite false ∨ ∃ units fits, 0 < units ∧ x = finite false units fits := by
  have above : ∀ a, x.position? = some a → 0 < a := fun a ha =>
    Int.not_le.mp fun le => h (Iff.mpr le_iff ⟨a, 0, ha, position?_zero, le⟩)
  cases x with
  | nan => exact .inl rfl
  | infinite negative =>
    cases negative with
    | false => exact .inr (.inl rfl)
    | true =>
      have := above _ rfl
      simp only [signed, if_true] at this
      omega
  | finite negative units fits =>
    have := above _ rfl
    cases negative with
    | false => exact .inr (.inr ⟨units, fits, by simpa [signed] using this, rfl⟩)
    | true =>
      simp only [signed, if_true] at this
      omega

/-- What equals a number that is not at most zero is that number. -/
theorem eq_of_beq_of_not_le_zero {x y : Double} (above : ¬ x ≤ Scalar.zero) (same : (x == y) = true) :
    x = y := by
  obtain ⟨a, hx, hy⟩ := Iff.mp beq_iff same
  refine eq_of_position? hx hy fun zero => above ?_
  exact Iff.mpr le_iff ⟨a, 0, hx, position?_zero, Int.le_of_eq zero⟩

theorem zero_le_zero : (Scalar.zero : Double) ≤ Scalar.zero :=
  Iff.mpr le_iff ⟨0, 0, position?_zero, position?_zero, Int.le_refl _⟩

/-- What is neither at most zero nor above it is no number. -/
theorem eq_nan_of_not_le_zero {x : Double} (above : ¬ x ≤ Scalar.zero) (notAbove : ¬ Scalar.zero < x) :
    x = nan := by
  cases place : x.position? with
  | none =>
    cases x with
    | nan => rfl
    | infinite negative => cases place
    | finite negative units fits => cases place
  | some a =>
    rcases lt_or_ge 0 a with positive | atMost
    · exact absurd (Iff.mpr lt_iff ⟨0, a, position?_zero, place, positive⟩) notAbove
    · exact absurd (Iff.mpr le_iff ⟨a, 0, place, position?_zero, atMost⟩) above

/-- The place of the double nearest to a quotient, an infinity being at the end. -/
theorem position?_nearest (negative : Bool) (num den : Nat) :
    (nearest negative num den).position? =
      some (signed negative (min (roundBits num den) limit)) := by
  by_cases h : roundBits num den < limit
  · rw [nearest, dif_pos h, Nat.min_eq_left h.le]
    rfl
  · rw [nearest, dif_neg h, Nat.min_eq_right (Nat.not_lt.mp h)]
    rfl

theorem one_pos : 0 < one := by
  unfold one
  generalize 1074 = n
  exact Nat.two_pow_pos n

theorem mul_nan (x : Double) : mul x nan = nan := by
  cases x <;> rfl

theorem infinite_mul (negative negative' : Bool) :
    mul (infinite negative) (infinite negative') = infinite (negative != negative') := rfl

theorem finite_mul_infinite {units : Nat} (negative negative' : Bool) (fits : Fits units) :
    mul (finite negative units fits) (infinite negative') =
      if units = 0 then nan else infinite (negative' != negative) := rfl

theorem infinite_mul_finite {units : Nat} (negative negative' : Bool) (fits : Fits units) :
    mul (infinite negative) (finite negative' units fits) =
      if units = 0 then nan else infinite (negative != negative') := rfl

/-- A whole multiple of infinity is infinity, unless it is no number. -/
theorem mul_infinite_place {num den : Nat} {a : Int}
    (h : (mul (nearest false num den) (infinite false)).position? = some a) : a = limit := by
  have far : (infinite false).position? = some (limit : Int) := rfl
  by_cases small : roundBits num den < limit
  · rw [nearest, dif_pos small, finite_mul_infinite] at h
    by_cases hz : roundBits num den = 0
    · rw [if_pos hz] at h
      cases h
    · rw [if_neg hz] at h
      exact Option.some.inj (h.symm.trans far)
  · rw [nearest, dif_neg small, infinite_mul] at h
    exact Option.some.inj (h.symm.trans far)

/-- A whole number as a double. -/
theorem whole_eq_nearest (i : Nat) : (Scalar.whole i : Double) = nearest false (i * one) 1 := by
  change ofDecimal (decide ((i : Int) < 0)) i (-((0 : Nat) : Int)) = _
  have sign : decide ((i : Int) < 0) = false := by simp
  rw [sign]
  rcases Nat.eq_zero_or_pos i with rfl | hi
  · have rounded : roundBits 0 1 = 0 := by simp [roundBits, roundDiv, bitSpacing]
    simp [ofDecimal, nearest, rounded, limit_pos, signedZero]
  · have hne : i ≠ 0 := Nat.ne_of_gt hi
    rw [ofDecimal, if_neg hne, if_neg (by decide), if_neg (by omega), if_pos (by decide), ofRatio]
    simp

/-- The place of a multiple of a positive double. -/
def multiplePlace (units i : Nat) : Nat :=
  if roundBits (i * one) 1 < limit then min (roundBits (roundBits (i * one) 1 * units) one) limit
  else limit

theorem multiplePlace_mono {units i j : Nat} (h : i ≤ j) :
    multiplePlace units i ≤ multiplePlace units j := by
  have factors : roundBits (i * one) 1 ≤ roundBits (j * one) 1 :=
    roundBits_mono Nat.one_pos (Nat.mul_le_mul_right _ h)
  unfold multiplePlace
  split_ifs with hi hj hj
  · exact min_le_min_right _ (roundBits_mono one_pos (Nat.mul_le_mul_right _ factors))
  · exact min_le_right _ _
  · exact absurd (factors.trans_lt hj) hi
  · exact Nat.le_refl _

theorem position?_whole_mul {units i : Nat} (fits : Fits units) (positive : 0 < units) :
    (Scalar.whole i * finite false units fits).position? = some (multiplePlace units i : Int) := by
  rw [whole_eq_nearest]
  change (mul (nearest false (i * one) 1) (finite false units fits)).position? = _
  unfold multiplePlace
  by_cases h : roundBits (i * one) 1 < limit
  · rw [nearest, dif_pos h, if_pos h]
    exact position?_nearest false _ _
  · rw [nearest, dif_neg h, if_neg h, infinite_mul_finite, if_neg (Nat.ne_of_gt positive)]
    rfl

/-! ### Differences -/

/-- The place of the double nearest to a whole number of units. -/
def roundedPlace (units : Int) : Int :=
  signed (units < 0) (min (roundBits units.natAbs 1) limit)

theorem roundedPlace_bounds (units : Int) :
    -(limit : Int) ≤ roundedPlace units ∧ roundedPlace units ≤ limit := by
  have below : min (roundBits units.natAbs 1) limit ≤ limit := min_le_right _ _
  unfold roundedPlace signed
  split <;> omega

theorem roundedPlace_mono {s t : Int} (h : s ≤ t) : roundedPlace s ≤ roundedPlace t := by
  have bigger {m n : Nat} (h : m ≤ n) :
      min (roundBits m 1) limit ≤ min (roundBits n 1) limit :=
    min_le_min_right _ (roundBits_mono Nat.one_pos h)
  unfold roundedPlace signed
  by_cases hs : s < 0
  · by_cases ht : t < 0
    · -- Below zero, the number that is farther from zero is the smaller one.
      have := bigger (show t.natAbs ≤ s.natAbs by omega)
      rw [decide_eq_true hs, decide_eq_true ht, if_pos rfl, if_pos rfl]
      omega
    · rw [decide_eq_true hs, decide_eq_false ht, if_pos rfl, if_neg Bool.false_ne_true]
      omega
  · have ht : ¬ t < 0 := by omega
    have := bigger (show s.natAbs ≤ t.natAbs by omega)
    rw [decide_eq_false hs, decide_eq_false ht, if_neg Bool.false_ne_true,
      if_neg Bool.false_ne_true]
    omega

/-- The place of a number less a finite one that is at `c`: infinities stay where they are. -/
def differencePlace (c p : Int) : Int :=
  if p ≤ -limit then -limit else if limit ≤ p then limit else roundedPlace (p - c)

theorem differencePlace_mono {c p q : Int} (h : p ≤ q) :
    differencePlace c p ≤ differencePlace c q := by
  obtain ⟨low, high⟩ := roundedPlace_bounds (p - c)
  obtain ⟨low', high'⟩ := roundedPlace_bounds (q - c)
  have between : roundedPlace (p - c) ≤ roundedPlace (q - c) := roundedPlace_mono (by omega)
  have positive := limit_pos
  unfold differencePlace
  split_ifs <;> omega

theorem position?_sub_finite (x : Double) (negative : Bool) {units : Nat} (fits : Fits units) :
    (x - finite negative units fits).position? =
      x.position?.map (differencePlace (signed negative units)) := by
  have positive := limit_pos
  cases x with
  | nan => rfl
  | infinite up =>
    cases up with
    | false =>
      change some (limit : Int) = some (differencePlace _ limit)
      rw [differencePlace, if_neg (by omega), if_pos (Int.le_refl _)]
    | true =>
      change some (-(limit : Int)) = some (differencePlace _ (-limit))
      rw [differencePlace, if_pos (Int.le_refl _)]
  | finite up count fits' =>
    have inside : ¬ signed up count ≤ -limit ∧ ¬ (limit : Int) ≤ signed up count := by
      have := fits'.bounded
      unfold signed
      split <;> omega
    have opposite : signed (!negative) units = -signed negative units := by
      cases negative <;> simp [signed]
    change (if signed up count + signed (!negative) units = 0 then signedZero (up && !negative)
      else nearest (signed up count + signed (!negative) units < 0)
        (signed up count + signed (!negative) units).natAbs 1).position? =
      some (differencePlace _ (signed up count))
    rw [opposite, ← Int.sub_eq_add_neg, differencePlace, if_neg inside.1, if_neg inside.2]
    by_cases same : signed up count - signed negative units = 0
    · rw [if_pos same, same]
      have rounded : roundBits 0 1 = 0 := by simp [roundBits, roundDiv, bitSpacing]
      cases up <;> cases negative <;> simp [signedZero, position?, roundedPlace, signed, rounded]
    · rw [if_neg same, position?_nearest]
      rfl

/-- Less an infinity, every number is at one place. -/
theorem sub_infinite_place {x : Double} {negative : Bool} {a : Int}
    (h : (x - infinite negative).position? = some a) : a = signed (!negative) limit := by
  cases x with
  | nan => cases h
  | infinite up =>
    change (if up = !negative then infinite up else nan).position? = some a at h
    split at h
    · next same =>
      rw [← same]
      exact (Option.some.inj h).symm
    · cases h
  | finite up count fits => exact (Option.some.inj h).symm

/-- Of two differences with one number, the smaller one is that of the smaller number. -/
theorem lt_of_sub_lt_sub {x y w : Double} (h : y - w < x - w) : y < x := by
  obtain ⟨a, b, ha, hb, less⟩ := Iff.mp lt_iff h
  cases w with
  | nan =>
    have nothing : y - nan = nan := by cases y <;> rfl
    rw [nothing] at ha
    cases ha
  | infinite negative =>
    rw [sub_infinite_place ha, sub_infinite_place hb] at less
    exact absurd less (Int.lt_irrefl _)
  | finite negative units fits =>
    rw [position?_sub_finite, Option.map_eq_some_iff] at ha hb
    obtain ⟨p, hp, rfl⟩ := ha
    obtain ⟨q, hq, rfl⟩ := hb
    refine Iff.mpr lt_iff ⟨p, q, hp, hq, ?_⟩
    by_contra above
    exact absurd less (Int.not_lt.mpr (differencePlace_mono (Int.not_lt.mp above)))

/-- No double is beyond positive infinity. -/
theorem position?_le_limit {x : Double} {p : Int} (h : x.position? = some p) : p ≤ limit := by
  have positive := limit_pos
  cases x with
  | nan => cases h
  | infinite negative =>
    obtain rfl := Option.some.inj h
    unfold signed
    split <;> omega
  | finite negative units fits =>
    obtain rfl := Option.some.inj h
    have := fits.bounded
    unfold signed
    split <;> omega

/-- Only infinities have a difference that is no number. -/
theorem sub_position?_isSome {x w : Double} {p c : Int} (hx : x.position? = some p)
    (hw : w.position? = some c) (above : -(limit : Int) < p) (below : c < limit) :
    ((x - w).position?).isSome := by
  cases w with
  | nan => cases hw
  | infinite negative =>
    cases negative with
    | false =>
      obtain rfl := Option.some.inj hw
      exact absurd below (Int.lt_irrefl _)
    | true =>
      cases x with
      | nan => cases hx
      | infinite up =>
        cases up with
        | false => rfl
        | true =>
          obtain rfl := Option.some.inj hx
          exact absurd above (Int.lt_irrefl _)
      | finite up count fits => rfl
  | finite negative units fits =>
    rw [position?_sub_finite, hx]
    rfl

/-- Cut off at zero, a number stays below only what it was below. -/
theorem lt_of_maxOf_zero_lt {a b : Double} (number : b.position?.isSome)
    (h : Scalar.maxOf Scalar.zero b < Scalar.maxOf Scalar.zero a) : b < a := by
  obtain ⟨q, hq⟩ := Option.isSome_iff_exists.mp number
  unfold Scalar.maxOf at h
  by_cases above : Scalar.zero < a
  · obtain ⟨z, p, hz, hp, positive⟩ := Iff.mp lt_iff above
    obtain rfl := Option.some.inj (hz.symm.trans position?_zero)
    rw [if_pos above] at h
    by_cases above' : Scalar.zero < b
    · rwa [if_pos above'] at h
    · -- What is not above zero is below all that is.
      have below : ¬ 0 < q := fun h => above' (Iff.mpr lt_iff ⟨0, q, position?_zero, hq, h⟩)
      exact Iff.mpr lt_iff ⟨q, p, hq, hp, by omega⟩
  · rw [if_neg above] at h
    split at h
    · next above' =>
      obtain ⟨z, p, hz, hp, positive⟩ := Iff.mp lt_iff above'
      obtain ⟨p', z', hp', hz', negative⟩ := Iff.mp lt_iff h
      rw [Option.some.inj (hz.symm.trans position?_zero)] at positive
      rw [Option.some.inj (hz'.symm.trans position?_zero),
        Option.some.inj (hp'.symm.trans hp)] at negative
      omega
    · obtain ⟨z, z', hz, hz', less⟩ := Iff.mp lt_iff h
      rw [Option.some.inj (hz.symm.trans hz')] at less
      exact absurd less (Int.lt_irrefl _)

end Double

end Montage
