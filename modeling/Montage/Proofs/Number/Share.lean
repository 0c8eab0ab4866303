import Montage.Proofs.Number.Quotient
import Montage.Proofs.Number.Range
import Montage.Proofs.Number.Shortest

/-!
# Shares of a whole

Sums, products and quotients of numbers from zero on are at the place to which the exact outcome is
rounded. So a share of a number is at most that number, and the share that some items and a part of the
next one have in all of them is at most one, however the counts are rounded: where a count is moved, the
numbers are so far apart that a part of one more item leaves it where it is.

## Main definitions

* `Double.At` — a finite number from zero on, with its place

## Main results

* `At.add`, `At.mul`, `At.div` — the places of sums, products and quotients
* `At.exists_at_add_iff` — when a sum is finite
* `At.share_mul` — a share of a number is at most the number
* `exists_at_share` — what some items and a part of the next one are of all items
-/

namespace Montage.Double

variable {x y z : Double} {m n k i count : Nat}

/-! ### One more -/

theorem exists_one_eq_two_pow : ∃ e, one = 2 ^ e := by
  unfold one
  generalize 1074 = e
  exact ⟨e, rfl⟩

/-- What moved in rounding stays where it is for as little as it was a multiple of. -/
theorem roundBits_add_of_moved {d : Nat} (power : ∃ e, d = 2 ^ e) (little : k ≤ d)
    (moved : roundBits (i * d) 1 ≠ i * d) :
    roundBits (roundBits (i * d) 1 + k) 1 = roundBits (i * d) 1 := by
  obtain ⟨e, rfl⟩ := power
  have some : i * 2 ^ e ≠ 0 := fun none => moved (by rw [none, roundBits_zero])
  have rounded : roundBits (i * 2 ^ e) 1 =
      roundDiv (i * 2 ^ e) (bitSpacing (i * 2 ^ e) 1) * bitSpacing (i * 2 ^ e) 1 := by
    rw [roundBits, Nat.one_mul]
  have log : bitSpacing (i * 2 ^ e) 1 = 2 ^ ((i * 2 ^ e).log2 - 52) := by
    rw [bitSpacing, Nat.div_one]
    rfl
  -- The numbers are more than `d` apart, or the multiple would be one of them.
  have wide : e < (i * 2 ^ e).log2 - 52 := by
    by_contra narrow
    obtain ⟨c, hc⟩ : bitSpacing (i * 2 ^ e) 1 ∣ i * 2 ^ e := by
      rw [log]
      exact Dvd.dvd.mul_left (Nat.pow_dvd_pow 2 (Nat.not_lt.mp narrow)) i
    have spaced := bitSpacing_pos (i * 2 ^ e) 1
    refine moved (rounded.trans ?_)
    generalize bitSpacing (i * 2 ^ e) 1 = s at hc spaced ⊢
    rw [hc, Nat.mul_comm s, roundDiv_mul_self c spaced]
  have apart : 2 * 2 ^ e ≤ bitSpacing (i * 2 ^ e) 1 := by
    rw [log, ← Nat.pow_succ']
    exact Nat.pow_le_pow_right (by decide) wide
  have above : 2 ^ (i * 2 ^ e).log2 ≤ roundBits (i * 2 ^ e) 1 :=
    two_pow_le_roundBits Nat.one_pos (by rw [Nat.div_one]; exact Nat.log2_self_le some)
      (by rw [Nat.div_one])
  have positive : 0 < roundBits (i * 2 ^ e) 1 := (Nat.two_pow_pos _).trans_le above
  have spaced : bitSpacing (i * 2 ^ e) 1 ≤ spacing (roundBits (i * 2 ^ e) 1) := by
    rw [log]
    exact Nat.pow_le_pow_right (by decide)
      (Nat.sub_le_sub_right ((Nat.le_log2 positive.ne').mpr above) 52)
  -- Half a spacing away, the multiple was rounded to the even neighbour.
  have even (tie : spacing (roundBits (i * 2 ^ e) 1) = 2 * 2 ^ e) :
      takesEnds (roundBits (i * 2 ^ e) 1) = true := by
    have same : bitSpacing (i * 2 ^ e) 1 = 2 * 2 ^ e := by omega
    rw [same] at rounded
    have unit : 0 < 2 ^ e := Nat.two_pow_pos e
    have quotient : i * 2 ^ e / (2 * 2 ^ e) = i / 2 := Nat.mul_div_mul_right _ _ unit
    have remainder : i * 2 ^ e % (2 * 2 ^ e) = i % 2 * 2 ^ e := Nat.mul_mod_mul_right _ _ _
    have half : roundDiv (i * 2 ^ e) (2 * 2 ^ e) % 2 = 0 := by
      rcases Nat.mod_two_eq_zero_or_one i with whole | odd
      · refine absurd (rounded.trans ?_) moved
        rw [roundDiv, quotient, remainder, whole, Nat.zero_mul, if_pos (.inl (by omega)), ← Nat.mul_assoc,
          Nat.div_mul_cancel (Nat.dvd_of_mod_eq_zero whole)]
      · rw [roundDiv, quotient, remainder, odd, Nat.one_mul]
        split
        · next down => exact (down.resolve_left (Nat.lt_irrefl _)).2
        · next up =>
          have : i / 2 % 2 ≠ 0 := fun even => up (.inr ⟨rfl, even⟩)
          omega
    rw [takesEnds, tie, rounded, Nat.mul_div_cancel _ (by omega), half]
    rfl
  have low := lowEnd_add positive
  have back := spacing_le_backSpacing (roundBits (i * 2 ^ e) 1)
  have unit := spacing_pos (roundBits (i * 2 ^ e) 1)
  refine roundBits_of_within (significantBits_roundBits _ _) Nat.one_pos positive ?_
  unfold Within highEnd
  split
  · omega
  · next odd =>
    have : spacing (roundBits (i * 2 ^ e) 1) ≠ 2 * 2 ^ e := fun tie => odd (even tie)
    omega

/-- A count and a part of one more are rounded to at most the next count. -/
theorem roundBits_count_add_le (part : k ≤ one) :
    roundBits (roundBits (i * one) 1 + k) 1 ≤ roundBits ((i + 1) * one) 1 := by
  by_cases same : roundBits (i * one) 1 = i * one
  · rw [same]
    refine roundBits_mono Nat.one_pos ?_
    rw [Nat.add_mul, Nat.one_mul]
    exact Nat.add_le_add_left part _
  · rw [roundBits_add_of_moved exists_one_eq_two_pow part same]
    exact roundBits_mono Nat.one_pos (Nat.mul_le_mul_right _ (Nat.le_succ i))

theorem roundBits_count_pos (some : 0 < i) : 0 < roundBits (i * one) 1 := by
  have least : roundBits one 1 ≤ roundBits (i * one) 1 :=
    roundBits_mono Nat.one_pos (Nat.le_mul_of_pos_left one some)
  rw [roundBits_self (by simpa using (fits_whole (show 1 < 2 ^ 53 by norm_num)).bits)] at least
  exact one_pos.trans_le least

/-! ### Numbers from zero on -/

/-- A finite number that is not below zero, and its place. -/
def At (x : Double) (n : Nat) : Prop := x.position? = some (n : Int) ∧ n < limit

theorem signed_of_zero {negative : Bool} (h : negative = true → n = 0) : signed negative n = n := by
  cases negative with
  | false => rfl
  | true => rw [h rfl]; rfl

theorem at_iff : x.At n ↔
    ∃ negative fits, (negative = true → n = 0) ∧ x = finite negative n fits := by
  constructor
  · rintro ⟨place, bounded⟩
    cases x with
    | nan => cases place
    | infinite negative =>
      have := Option.some.inj place
      have far := limit_pos
      cases negative <;> simp only [signed, if_true, Bool.false_eq_true, if_false] at this <;> omega
    | finite negative count fits =>
      have place := Option.some.inj place
      cases negative with
      | false =>
        obtain rfl : count = n := Int.ofNat_inj.mp place
        exact ⟨false, fits, fun h => absurd h (by decide), rfl⟩
      | true =>
        simp only [signed, if_true] at place
        obtain rfl : count = 0 := by omega
        obtain rfl : n = 0 := by omega
        exact ⟨true, fits, fun _ => rfl, rfl⟩
  · rintro ⟨negative, fits, zero, rfl⟩
    exact ⟨congrArg some (signed_of_zero zero), fits.bounded⟩

theorem At.bits (h : x.At n) : SignificantBits n := by
  obtain ⟨_, fits, -⟩ := at_iff.mp h
  exact fits.bits

theorem At.le_iff (hx : x.At m) (hy : y.At n) : x ≤ y ↔ m ≤ n := by
  rw [Double.le_iff]
  constructor
  · rintro ⟨a, b, ha, hb, le⟩
    obtain rfl := Option.some.inj (hx.1.symm.trans ha)
    obtain rfl := Option.some.inj (hy.1.symm.trans hb)
    exact Int.ofNat_le.mp le
  · exact fun le => ⟨m, n, hx.1, hy.1, Int.ofNat_le.mpr le⟩

/-- What lies between zero and a finite number is such a number itself. -/
theorem exists_at_of_le (low : Scalar.zero ≤ x) (high : x ≤ y) (hy : y.At n) : ∃ m ≤ n, x.At m := by
  obtain ⟨z, p, hz, hp, positive⟩ := Double.le_iff.mp low
  obtain rfl := Option.some.inj (hz.symm.trans position?_zero)
  obtain ⟨p', q, hp', hq, le⟩ := Double.le_iff.mp high
  obtain rfl := Option.some.inj (hp.symm.trans hp')
  obtain rfl := Option.some.inj (hy.1.symm.trans hq)
  have bounded := hy.2
  refine ⟨p.toNat, by omega, ?_, by omega⟩
  rw [hp, Int.toNat_of_nonneg positive]

theorem at_zero : (Scalar.zero : Double).At 0 := ⟨position?_zero, limit_pos⟩

theorem at_whole (few : k < 2 ^ 53) : (ofRatio false k 1).At (k * one) :=
  at_iff.mpr ⟨false, fits_whole few, fun h => absurd h (by decide), ofRatio_whole false few⟩

theorem at_one : (1 : Double).At one := by
  have whole : (1 : Double) = ofRatio false 1 1 := by with_reducible_and_instances rfl
  rw [whole]
  simpa using at_whole (show 1 < 2 ^ 53 by norm_num)

theorem at_hundred : (100 : Double).At (100 * one) := by
  have whole : (100 : Double) = ofRatio false 100 1 := by with_reducible_and_instances rfl
  rw [whole]
  exact at_whole (by norm_num)

/-- A count that is not beyond the doubles. -/
theorem at_count (finite : (Scalar.whole count : Double).isFinite = true) (h : i ≤ count) :
    (Scalar.whole i : Double).At (roundBits (i * one) 1) := by
  have bounded : roundBits (count * one) 1 < limit := by
    by_contra beyond
    rw [whole_eq_nearest, nearest, dif_neg beyond] at finite
    exact absurd finite Bool.false_ne_true
  have below : roundBits (i * one) 1 < limit :=
    (roundBits_mono Nat.one_pos (Nat.mul_le_mul_right _ h)).trans_lt bounded
  rw [whole_eq_nearest]
  refine ⟨?_, below⟩
  rw [position?_nearest, Nat.min_eq_left below.le]
  rfl

/-! ### Sums, products and quotients -/

theorem position?_nearest_upright {negative : Bool} {num den : Nat} (zero : negative = true → num = 0) :
    (nearest negative num den).position? = some ((min (roundBits num den) limit : Nat) : Int) := by
  rw [position?_nearest, signed_of_zero fun down => ?_]
  rw [zero down, roundBits_zero, Nat.zero_min]

theorem At.add (hx : x.At m) (hy : y.At n) :
    (x + y).position? = some ((min (roundBits (m + n) 1) limit : Nat) : Int) := by
  obtain ⟨a, fits, zero, rfl⟩ := at_iff.mp hx
  obtain ⟨b, fits', zero', rfl⟩ := at_iff.mp hy
  change (if signed a m + signed b n = 0 then signedZero (a && b)
    else nearest (decide (signed a m + signed b n < 0)) (signed a m + signed b n).natAbs 1).position? = _
  rw [signed_of_zero zero, signed_of_zero zero', ← Int.natCast_add, Int.natAbs_natCast,
    decide_eq_false (Int.not_lt.mpr (Int.natCast_nonneg _))]
  split
  · next none =>
    rw [Int.natCast_eq_zero.mp none, roundBits_zero, Nat.zero_min]
    exact congrArg some (signed_of_zero fun _ => rfl)
  · exact position?_nearest_upright fun down => absurd down (by decide)

/-- Finite numbers that are not below zero have places. -/
theorem exists_at_iff : (∃ n, x.At n) ↔ x.isFinite = true ∧ Scalar.zero ≤ x := by
  constructor
  · rintro ⟨n, place⟩
    refine ⟨?_, (at_zero.le_iff place).mpr (Nat.zero_le n)⟩
    obtain ⟨negative, fits, -, rfl⟩ := at_iff.mp place
    rfl
  · rintro ⟨finite, positive⟩
    obtain ⟨zero, place, hzero, hplace, le⟩ := Double.le_iff.mp positive
    obtain rfl := Option.some.inj (hzero.symm.trans position?_zero)
    obtain ⟨n, rfl⟩ := Int.eq_ofNat_of_zero_le le
    refine ⟨n, hplace, ?_⟩
    cases x with
    | nan => cases finite
    | infinite negative => cases finite
    | finite negative units fits =>
      have size : units = n := by
        have := Option.some.inj hplace
        cases negative <;> simp only [signed, if_true, Bool.false_eq_true, if_false] at this <;> omega
      exact size ▸ fits.bounded

theorem exists_at_of_not_lt (finite : x.isFinite = true) (upright : ¬ x < Scalar.zero) :
    ∃ n, x.At n := by
  have placed : x.position?.isSome := by
    cases x with
    | nan => cases finite
    | infinite negative => cases finite
    | finite negative units fits => rfl
  exact exists_at_iff.mpr ⟨finite, le_of_not_lt placed rfl upright⟩

theorem At.value (h : x.At n) : x.value = .ok ((n : Rat) / one) := by
  obtain ⟨negative, fits, zero, rfl⟩ := at_iff.mp h
  exact value_upright fits zero

/-- A sum is finite unless it is rounded up beyond the largest double. -/
theorem At.exists_at_add_iff (hx : x.At m) (hy : y.At n) :
    (∃ k, (x + y).At k) ↔ m + n < overflow * one := by
  have place := hx.add hy
  have range : roundBits (m + n) 1 < limit ↔ m + n < overflow * one := by
    rw [roundBits_lt_limit_iff_units Nat.one_pos, Nat.mul_one]
  rw [← range]
  constructor
  · rintro ⟨k, place', below⟩
    have same := Int.ofNat_inj.mp (Option.some.inj (place.symm.trans place'))
    omega
  · intro below
    rw [Nat.min_eq_left below.le] at place
    exact ⟨_, place, below⟩

theorem At.exists_at_add_iff_value {p q : Rat} (hx : x.At m) (hy : y.At n) (hp : x.value = .ok p)
    (hq : y.value = .ok q) : (∃ k, (x + y).At k) ↔ p + q < overflow := by
  obtain rfl := Except.ok.inj (hx.value.symm.trans hp)
  obtain rfl := Except.ok.inj (hy.value.symm.trans hq)
  have unit : (0 : Rat) < one := Nat.cast_pos.mpr one_pos
  rw [hx.exists_at_add_iff hy, ← add_div, div_lt_iff₀ unit]
  exact_mod_cast Iff.rfl

/-- A whole number that is not negative is read as such a double. -/
theorem exists_at_of_ofInt {n : Int} (positive : 0 ≤ n) (rounded : ofInt n = .ok x) :
    ∃ k, x.At k := by
  unfold ofInt at rounded
  rw [ofRatio_eq, nearest, decide_eq_false (Int.not_lt.mpr positive)] at rounded
  split at rounded
  · next below =>
    obtain rfl := Except.ok.inj rounded
    exact ⟨_, at_iff.mpr ⟨false, _, fun down => absurd down Bool.false_ne_true, rfl⟩⟩
  · cases rounded

theorem sign_of_mul {a b : Bool} (zero : a = true → m = 0) (zero' : b = true → n = 0)
    (down : (a != b) = true) : m = 0 ∨ n = 0 := by
  cases a with
  | true => exact .inl (zero rfl)
  | false => exact .inr (zero' (by simpa using down))

theorem finite_mul_finite (a b : Bool) (fits : Fits m) (fits' : Fits n) :
    mul (finite a m fits) (finite b n fits') = nearest (a != b) (m * n) one := by
  rw [mul]

theorem At.mul (hx : x.At m) (hy : y.At n) :
    (x * y).position? = some ((min (roundBits (m * n) one) limit : Nat) : Int) := by
  obtain ⟨a, fits, zero, rfl⟩ := at_iff.mp hx
  obtain ⟨b, fits', zero', rfl⟩ := at_iff.mp hy
  change (mul (finite a m fits) (finite b n fits')).position? = _
  rw [finite_mul_finite]
  exact position?_nearest_upright fun down => Nat.mul_eq_zero.mpr (sign_of_mul zero zero' down)

theorem At.div (hx : x.At m) (hy : y.At n) (positive : 0 < n) :
    (x / y).position? = some ((min (roundBits (m * one) n) limit : Nat) : Int) := by
  obtain ⟨a, fits, zero, rfl⟩ := at_iff.mp hx
  obtain ⟨b, fits', zero', rfl⟩ := at_iff.mp hy
  change (if n = 0 then (if m = 0 then nan else infinite (a != b))
    else nearest (a != b) (m * one) n).position? = _
  rw [if_neg positive.ne']
  refine position?_nearest_upright fun down => ?_
  rw [(sign_of_mul zero zero' down).resolve_right positive.ne', Nat.zero_mul]

/-- A quotient of a number and one that is not smaller is a share. -/
theorem At.div_le (hx : x.At m) (hy : y.At n) (positive : 0 < n) (h : m ≤ n) :
    ∃ k ≤ one, (x / y).At k ∧ (m = 0 → k = 0) := by
  have bounded : roundBits (m * one) n ≤ one := by
    refine (roundBits_mono positive (Nat.mul_le_mul_right _ h)).trans_eq ?_
    have whole := roundBits_mul_right one 1 positive
    rw [Nat.one_mul] at whole
    rw [Nat.mul_comm, whole, roundBits_self at_one.bits]
  have below : roundBits (m * one) n < limit := bounded.trans_lt at_one.2
  refine ⟨_, bounded, ⟨?_, below⟩, fun none => by rw [none, Nat.zero_mul, roundBits_zero]⟩
  rw [hx.div hy positive, Nat.min_eq_left below.le]

/-- A share of a number is at most the number. -/
theorem At.share_mul (hx : x.At m) (share : m ≤ one) (hy : y.At n) :
    ∃ k ≤ n, (x * y).At k ∧ (m = 0 → k = 0) := by
  have bounded : roundBits (m * n) one ≤ n := by
    refine (roundBits_mono one_pos (Nat.mul_le_mul_right _ share)).trans_eq ?_
    have whole := roundBits_mul_right n 1 one_pos
    rw [Nat.one_mul] at whole
    rw [Nat.mul_comm, whole, roundBits_self hy.bits]
  have below : roundBits (m * n) one < limit := bounded.trans_lt hy.2
  refine ⟨_, bounded, ⟨?_, below⟩, fun none => by rw [none, Nat.zero_mul, roundBits_zero]⟩
  rw [hx.mul hy, Nat.min_eq_left below.le]

/-- Of two products with one number, the one of the smaller number is not the greater one. -/
theorem At.mul_le_mul (hx : x.At m) (hy : y.At n) (hz : z.At k) (h : m ≤ n) : x * z ≤ z * y := by
  refine Double.le_iff.mpr ⟨_, _, hx.mul hz, hz.mul hy, Int.ofNat_le.mpr (min_le_min_right _ ?_)⟩
  rw [Nat.mul_comm k]
  exact roundBits_mono one_pos (Nat.mul_le_mul_right _ h)

/-- Some items and a part of the next one are a share of all items. -/
theorem exists_at_share (finite : (Scalar.whole count : Double).isFinite = true) (h : i < count)
    (part : x.At k) (little : k ≤ one) :
    ∃ m ≤ one, ((Scalar.whole i + x) / Scalar.whole count).At m := by
  have all := at_count finite (Nat.le_refl count)
  have bounded : roundBits (roundBits (i * one) 1 + k) 1 ≤ roundBits (count * one) 1 :=
    (roundBits_count_add_le little).trans
      (roundBits_mono Nat.one_pos (Nat.mul_le_mul_right _ h))
  have below : roundBits (roundBits (i * one) 1 + k) 1 < limit := bounded.trans_lt all.2
  have sum : (Scalar.whole i + x).At (roundBits (roundBits (i * one) 1 + k) 1) := by
    refine ⟨?_, below⟩
    rw [(at_count finite h.le).add part, Nat.min_eq_left below.le]
  obtain ⟨m, atMost, quotient, -⟩ := sum.div_le all (roundBits_count_pos (Nat.zero_lt_of_lt h)) bounded
  exact ⟨m, atMost, quotient⟩

end Montage.Double
