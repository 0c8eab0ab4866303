import Mathlib.Algebra.Group.Nat.Defs
import Mathlib.Data.List.Basic
import Montage.Number.Shortest
import Montage.Text.Numeral

/-!
# Digits that are written are read back

The ASCII digits of a number denote it, with zeros in front of them as without.
-/

namespace Montage.Text

variable {cs rest : List Char} {n : Nat}

/-- The values of ASCII digits. -/
def digitValues (cs : List Char) : List Nat := cs.map fun c => c.toNat - '0'.toNat

/-- A run of ASCII digits. -/
def Numeric (cs : List Char) : Prop := ∀ c ∈ cs, c.isDigit = true

theorem Numeric.append {ds : List Char} (h : Numeric cs) (h' : Numeric ds) : Numeric (cs ++ ds) :=
  fun c hc => (List.mem_append.mp hc).elim (h c) (h' c)

theorem Numeric.sublist {ds : List Char} (h : Numeric cs) (part : ds ⊆ cs) : Numeric ds :=
  fun c hc => h c (part hc)

theorem numeric_toDigits (n : Nat) : Numeric (Nat.toDigits 10 n) :=
  fun _ h => Nat.isDigit_of_mem_toDigits (by decide) (by decide) h

theorem numeric_zeros (k : Nat) : Numeric (List.replicate k '0') :=
  fun c hc => List.eq_of_mem_replicate hc ▸ by decide

theorem toList_toString (n : Nat) : (toString n).toList = Nat.toDigits 10 n := by
  rw [Nat.toString_eq_ofList_toDigits, String.toList_ofList]

/-- The number in front of a colon is read off the text. -/
theorem number_inj_of_colon {n m : Nat} {rest rest' : String}
    (same : toString n ++ ":" ++ rest = toString m ++ ":" ++ rest') : n = m := by
  have digits (k : Nat) (rest : String) :
      (toString k ++ ":" ++ rest).toList.takeWhile Char.isDigit = Nat.toDigits 10 k := by
    rw [String.toList_append, String.toList_append, toList_toString, List.append_assoc,
      List.takeWhile_append_of_pos fun c => numeric_toDigits k c]
    exact List.append_nil _
  have same : Nat.toDigits 10 n = Nat.toDigits 10 m := by rw [← digits n, same, digits]
  rw [← @Nat.ofDigitChars_ten_toDigits n, same, Nat.ofDigitChars_ten_toDigits]

theorem length_digitValues (cs : List Char) : (digitValues cs).length = cs.length :=
  List.length_map _

theorem digitValues_append (cs ds : List Char) :
    digitValues (cs ++ ds) = digitValues cs ++ digitValues ds := List.map_append

theorem ofDigits_digitValues (cs : List Char) :
    ofDigits (digitValues cs) = Nat.ofDigitChars 10 cs 0 := by
  rw [ofDigits, digitValues, List.foldl_map, Nat.ofDigitChars_eq_foldl]

/-- The digits of a number denote it. -/
theorem ofDigits_toDigits (n : Nat) : ofDigits (digitValues (Nat.toDigits 10 n)) = n := by
  rw [ofDigits_digitValues, Nat.ofDigitChars_ten_toDigits]

/-- Zeros in front make no difference. -/
theorem ofDigits_zeros_append (k : Nat) (cs : List Char) :
    ofDigits (digitValues (List.replicate k '0' ++ cs)) = ofDigits (digitValues cs) := by
  rw [ofDigits_digitValues, Nat.ofDigitChars_append, Nat.ofDigitChars_replicate_zero, Nat.mul_zero,
    ofDigits_digitValues]

/-- Zeros at the end are factors of ten. -/
theorem ofDigits_append_zeros (cs : List Char) (k : Nat) :
    ofDigits (digitValues (cs ++ List.replicate k '0')) = ofDigits (digitValues cs) * 10 ^ k := by
  rw [ofDigits_digitValues, Nat.ofDigitChars_append, Nat.ofDigitChars_replicate_zero, Nat.mul_comm,
    ofDigits_digitValues]

/-- The digits of a positive number do not begin with a zero. -/
theorem toDigits_eq_cons (positive : 0 < n) :
    ∃ c ds, Nat.toDigits 10 n = c :: ds ∧ c ≠ '0' := by
  induction n using Nat.strongRecOn with
  | ind n ih =>
    rw [Nat.toDigits_eq_if (by decide)]
    split
    · next small =>
      have first : ∀ k < 10, 0 < k → Nat.digitChar k ≠ '0' := by decide
      exact ⟨_, [], rfl, first n small positive⟩
    · next large =>
      obtain ⟨c, ds, digits, first⟩ := ih (n / 10) (by omega) (by omega)
      exact ⟨c, ds ++ [(n % 10).digitChar], by rw [digits, List.cons_append], first⟩

/-! ### Zeros in front up to a width -/

/-- The digits of a number with zeros in front of them. -/
def paddedDigits (width n : Nat) : List Char :=
  List.replicate (width - (Nat.toDigits 10 n).length) '0' ++ Nat.toDigits 10 n

theorem numeric_paddedDigits (width n : Nat) : Numeric (paddedDigits width n) :=
  (numeric_zeros _).append (numeric_toDigits n)

theorem paddedDigits_ne_nil (width n : Nat) : paddedDigits width n ≠ [] :=
  List.append_ne_nil_of_right_ne_nil _ Nat.toDigits_ne_nil

theorem ofDigits_paddedDigits (width n : Nat) : ofDigits (digitValues (paddedDigits width n)) = n := by
  rw [paddedDigits, ofDigits_zeros_append, ofDigits_toDigits]

theorem toList_padded (width n : Nat) :
    (DoubleLayout.padded width n).toList = paddedDigits width n := by
  rw [DoubleLayout.padded, String.toList_append, String.toList_ofList, ← String.length_toList,
    toList_toString, paddedDigits]

end Montage.Text
