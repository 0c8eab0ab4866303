import Montage.Json.Writer
import Montage.Proofs.Json.Number

/-!
# Quoted texts are read back

The quotes of a text are found again behind its escapes, whether all but ASCII is escaped or only what
has to be. An escaped character has four hexadecimal digits, or eight in two halves of a surrogate pair,
of which the first half cannot be a character of its own.

## Main results

* `unicodeEscape?_units16` — the escape of a character is read as it
* `readText_quote` — a quoted text is read as it was
-/

namespace Montage.Json

open Text

variable {dialect : Dialect} {fuel : Nat} {done cs rest : List Char} {c : Char} {asciiOnly : Bool}

/-! ### Hexadecimal digits -/

theorem hexValue?_digitChar {d : Nat} (h : d < 16) : hexValue? (Nat.digitChar d) = some d := by
  have all : ∀ d < 16, hexValue? (Nat.digitChar d) = some d := by decide
  exact all d h

theorem toList_hex4 {n : Nat} (h : n < 0x10000) : (hex4 n).toList =
    [n / 4096, n / 256 % 16, n / 16 % 16, n % 16].map Nat.digitChar := by
  have step (m : Nat) := Nat.toDigits_eq_if (b := 16) (n := m) (by decide)
  unfold hex4
  dsimp only
  rw [String.toList_ofList]
  -- The numeral has one to four digits, and zeros take the places that it leaves.
  by_cases one : n < 16
  · rw [Nat.toDigits_of_lt_base one, show n / 4096 = 0 by omega, show n / 256 % 16 = 0 by omega,
      show n / 16 % 16 = 0 by omega, Nat.mod_eq_of_lt one]
    rfl
  by_cases two : n < 256
  · rw [step n, if_neg one, Nat.toDigits_of_lt_base (by omega), show n / 4096 = 0 by omega,
      show n / 256 % 16 = 0 by omega, Nat.mod_eq_of_lt (show n / 16 < 16 by omega)]
    rfl
  by_cases three : n < 4096
  · rw [step n, if_neg one, step (n / 16), if_neg (by omega), Nat.toDigits_of_lt_base (by omega),
      show n / 4096 = 0 by omega, Nat.div_div_eq_div_mul,
      Nat.mod_eq_of_lt (show n / 256 < 16 by omega)]
    rfl
  · rw [step n, if_neg one, step (n / 16), if_neg (by omega), Nat.div_div_eq_div_mul, step (n / (16 * 16)),
      if_neg (by omega), Nat.div_div_eq_div_mul, Nat.toDigits_of_lt_base (by omega)]
    rfl

/-- Four digits are read as the number that they were made of. -/
theorem unit16?_hex4 {n : Nat} (h : n < 0x10000) (rest : List Char) :
    unit16? ((hex4 n).toList ++ rest) = some (n, rest) := by
  rw [toList_hex4 h]
  simp only [List.map_cons, List.map_nil, List.cons_append, List.nil_append, unit16?,
    hexValue?_digitChar (show n / 4096 < 16 by omega),
    hexValue?_digitChar (Nat.mod_lt _ (by decide : 0 < 16)), Option.bind_eq_bind, Option.bind_some,
    Option.pure_def, Option.some.injEq, Prod.mk.injEq, and_true]
  omega

/-! ### Escapes -/

theorem eq_of_toNat_eq {c d : Char} (h : c.toNat = d.toNat) : c = d := by
  rw [← Char.ofNat_toNat c, h, Char.ofNat_toNat]

theorem unicodeEscape?_hex4 (dialect : Dialect) {n : Nat} (near : n < 0x10000)
    (apart : n < 0xD800 ∨ 0xE000 ≤ n) (rest : List Char) :
    unicodeEscape? dialect ((hex4 n).toList ++ rest) = some (Char.ofNat n, rest) := by
  rw [unicodeEscape?, unit16?_hex4 near]
  dsimp only
  rw [if_pos apart]

/-- The halves of a surrogate pair are read together. -/
theorem unicodeEscape?_pair (dialect : Dialect) {high low : Nat} (atLeast : 0xD800 ≤ high)
    (below : high < 0xDC00) (atLeast' : 0xDC00 ≤ low) (below' : low < 0xE000) (rest : List Char) :
    unicodeEscape? dialect ((hex4 high).toList ++ '\\' :: 'u' :: ((hex4 low).toList ++ rest)) =
      some (Char.ofNat (0x10000 + (high - 0xD800) * 0x400 + (low - 0xDC00)), rest) := by
  have second : lowSurrogate? ('\\' :: 'u' :: ((hex4 low).toList ++ rest)) = some (low, rest) := by
    rw [lowSurrogate?, unit16?_hex4 (by omega)]
    exact if_pos ⟨atLeast', below'⟩
  rw [unicodeEscape?, unit16?_hex4 (by omega)]
  dsimp only
  rw [if_neg (by omega), if_neg (by omega), second]

/-- No character is half of a surrogate pair. -/
theorem apart_of_char (c : Char) : c.toNat < 0xD800 ∨ 0xE000 ≤ c.toNat ∧ c.toNat < 0x110000 := by
  have valid := c.valid
  simp only [UInt32.isValidChar, Nat.isValidChar] at valid
  have same : c.toNat = c.val.toNat := rfl
  omega

theorem toList_marked (digits : String) : ("\\u" ++ digits).toList = '\\' :: 'u' :: digits.toList := by
  rw [String.toList_append]
  rfl

/-- The escape of a character is read as it. -/
theorem unicodeEscape?_units16 (dialect : Dialect) (c : Char) (rest : List Char) :
    ∃ units, (String.join ((units16 c).map fun unit => "\\u" ++ hex4 unit)).toList = '\\' :: 'u' :: units ∧
      unicodeEscape? dialect (units ++ rest) = some (c, rest) := by
  have valid := apart_of_char c
  have back := Char.ofNat_toNat c
  unfold units16
  generalize c.toNat = n at valid back
  split
  · next near =>
    refine ⟨(hex4 n).toList, ?_, ?_⟩
    · rw [List.map_singleton, String.toList_join, List.flatMap_singleton, toList_marked]
    · rw [unicodeEscape?_hex4 dialect near (valid.imp_right And.left), back]
  · next far =>
    -- The rest of the number is cut after ten bits; each half of it has a range of its own.
    have bounded : (n - 0x10000) / 0x400 < 0x400 := by omega
    have below : (n - 0x10000) % 0x400 < 0x400 := Nat.mod_lt _ (by decide)
    have same : 0x10000 + (0xD800 + (n - 0x10000) / 0x400 - 0xD800) * 0x400 +
        (0xDC00 + (n - 0x10000) % 0x400 - 0xDC00) = n := by omega
    refine ⟨(hex4 (0xD800 + (n - 0x10000) / 0x400)).toList ++
      '\\' :: 'u' :: (hex4 (0xDC00 + (n - 0x10000) % 0x400)).toList, ?_, ?_⟩
    · rw [List.map_cons, List.map_singleton, String.toList_join, List.flatMap_cons, List.flatMap_singleton,
        toList_marked, toList_marked, List.cons_append, List.cons_append]
    · rw [List.append_assoc, List.cons_append, List.cons_append,
        unicodeEscape?_pair dialect (by omega) (by omega) (by omega) (by omega), same, back]

theorem readText_plain (quotes : c ≠ '"') (backslash : c ≠ '\\') (plain : ¬ c.toNat < 0x20) :
    readText dialect (fuel + 1) done (c :: rest) = readText dialect fuel (c :: done) rest := by
  rw [readText]
  · simp [plain, backslash]
  · exact quotes
  · exact fun _ h => absurd h backslash
  · exact fun _ _ h => absurd h backslash

/-- A character inside quotes is read as it was. -/
theorem readText_escapeChar (asciiOnly : Bool) (c : Char) :
    readText dialect (fuel + 1) done ((escapeChar asciiOnly c).toList ++ rest) =
      readText dialect fuel (c :: done) rest := by
  unfold escapeChar
  split
  · next h => subst h; rfl
  split
  · next h => subst h; rfl
  split
  · next h => subst h; rfl
  split
  · next h => subst h; rfl
  split
  · next h => subst h; rfl
  split
  · next h => rw [show c = Char.ofNat 0x08 from eq_of_toNat_eq h]; rfl
  split
  · next h => rw [show c = Char.ofNat 0x0C from eq_of_toNat_eq h]; rfl
  split
  · obtain ⟨units, written, read⟩ := unicodeEscape?_units16 dialect c rest
    rw [written, List.cons_append, List.cons_append, readText, read]
  · -- Nothing but controls is left to be escaped, so the character stands for itself.
    next quotes backslash _ _ _ _ _ plain =>
    have plain : ¬ c.toNat < 0x20 := fun control => plain (by simp [control])
    rw [Char.toString, String.toList_singleton]
    exact readText_plain quotes backslash plain

/-! ### Texts -/

/-- The escapes of a text, with nothing around them. -/
def escaped (asciiOnly : Bool) (cs : List Char) : List Char :=
  cs.flatMap fun c => (escapeChar asciiOnly c).toList

theorem toList_quote (s : String) :
    (quote asciiOnly s).toList = '"' :: (escaped asciiOnly s.toList ++ ['"']) := by
  simp [quote, escaped, List.flatMap, Function.comp_def]

theorem readText_escaped (room : cs.length < fuel) :
    readText dialect fuel done (escaped asciiOnly cs ++ '"' :: rest) =
      .ok (String.ofList (done.reverse ++ cs), rest) := by
  induction cs generalizing fuel done with
  | nil =>
    obtain ⟨fuel, rfl⟩ : ∃ n, fuel = n + 1 := Nat.exists_eq_succ_of_ne_zero (by omega)
    rw [List.append_nil]
    rfl
  | cons c cs ih =>
    obtain ⟨fuel, rfl⟩ : ∃ n, fuel = n + 1 := Nat.exists_eq_succ_of_ne_zero (by omega)
    rw [escaped, List.flatMap_cons, List.append_assoc, readText_escapeChar]
    refine (ih (by simpa using room)).trans ?_
    rw [List.reverse_cons, List.append_assoc, List.singleton_append]

theorem escapeChar_ne_nil (asciiOnly : Bool) (c : Char) : (escapeChar asciiOnly c).toList ≠ [] := by
  -- A character that left no trace could not be read.
  intro none
  have read : readText ⟨false, 0⟩ 1 [] ((escapeChar asciiOnly c).toList ++ ['"']) =
    readText ⟨false, 0⟩ 0 [c] ['"'] := readText_escapeChar asciiOnly c
  rw [none] at read
  exact absurd read (by simp [readText])

theorem length_le_escaped (asciiOnly : Bool) (cs : List Char) :
    cs.length ≤ (escaped asciiOnly cs).length := by
  induction cs with
  | nil => exact Nat.le_refl _
  | cons c cs ih =>
    have := List.length_pos_iff.mpr (escapeChar_ne_nil asciiOnly c)
    rw [escaped, List.flatMap_cons, List.length_append, List.length_cons]
    rw [escaped] at ih
    omega

/-- A quoted text is read as it was. -/
theorem readText_quote (dialect : Dialect) (asciiOnly : Bool) (s : String) (rest : List Char) :
    ∃ quoted, (quote asciiOnly s).toList ++ rest = '"' :: quoted ∧
      readText dialect (quoted.length + 1) [] quoted = .ok (s, rest) := by
  refine ⟨escaped asciiOnly s.toList ++ '"' :: rest, ?_, ?_⟩
  · rw [toList_quote]
    simp
  · rw [readText_escaped, List.reverse_nil, List.nil_append, String.ofList_toList]
    have := length_le_escaped asciiOnly s.toList
    rw [List.length_append, List.length_cons]
    omega

end Montage.Json
