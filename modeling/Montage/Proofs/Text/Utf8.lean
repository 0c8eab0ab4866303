import Montage.Proofs.Lists
import Montage.Text.Utf8

/-!
# Text that is written as UTF-8 is read back

The bytes of a character are read one after another: the first says how many follow and between
which bounds the second lies, and each of the others adds six bits. So the bytes of a text are read
as the text, without a fault.

A text that arrives in fragments may be cut inside a character. The bytes of a character then go to
two fragments, and a decoder that begins anew with each fragment finds a fault at the end of the one
and at least one more in the other, where the whole has a single character or fault.

## Main definitions

* `Utf8.unfinished` — the character that is still to be completed behind some bytes
* `Utf8.CutsCharacter` — the bytes behind a cut go on with a character in front of it

## Main results

* `Utf8.scan_char` — the bytes of a character are read as the character
* `Utf8.decode?_encode` — what is written is read back
* `Utf8.scan_append_of_not_cuts` — where no character is cut, what is read on both sides is what is
  read of the whole
* `Utf8.countP_scan_append_lt` — at such a cut the two sides hold more than the whole
-/

namespace Montage.Text.Utf8

variable {b : UInt8} {rest : List UInt8} {c : Char} {p next : Pending}

/-! ### One byte -/

theorem scan_of_lead_char (h : lead b.toNat = .char c) :
    scan none (b :: rest) = some c :: scan none rest := by
  simp only [scan, h]

theorem scan_of_lead_more (h : lead b.toNat = .more p) :
    scan none (b :: rest) = scan (some p) rest := by
  simp only [scan, h]

theorem scan_of_push_char (low : p.low ≤ b.toNat) (high : b.toNat ≤ p.high)
    (h : p.push b.toNat = .char c) : scan (some p) (b :: rest) = some c :: scan none rest := by
  simp only [scan, h, low, high, and_self, if_true]

theorem scan_of_push_more (low : p.low ≤ b.toNat) (high : b.toNat ≤ p.high)
    (h : p.push b.toNat = .more next) : scan (some p) (b :: rest) = scan (some next) rest := by
  simp only [scan, h, low, high, and_self, if_true]

/-- A byte that continues a character, with its six bits. -/
theorem toNat_tail (n : Nat) : (UInt8.ofNat (n % 64 + 128)).toNat = n % 64 + 128 := by
  rw [UInt8.toNat_ofNat']
  omega

/-! ### One character

How many bytes a character has is told by its code point; the first byte has the highest bits. -/

theorem lead_two {n : Nat} (low : 2 ≤ n) (high : n < 32) :
    lead (UInt8.ofNat (n + 192)).toNat = .more ⟨1, 0x80, 0xBF, n⟩ := by
  rw [UInt8.toNat_ofNat', Nat.mod_eq_of_lt (by omega), lead, if_neg (by omega), if_neg (by omega),
    if_pos (by omega), Nat.add_sub_cancel]

/-- The second of three bytes is bounded where a shorter form or a surrogate would begin. -/
theorem lead_three {n : Nat} (high : n < 16) : lead (UInt8.ofNat (n + 224)).toNat =
    .more ⟨2, if n = 0 then 0xA0 else 0x80, if n = 13 then 0x9F else 0xBF, n⟩ := by
  rw [UInt8.toNat_ofNat', Nat.mod_eq_of_lt (by omega), lead, if_neg (by omega), if_neg (by omega),
    if_neg (by omega), if_pos (by omega), Nat.add_sub_cancel]
  congr 2
  · exact if_congr (by omega) rfl rfl
  · exact if_congr (by omega) rfl rfl

/-- The second of four bytes is bounded where a shorter form or the end of all characters would
begin. -/
theorem lead_four {n : Nat} (high : n < 5) : lead (UInt8.ofNat (n + 240)).toNat =
    .more ⟨3, if n = 0 then 0x90 else 0x80, if n = 4 then 0x8F else 0xBF, n⟩ := by
  rw [UInt8.toNat_ofNat', Nat.mod_eq_of_lt (by omega), lead, if_neg (by omega), if_neg (by omega),
    if_neg (by omega), if_neg (by omega), if_pos (by omega), Nat.add_sub_cancel]
  congr 2
  · exact if_congr (by omega) rfl rfl
  · exact if_congr (by omega) rfl rfl

/-- The last byte of a character. -/
theorem scan_last {v : Nat} (low : p.low ≤ v % 64 + 128) (high : v % 64 + 128 ≤ p.high)
    (owed : p.owed ≤ 1) (whole : p.bits * 64 + v % 64 = c.val.toNat) :
    scan (some p) (UInt8.ofNat (v % 64 + 128) :: rest) = some c :: scan none rest := by
  refine scan_of_push_char (by rwa [toNat_tail]) (by rwa [toNat_tail]) ?_
  rw [toNat_tail, Pending.push, if_pos owed, Nat.add_sub_cancel, whole]
  exact congrArg Lead.char (Char.ofNat_toNat c)

/-- A byte between the first and the last one of a character. -/
theorem scan_middle {v : Nat} (low : p.low ≤ v % 64 + 128) (high : v % 64 + 128 ≤ p.high)
    (owed : ¬ p.owed ≤ 1) : scan (some p) (UInt8.ofNat (v % 64 + 128) :: rest) =
      scan (some ⟨p.owed - 1, 0x80, 0xBF, p.bits * 64 + v % 64⟩) rest := by
  refine scan_of_push_more (by rwa [toNat_tail]) (by rwa [toNat_tail]) ?_
  rw [toNat_tail, Pending.push, if_neg owed, Nat.add_sub_cancel]

/-- The bytes of a character are read as the character. -/
theorem scan_char (c : Char) (rest : List UInt8) :
    scan none (String.utf8EncodeChar c ++ rest) = some c :: scan none rest := by
  have valid : c.val.toNat < 0xD800 ∨ 0xDFFF < c.val.toNat ∧ c.val.toNat < 0x110000 := c.valid
  unfold String.utf8EncodeChar
  dsimp only
  split
  · next one =>
    refine scan_of_lead_char ?_
    rw [UInt8.toNat_ofNat', Nat.mod_eq_of_lt (by omega), lead, if_pos (by omega)]
    exact congrArg Lead.char (Char.ofNat_toNat c)
  · split
    · next two =>
      refine (scan_of_lead_more (lead_two (by omega) (by omega))).trans ?_
      exact scan_last (by dsimp only; omega) (by dsimp only; omega) (Nat.le_refl _)
        (by dsimp only; omega)
    · split
      · next three =>
        refine (scan_of_lead_more (lead_three (by omega))).trans ?_
        refine (scan_middle ?_ ?_ (Nat.not_le.mpr (by dsimp only; omega))).trans ?_
        · dsimp only
          split <;> omega
        · dsimp only
          split <;> omega
        · exact scan_last (by dsimp only; omega) (by dsimp only; omega) (Nat.le_refl _)
            (by dsimp only; omega)
      · next four =>
        refine (scan_of_lead_more (lead_four (by omega))).trans ?_
        refine (scan_middle ?_ ?_ (Nat.not_le.mpr (by dsimp only; omega))).trans ?_
        · dsimp only
          split <;> omega
        · dsimp only
          split <;> omega
        · refine (scan_middle (by dsimp only; omega) (by dsimp only; omega)
            (Nat.not_le.mpr (by dsimp only; omega))).trans ?_
          exact scan_last (by dsimp only; omega) (by dsimp only; omega) (Nat.le_refl _)
            (by dsimp only; omega)

/-! ### Texts -/

theorem scan_chars (cs : List Char) : scan none (cs.flatMap String.utf8EncodeChar) = cs.map some := by
  induction cs with
  | nil => rfl
  | cons c cs ih => rw [List.flatMap_cons, scan_char, ih, List.map_cons]

/-- The bytes of an array in order. -/
theorem toList_loop (bytes : ByteArray) (i : Nat) (done : List UInt8) :
    ByteArray.toList.loop bytes i done = done.reverse ++ bytes.data.toList.drop i := by
  induction h : bytes.size - i generalizing i done with
  | zero =>
    have past : ¬ i < bytes.size := by omega
    rw [ByteArray.toList.loop, if_neg past, List.drop_eq_nil_of_le, List.append_nil]
    exact Nat.not_lt.mp past
  | succ n ih =>
    have inside : i < bytes.size := by omega
    have here : i < bytes.data.toList.length := inside
    rw [ByteArray.toList.loop, if_pos inside, ih _ _ (by omega), List.reverse_cons, List.append_assoc,
      List.drop_eq_getElem_cons here, List.singleton_append]
    congr 2
    change bytes.data[i]! = _
    rw [getElem!_pos bytes.data i inside, Array.getElem_toList]

theorem encode_eq (s : String) : encode s = s.toList.flatMap String.utf8EncodeChar := by
  have bytes : s.toUTF8 = (s.toList.flatMap String.utf8EncodeChar).toByteArray :=
    String.utf8Encode_toList.symm
  rw [encode, ByteArray.toList, toList_loop, List.drop_zero, List.reverse_nil, List.nil_append, bytes,
    List.toList_data_toByteArray]

/-- What is written is read back. -/
theorem decode?_encode (s : String) : decode? (encode s) = some s := by
  have read : (s.toList.map some).mapM id = some s.toList := by
    rw [mapM_eq_some_iff, List.forall₂_map_left_iff]
    exact List.forall₂_same.mpr fun _ _ => rfl
  rw [decode?, encode_eq, scan_chars, read, Option.map_some, String.ofList_toList]

/-! ### Bytes that are read in fragments -/

section Fragments

variable {front back bytes : List UInt8}

/-- Whether a byte goes on with a character. -/
def Pending.Takes (p : Pending) (b : UInt8) : Prop := p.low ≤ b.toNat ∧ b.toNat ≤ p.high

instance (p : Pending) (b : UInt8) : Decidable (p.Takes b) := inferInstanceAs (Decidable (_ ∧ _))

/-- The character that a byte leaves unfinished. -/
def Lead.pending? : Lead → Option Pending
  | .more p => some p
  | _ => none

/-- The character that is unfinished behind a byte, if `pending` is in front of it. -/
def unfinishedBehind (pending : Option Pending) (b : UInt8) : Option Pending :=
  match pending with
  | some p => if p.Takes b then (p.push b.toNat).pending? else (lead b.toNat).pending?
  | none => (lead b.toNat).pending?

/-- The character that is unfinished behind some bytes. -/
def unfinished (bytes : List UInt8) : Option Pending := bytes.foldl unfinishedBehind none

/-- A cut between two bytes of a character, or of what began as one. -/
def CutsCharacter (front back : List UInt8) : Prop :=
  ∃ p b rest, unfinished front = some p ∧ back = b :: rest ∧ p.Takes b

/-! ### What is read from front to back -/

theorem scan_none_cons (b : UInt8) (bytes : List UInt8) : scan none (b :: bytes) =
    match lead b.toNat with
    | .char c => some c :: scan none bytes
    | .more p => scan (some p) bytes
    | .fault => none :: scan none bytes := rfl

theorem scan_of_takes (h : p.Takes b) (bytes : List UInt8) : scan (some p) (b :: bytes) =
    match p.push b.toNat with
    | .char c => some c :: scan none bytes
    | .more p => scan (some p) bytes
    | .fault => none :: scan none bytes := if_pos h

/-- A character that is not continued is a fault, and the byte is read as if nothing were in front
of it. -/
theorem scan_of_not_takes (h : ¬ p.Takes b) (bytes : List UInt8) :
    scan (some p) (b :: bytes) = none :: scan none (b :: bytes) := if_neg h

/-- What a byte completes does not depend on what follows it. -/
theorem exists_scan_cons (pending : Option Pending) (b : UInt8) : ∃ items, ∀ rest,
    scan pending (b :: rest) = items ++ scan (unfinishedBehind pending b) rest := by
  have byLead : ∃ items, ∀ rest,
      scan none (b :: rest) = items ++ scan (lead b.toNat).pending? rest := by
    cases meaning : lead b.toNat with
    | char c => exact ⟨[some c], fun rest => by rw [scan_none_cons, meaning]; rfl⟩
    | more p => exact ⟨[], fun rest => by rw [scan_none_cons, meaning]; rfl⟩
    | fault => exact ⟨[none], fun rest => by rw [scan_none_cons, meaning]; rfl⟩
  cases pending with
  | none => exact byLead
  | some p =>
    by_cases takes : p.Takes b
    · rw [unfinishedBehind, if_pos takes]
      cases meaning : p.push b.toNat with
      | char c => exact ⟨[some c], fun rest => by rw [scan_of_takes takes, meaning]; rfl⟩
      | more p => exact ⟨[], fun rest => by rw [scan_of_takes takes, meaning]; rfl⟩
      | fault => exact ⟨[none], fun rest => by rw [scan_of_takes takes, meaning]; rfl⟩
    · rw [unfinishedBehind, if_neg takes]
      obtain ⟨items, whole⟩ := byLead
      exact ⟨none :: items, fun rest => by rw [scan_of_not_takes takes, whole]; rfl⟩

/-- What some bytes complete does not depend on what follows them. -/
theorem exists_scan_append (pending : Option Pending) (front : List UInt8) : ∃ items, ∀ back,
    scan pending (front ++ back) = items ++ scan (front.foldl unfinishedBehind pending) back := by
  induction front generalizing pending with
  | nil => exact ⟨[], fun _ => rfl⟩
  | cons b front ih =>
    obtain ⟨first, byte⟩ := exists_scan_cons pending b
    obtain ⟨others, whole⟩ := ih (unfinishedBehind pending b)
    refine ⟨first ++ others, fun back => ?_⟩
    rw [List.cons_append, byte, whole, List.append_assoc, List.foldl_cons]

/-- Where a cut leaves the characters whole, both sides are read as the whole is. -/
theorem scan_append_of_not_cuts (h : ¬ CutsCharacter front back) :
    scan none (front ++ back) = scan none front ++ scan none back := by
  obtain ⟨items, whole⟩ := exists_scan_append none front
  have alone := whole []
  rw [List.append_nil] at alone
  rw [whole, alone, List.append_assoc]
  congr 1
  change scan (unfinished front) back = scan (unfinished front) [] ++ scan none back
  cases ending : unfinished front with
  | none => rfl
  | some p =>
    cases back with
    | nil => rfl
    | cons b back =>
      have ends : ¬ p.Takes b := fun takes => h ⟨p, b, back, ending, rfl, takes⟩
      rw [scan_of_not_takes ends]
      rfl

/-- Behind a cut that leaves the characters whole, it does not matter what was in front of it. -/
theorem unfinished_append_of_not_cuts {middle : List UInt8} (h : ¬ CutsCharacter front back)
    (begins : middle <+: back) (some : middle ≠ []) :
    unfinished (front ++ middle) = unfinished middle := by
  obtain ⟨rest, rfl⟩ := begins
  cases middle with
  | nil => exact absurd rfl some
  | cons b middle =>
    unfold unfinished
    rw [List.foldl_append, List.foldl_cons, List.foldl_cons]
    congr 1
    change unfinishedBehind (unfinished front) b = unfinishedBehind none b
    cases ending : unfinished front with
    | none => rfl
    | some p => exact if_neg fun takes => h ⟨p, b, middle ++ rest, ending, rfl, takes⟩

/-! ### What a cut adds

The bytes that go on with a character can begin none. So a decoder that does not know of the
character finds a fault in each of them. -/

/-- The bytes that go on with a character lie where none begins. -/
def Pending.Sound (p : Pending) : Prop := 0x80 ≤ p.low ∧ p.high ≤ 0xBF

theorem Pending.Sound.lead_eq (sound : p.Sound) (takes : p.Takes b) : lead b.toNat = .fault := by
  have low : 0x80 ≤ b.toNat := Nat.le_trans sound.1 takes.1
  have high : b.toNat ≤ 0xBF := Nat.le_trans takes.2 sound.2
  rw [lead, if_neg (by omega), if_pos (by omega)]

theorem sound_of_lead {n : Nat} (h : (lead n).pending? = some p) : p.Sound := by
  unfold lead at h
  split at h
  · cases h
  split at h
  · cases h
  split at h
  · cases h
    exact ⟨Nat.le_refl _, Nat.le_refl _⟩
  split at h
  · cases h
    constructor
    · dsimp only
      split <;> omega
    · dsimp only
      split <;> omega
  split at h
  · cases h
    constructor
    · dsimp only
      split <;> omega
    · dsimp only
      split <;> omega
  · cases h

theorem sound_of_push {n : Nat} {next : Pending} (h : (p.push n).pending? = some next) :
    next.Sound := by
  unfold Pending.push at h
  split at h
  · cases h
  · cases h
    exact ⟨Nat.le_refl _, Nat.le_refl _⟩

theorem sound_of_unfinishedBehind {pending : Option Pending}
    (h : unfinishedBehind pending b = some p) : p.Sound := by
  unfold unfinishedBehind at h
  split at h
  · split at h
    · exact sound_of_push h
    · exact sound_of_lead h
  · exact sound_of_lead h

theorem sound_of_unfinished (h : unfinished bytes = some p) : p.Sound := by
  obtain rfl | ⟨front, b, rfl⟩ := List.eq_nil_or_concat bytes
  · cases h
  · unfold unfinished at h
    rw [List.concat_eq_append, List.foldl_append] at h
    exact sound_of_unfinishedBehind h

variable {counts : Option Char → Bool}

/-- Knowing of a character in front adds at most one item. -/
theorem countP_scan_some_le (sound : p.Sound) (fault : counts none = true) (bytes : List UInt8) :
    (scan (some p) bytes).countP counts ≤ (scan none bytes).countP counts + 1 ∧
      ∀ b rest, bytes = b :: rest → p.Takes b →
        (scan (some p) bytes).countP counts ≤ (scan none bytes).countP counts := by
  induction bytes generalizing p with
  | nil =>
    refine ⟨?_, fun b rest empty => nomatch empty⟩
    simp only [scan, List.countP_cons_of_pos fault, List.countP_nil]
    exact Nat.le_refl _
  | cons b bytes ih =>
    have taken : p.Takes b →
        (scan (some p) (b :: bytes)).countP counts ≤ (scan none (b :: bytes)).countP counts := by
      intro takes
      rw [scan_of_takes takes, scan_none_cons, sound.lead_eq takes]
      dsimp only
      rw [List.countP_cons_of_pos fault]
      cases meaning : p.push b.toNat with
      | char c =>
        dsimp only
        rw [List.countP_cons]
        split <;> omega
      | more next =>
        exact (ih (sound_of_push (p := p) (n := b.toNat) (by rw [meaning]; rfl))).1
      | fault =>
        dsimp only
        exact Nat.le_of_eq (List.countP_cons_of_pos fault)
    refine ⟨?_, ?_⟩
    · by_cases takes : p.Takes b
      · exact Nat.le_succ_of_le (taken takes)
      · rw [scan_of_not_takes takes]
        exact Nat.le_of_eq (List.countP_cons_of_pos fault)
    · intro b' rest same takes
      cases same
      exact taken takes

/-- At a cut inside a character, the two sides hold more than the whole does. -/
theorem countP_scan_append_lt (fault : counts none = true) (h : CutsCharacter front back) :
    (scan none (front ++ back)).countP counts <
      (scan none front).countP counts + (scan none back).countP counts := by
  obtain ⟨p, b, rest, ending, rfl, takes⟩ := h
  obtain ⟨items, whole⟩ := exists_scan_append none front
  have alone : scan none front = items ++ [none] := by
    have := whole []
    rw [List.append_nil] at this
    rw [this]
    change items ++ scan (unfinished front) [] = _
    rw [ending]
    rfl
  have behind := (countP_scan_some_le (sound_of_unfinished ending) fault (b :: rest)).2 b rest rfl takes
  have split : scan none (front ++ b :: rest) = items ++ scan (some p) (b :: rest) := by
    rw [whole]
    exact congrArg (items ++ scan · (b :: rest)) ending
  rw [split, alone, List.countP_append, List.countP_append, List.countP_cons_of_pos fault,
    List.countP_nil]
  omega

/-- Two sides never hold less than the whole. -/
theorem countP_scan_append_le (fault : counts none = true) (front back : List UInt8) :
    (scan none (front ++ back)).countP counts ≤
      (scan none front).countP counts + (scan none back).countP counts := by
  by_cases cuts : CutsCharacter front back
  · exact Nat.le_of_lt (countP_scan_append_lt fault cuts)
  · exact Nat.le_of_eq (by rw [scan_append_of_not_cuts cuts, List.countP_append])

end Fragments

end Montage.Text.Utf8
