/-!
Reading bytes as UTF-8. Bytes are cut into characters and faults, where a fault is a byte that
cannot begin a character or a character that is broken off; a broken character is one fault
however many of its bytes are there.
-/

namespace Montage.Text.Utf8

/-- A character of which `owed` bytes are still to come, the next of them between `low` and
`high`. -/
structure Pending where
  owed : Nat
  low : Nat
  high : Nat
  bits : Nat

/-- What a byte means where a character begins. -/
inductive Lead where
  | char (c : Char)
  | more (pending : Pending)
  | fault

/-- The meaning of a first byte. The narrowed ranges of second bytes leave out characters that
are written too long, surrogates, and code points above `0x10FFFF`. -/
def lead (b : Nat) : Lead :=
  if b < 0x80 then .char (Char.ofNat b)
  else if b < 0xC2 then .fault
  else if b < 0xE0 then .more ⟨1, 0x80, 0xBF, b - 0xC0⟩
  else if b < 0xF0 then
    .more ⟨2, if b = 0xE0 then 0xA0 else 0x80, if b = 0xED then 0x9F else 0xBF, b - 0xE0⟩
  else if b < 0xF5 then
    .more ⟨3, if b = 0xF0 then 0x90 else 0x80, if b = 0xF4 then 0x8F else 0xBF, b - 0xF0⟩
  else .fault

/-- The pending character after a byte in its range. -/
def Pending.push (p : Pending) (b : Nat) : Lead :=
  let bits := p.bits * 64 + (b - 0x80)
  if p.owed ≤ 1 then .char (Char.ofNat bits) else .more ⟨p.owed - 1, 0x80, 0xBF, bits⟩

/-- The characters of `bytes`, with `none` for each fault. -/
def scan : Option Pending → List UInt8 → List (Option Char)
  | none, [] => []
  | some _, [] => [none]
  | pending, b :: rest =>
    let first (_ : Unit) : List (Option Char) :=
      match lead b.toNat with
      | .char c => some c :: scan none rest
      | .more p => scan (some p) rest
      | .fault => none :: scan none rest
    match pending with
    | none => first ()
    | some p =>
      if p.low ≤ b.toNat ∧ b.toNat ≤ p.high then
        match p.push b.toNat with
        | .char c => some c :: scan none rest
        | .more p => scan (some p) rest
        | .fault => none :: scan none rest
      else
        none :: first ()

/-- The text of `bytes`, with U+FFFD for each fault. -/
def decodeLossy (bytes : List UInt8) : String :=
  String.ofList ((scan none bytes).map fun c => c.getD '\uFFFD')

/-- The text of `bytes`, if they hold no fault. -/
def decode? (bytes : List UInt8) : Option String :=
  ((scan none bytes).mapM id).map String.ofList

def encode (s : String) : List UInt8 := s.toUTF8.toList

end Montage.Text.Utf8
