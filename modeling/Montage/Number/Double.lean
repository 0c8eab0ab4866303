import Montage.Number.Rounding

/-!
Double precision numbers. A finite double is a signed whole number of units of `2 ^ -1074`, so
each operation is the exact operation on whole numbers followed by one rounding to 53
significant bits, ties to even. NaN, the infinities and the sign of zero are kept.
-/

namespace Montage

/-- The first count of units that is beyond every finite double. -/
def Double.limit : Nat := Nat.pow 2 2098

theorem Double.limit_pos : 0 < Double.limit := by
  unfold limit
  generalize 2098 = n
  exact Nat.two_pow_pos n

/-- `units` is the magnitude of a finite double, counted in units of `2 ^ -1074`. -/
structure Double.Fits (units : Nat) : Prop where
  bits : SignificantBits units
  bounded : units < Double.limit

theorem Double.fits_iff {units : Nat} :
    Double.Fits units ↔ SignificantBits units ∧ units < Double.limit :=
  ⟨fun h => ⟨h.bits, h.bounded⟩, fun h => ⟨h.1, h.2⟩⟩

instance (units : Nat) : Decidable (Double.Fits units) :=
  decidable_of_iff' _ Double.fits_iff

/-- A double precision number. -/
inductive Double where
  | nan
  | infinite (negative : Bool)
  | finite (negative : Bool) (units : Nat) (fits : Double.Fits units)
  deriving DecidableEq

/-- Why a number has no whole or no double precision counterpart. -/
inductive NumberError where
  /-- NaN is no whole number. -/
  | nan
  /-- An infinity is no whole number. -/
  | infinite
  /-- The number is beyond the largest double. -/
  | tooLarge
  | divisionByZero
  /-- A text is no number. -/
  | notNumeral
  deriving DecidableEq, Repr

namespace Double

/-- The number of units in one. -/
def one : Nat := Nat.pow 2 1074

theorem fits_zero : Fits 0 := ⟨Nat.dvd_zero _, limit_pos⟩

/-- Zero, with its sign. -/
def signedZero (negative : Bool) : Double := .finite negative 0 fits_zero

/-- The double nearest to `num / den` units; beyond the largest double, an infinity. -/
def nearest (negative : Bool) (num den : Nat) : Double :=
  if h : roundBits num den < limit then
    .finite negative (roundBits num den) ⟨significantBits_roundBits num den, h⟩
  else
    .infinite negative

/-- The double nearest to `num / den`. -/
def ofRatio (negative : Bool) (num den : Nat) : Double := nearest negative (num * one) den

/-- A rounded number, unless it was beyond the largest double. -/
def inRange : Double → Except NumberError Double
  | .infinite _ => .error .tooLarge
  | x => .ok x

/-- The double nearest to a whole number, unless it is beyond the largest one. -/
def ofInt (n : Int) : Except NumberError Double := inRange (ofRatio (n < 0) n.natAbs 1)

/-- The quotient of two whole numbers, rounded once. -/
def ofQuotient (n d : Int) : Except NumberError Double :=
  if d = 0 then .error .divisionByZero
  else inRange (ofRatio ((n < 0) != (d < 0)) n.natAbs d.natAbs)

/-- The double nearest to `±mantissa · 10 ^ exponent`. Exponents so far out that the result is
an infinity or zero whatever the mantissa are answered without the power of ten. -/
def ofDecimal (negative : Bool) (mantissa : Nat) (exponent : Int) : Double :=
  if mantissa = 0 then signedZero negative
  else if 400 < exponent then .infinite negative
  else if exponent < -(400 + mantissa.log2 : Int) then signedZero negative
  else if 0 ≤ exponent then ofRatio negative (mantissa * Nat.pow 10 exponent.toNat) 1
  else ofRatio negative mantissa (Nat.pow 10 (-exponent).toNat)

/-- `units` with a sign. -/
def signed (negative : Bool) (units : Nat) : Int := if negative then -units else units

/-- The place of a double on a line of whole numbers, in units, with the infinities at the two
ends. NaN has none. -/
def position? : Double → Option Int
  | .nan => none
  | .infinite negative => some (signed negative limit)
  | .finite negative units _ => some (signed negative units)

/-- The exact value of a finite double. -/
def value : Double → Except NumberError Rat
  | .nan => .error .nan
  | .infinite _ => .error .infinite
  | .finite negative units _ => .ok (mkRat (signed negative units) one)

/-- The sign bit; that of NaN is not observed. -/
def isNegative : Double → Bool
  | .nan => false
  | .infinite negative => negative
  | .finite negative _ _ => negative

def isFinite : Double → Bool
  | .finite .. => true
  | _ => false

/-- Both zeros. -/
def isZero : Double → Bool
  | .finite _ units _ => units == 0
  | _ => false

/-! ### Order

NaN is neither below, above nor equal to anything; the two zeros are equal. -/

def lt (x y : Double) : Bool :=
  match x.position?, y.position? with
  | some a, some b => a < b
  | _, _ => false

def le (x y : Double) : Bool :=
  match x.position?, y.position? with
  | some a, some b => a ≤ b
  | _, _ => false

instance : LT Double := ⟨fun x y => x.lt y = true⟩
instance : LE Double := ⟨fun x y => x.le y = true⟩
instance : DecidableLT Double := fun x y => inferInstanceAs (Decidable (x.lt y = true))
instance : DecidableLE Double := fun x y => inferInstanceAs (Decidable (x.le y = true))

instance : BEq Double where
  beq x y :=
    match x.position?, y.position? with
    | some a, some b => a == b
    | _, _ => false

/-! ### Arithmetic -/

def neg : Double → Double
  | .nan => .nan
  | .infinite negative => .infinite !negative
  | .finite negative units h => .finite (!negative) units h

/-- The sum; an exact zero is negative only when both summands are. -/
def add : Double → Double → Double
  | .nan, _ | _, .nan => .nan
  | .infinite a, .infinite b => if a = b then .infinite a else .nan
  | .infinite a, _ | _, .infinite a => .infinite a
  | .finite a m _, .finite b n _ =>
    let sum := signed a m + signed b n
    if sum = 0 then signedZero (a && b) else nearest (sum < 0) sum.natAbs 1

def sub (x y : Double) : Double := x.add y.neg

def mul : Double → Double → Double
  | .nan, _ | _, .nan => .nan
  | .infinite a, .infinite b => .infinite (a != b)
  | .infinite a, .finite b n _ | .finite b n _, .infinite a =>
    if n = 0 then .nan else .infinite (a != b)
  | .finite a m _, .finite b n _ => nearest (a != b) (m * n) one

/-- The quotient; a nonzero number over zero is an infinity. -/
def div : Double → Double → Double
  | .nan, _ | _, .nan => .nan
  | .infinite _, .infinite _ => .nan
  | .infinite a, .finite b _ _ => .infinite (a != b)
  | .finite a _ _, .infinite b => signedZero (a != b)
  | .finite a m _, .finite b n _ =>
    if n = 0 then (if m = 0 then .nan else .infinite (a != b))
    else nearest (a != b) (m * one) n

instance : Neg Double := ⟨neg⟩
instance : Add Double := ⟨add⟩
instance : Sub Double := ⟨sub⟩
instance : Mul Double := ⟨mul⟩
instance : Div Double := ⟨div⟩

/-- A whole number as a double; used for small constants. -/
instance (n : Nat) : OfNat Double n := ⟨ofRatio false n 1⟩

instance : Inhabited Double := ⟨signedZero false⟩

/-- The exact remainder of a division truncated toward zero; it has the sign of `x`. -/
def remainder : Double → Double → Double
  | .nan, _ | _, .nan => .nan
  | .infinite _, _ => .nan
  | x@(.finite ..), .infinite _ => x
  | .finite a m _, .finite _ n _ => if n = 0 then .nan else nearest a (m % n) 1

/-- The largest whole double not above `x`. -/
def floor : Double → Double
  | .finite negative units h =>
    let whole := (signed negative units).fdiv one
    if whole = 0 then signedZero negative
    else if units % one = 0 then .finite negative units h
    else ofRatio (whole < 0) whole.natAbs 1
  | x => x

/-- The quotient rounded down to a whole number. The exact remainder is taken off first, given
the sign of the divisor, and what is left is divided and moved to the nearest whole number. -/
def floorDiv (x y : Double) : Double :=
  let r := x.remainder y
  let q := (x - r) / y
  -- A remainder of the other sign belongs to the next lower quotient.
  let q := if !r.isZero && (decide (y < 0) != decide (r < 0)) then q - 1 else q
  if q.isZero then signedZero (x / y).isNegative
  else
    -- The quotient is whole but for the rounding of the division.
    let down := q.floor
    if ofRatio false 1 2 < q - down then down + 1 else down

/-- Rounded to six decimal places, ties to even; the sign of zero is kept. -/
def roundSixPlaces : Double → Double
  | .finite negative units _ =>
    ofRatio negative (roundDiv (units * million) one) million
  | x => x

end Double

end Montage
