import Montage.Number.Double

/-!
The shortest decimal that reads back as a given double, and the layouts in which it is written.

The reals that round to a double form an interval around it, with its ends when the last of its
53 bits is zero. For one digit, two digits and so on up to seventeen, the two neighbours of the
double among the decimals of that many digits are tried; the first count of digits with a
neighbour inside the interval wins, and of two such neighbours the nearer one.
-/

namespace Montage

/-- A positive decimal `digits · 10 ^ exponent`. -/
structure Decimal where
  digits : Nat
  exponent : Int
  deriving DecidableEq, Repr

namespace Decimal

/-- Whether `digits · 10 ^ exponent` lies strictly between (or, if `closed`, at most at) the
ends `low · 2 ^ -1076` and `high · 2 ^ -1076`. -/
def inside (low high : Nat) (closed : Bool) (d : Decimal) : Bool :=
  let scaled := d.digits * Nat.pow 2 1076 * Nat.pow 10 d.exponent.toNat
  let low := low * Nat.pow 10 (-d.exponent).toNat
  let high := high * Nat.pow 10 (-d.exponent).toNat
  if closed then low ≤ scaled && scaled ≤ high else low < scaled && scaled < high

/-- Trailing zeros moved into the exponent, at most `fuel` of them. -/
def normalize : Nat → Decimal → Decimal
  | 0, d => d
  | fuel + 1, d =>
    if d.digits % 10 = 0 then normalize fuel ⟨d.digits / 10, d.exponent + 1⟩ else d

/-- The number of digits in front of the point of `units · 2 ^ -1074`, negative when the
fraction starts with zeros. Every positive double has a digit within 330 decimal places. -/
def pointPosition (units : Nat) : Int :=
  ((Nat.toDigits 10 (units * Nat.pow 10 330 / Double.one)).length : Int) - (330 : Nat)

/-- The decimal of `count` digits nearest to a double among those inside its interval. -/
def ofCount? (units low high : Nat) (closed : Bool) (point : Int) (count : Nat) :
    Option Decimal :=
  let exponent := point - count
  let num := units * Nat.pow 10 (-exponent).toNat
  let den := Double.one * Nat.pow 10 exponent.toNat
  let below : Decimal := ⟨num / den, exponent⟩
  let above : Decimal := ⟨num / den + 1, exponent⟩
  let rest := 2 * (num % den)
  match below.inside low high closed, above.inside low high closed with
  | true, true =>
    if rest < den || (rest == den && below.digits % 2 == 0) then some below else some above
  | true, false => some below
  | false, true => some above
  | false, false => none

/-- The shortest decimal that reads back as the finite double of `units`, and of those the
nearest. -/
def shortest (units : Nat) : Decimal :=
  let spacing := Nat.pow 2 (units.log2 - 52)
  -- Below a power of two the neighbours lie half as far apart.
  let lower := if units = Nat.pow 2 units.log2 && 1 < spacing then spacing else 2 * spacing
  let low := 4 * units - lower
  let high := 4 * units + 2 * spacing
  -- A tie goes to the double whose last bit is zero, so the ends round to such a double.
  let closed := units / spacing % 2 == 0
  let point := pointPosition units
  let tried := (List.range 17).findSome? fun n =>
    ofCount? units low high closed point (n + 1)
  normalize 20 (tried.getD ⟨0, 0⟩)

end Decimal

/-- How the digits of a double are laid out as text. -/
structure DoubleLayout where
  /-- Written positionally when the point falls after more than this many digits… -/
  pointAbove : Int
  /-- …and at most this many. -/
  pointAtMost : Int
  /-- The least number of digits of an exponent. -/
  exponentDigits : Nat
  /-- Whether an exponent that is not negative has a plus sign. -/
  plusSign : Bool
  nan : String
  infinity : String

namespace DoubleLayout

/-- Zeros in front of the decimal text of `n` up to `width` digits. -/
def padded (width n : Nat) : String :=
  let digits := toString n
  String.ofList (List.replicate (width - digits.length) '0') ++ digits

/-- An exponent behind its mark. -/
def exponentText (layout : DoubleLayout) (exponent : Int) : String :=
  (if exponent < 0 then "-" else if layout.plusSign then "+" else "") ++
    padded layout.exponentDigits exponent.natAbs

/-- A positive decimal, without its sign. -/
def decimalText (layout : DoubleLayout) (d : Decimal) : String :=
  let digits := (toString d.digits).toList
  let point : Int := digits.length + d.exponent
  let zeros (n : Int) := List.replicate n.toNat '0'
  if layout.pointAbove < point && point ≤ layout.pointAtMost then
    if point ≤ 0 then
      "0." ++ String.ofList (zeros (-point) ++ digits)
    else if point < digits.length then
      String.ofList (digits.take point.toNat) ++ "." ++ String.ofList (digits.drop point.toNat)
    else
      String.ofList (digits ++ zeros (point - digits.length)) ++ ".0"
  else
    let fraction := digits.drop 1
    String.ofList (digits.take 1) ++
      (if fraction.isEmpty then "" else "." ++ String.ofList fraction) ++
      "e" ++ layout.exponentText (point - 1)

/-- The text of a double. -/
def text (layout : DoubleLayout) : Double → String
  | .nan => layout.nan
  | .infinite negative => (if negative then "-" else "") ++ layout.infinity
  | .finite negative units _ =>
    (if negative then "-" else "") ++
      (if units = 0 then "0.0" else layout.decimalText (Decimal.shortest units))

end DoubleLayout

end Montage
