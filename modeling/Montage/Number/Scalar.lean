import Montage.Number.Double
import Montage.Number.Fixed
import Montage.Number.Shortest

/-!
The numbers in which times are measured. Everything that computes with times is stated for any
`Scalar`; it runs on doubles, and on rationals it is the same computation without rounding.
-/

namespace Montage

/-- The way in which doubles are written: the shortest digits that read back, with an exponent
below `10 ^ -4` and from `10 ^ 16` on. -/
def plainLayout : DoubleLayout where
  pointAbove := -4
  pointAtMost := 16
  exponentDigits := 2
  plusSign := true
  nan := "nan"
  infinity := "inf"

/-- Numbers for times, with the rounding that their arithmetic has. -/
class Scalar (τ : Type) extends Add τ, Sub τ, Mul τ, Div τ, LT τ, LE τ, BEq τ where
  decLt : DecidableLT τ
  decLe : DecidableLE τ
  /-- The number nearest to `n · 10 ^ -places`. -/
  ofDecimal : (n : Int) → (places : Nat) → τ
  /-- The number nearest to a whole number. -/
  ofInt : Int → Except NumberError τ
  /-- The exact value of a finite number. -/
  value : τ → Except NumberError Rat
  /-- The number nearest to a quotient, rounded down to a whole number. -/
  floorDiv : τ → τ → τ
  /-- The number nearest to the decimal of six places that is nearest to a number. -/
  roundSixPlaces : τ → τ
  /-- The text of a number in a layout. -/
  write : DoubleLayout → τ → String
  /-- The number that a double stands for, if there is one. -/
  ofDouble? : Double → Option τ

attribute [reducible, instance] Scalar.decLt Scalar.decLe

instance : Scalar Double where
  decLt := inferInstance
  decLe := inferInstance
  ofDecimal n places := .ofDecimal (n < 0) n.natAbs (-places)
  ofInt := Double.ofInt
  value := Double.value
  floorDiv := Double.floorDiv
  roundSixPlaces := Double.roundSixPlaces
  write := DoubleLayout.text
  ofDouble? := some

instance : Scalar Rat where
  decLt := inferInstance
  decLe := inferInstance
  ofDecimal n places := mkRat n (Nat.pow 10 places)
  ofInt n := .ok n
  value := .ok
  floorDiv x y := ((x / y).floor : Int)
  roundSixPlaces x := mkRat (millionths x) million
  write _ := toString
  ofDouble? x := x.value.toOption

namespace Scalar

variable {τ : Type} [Scalar τ]

/-- The text of a number in messages and names. -/
def text (x : τ) : String := write plainLayout x

/-- Zero. -/
def zero : τ := ofDecimal 0 0

/-- A small whole number. -/
def whole (n : Nat) : τ := ofDecimal n 0

/-- The greater of two numbers, `x` unless `y` is above it. -/
def maxOf (x y : τ) : τ := if x < y then y else x

/-- The smaller of two numbers, `x` unless `y` is below it. -/
def minOf (x y : τ) : τ := if y < x then y else x

/-- The distance of a number from zero. -/
def magnitude (x : τ) : τ := if x < zero then zero - x else x

/-- The least whole number not below a number. -/
def ceil (x : τ) : Except NumberError Int := (value x).map Rat.ceil

/-- The whole number nearest to a number, ties to even. -/
def round (x : τ) : Except NumberError Int := (value x).map roundHalfEven

/-- The whole part of a number. -/
def truncate (x : τ) : Except NumberError Int :=
  (value x).map fun q => if q.num < 0 then -(-q).floor else q.floor

/-- The text of a number in JSON. -/
def jsonText (x : τ) : String :=
  match value x with
  | .ok _ => text x
  | .error .nan => "NaN"
  | .error _ => if x < zero then "-Infinity" else "Infinity"

/-- Fixed point text with at most six decimal places. -/
def fixed (x : τ) : String :=
  match value x with
  | .ok q => fixedText (q < 0) (millionths q).natAbs
  | .error .nan => "nan"
  | .error _ => if x < zero then "-inf" else "inf"

end Scalar

end Montage
