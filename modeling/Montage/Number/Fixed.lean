import Montage.Number.Rounding
import Montage.Text.Character

/-!
Fixed point text with at most six decimal places and no trailing zeros. A number is written with all
six places, and then what says nothing is taken off its end.
-/

namespace Montage

/-- `digits` padded with leading zeros to six places. -/
def padSix (n : Nat) : List Char :=
  let digits := (toString n).toList
  List.replicate (6 - digits.length) '0' ++ digits

/-- `count / 10 ^ 6` behind a sign, with all six places. -/
def sixPlaces (negative : Bool) (count : Nat) : List Char :=
  (if negative then ['-'] else []) ++ (toString (count / million)).toList ++
    '.' :: padSix (count % million)

/-- A number of six places without the zeros at its end, and without a point that is left there. -/
def trimPlaces (cs : List Char) : List Char :=
  Text.dropEndWhile (· == '.') (Text.dropEndWhile (· == '0') cs)

/-- The text of `count / 10 ^ 6` behind a sign; zero has none. -/
def fixedText (negative : Bool) (count : Nat) : String :=
  let cs := trimPlaces (sixPlaces negative count)
  if cs = ['-', '0'] || cs = [] then "0" else String.ofList cs

/-- A number of millionths, rounded to the nearest, ties to even. -/
def millionths (q : Rat) : Int := roundHalfEven (mkRat (q.num * million) q.den)

end Montage
