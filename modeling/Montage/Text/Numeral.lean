import Montage.Number.Double
import Montage.Text.Character

/-!
Numbers written as text: whole numbers and decimals with an optional sign, blanks around them,
digits of any script and single underscores between digits, and the words for infinity and NaN.
The information separators are blanks, but none that a number may have around it. Numbers in fields
have only ASCII digits, with underscores that are neither at an end nor next to each other.
-/

namespace Montage.Text

/-- A longer run of digits is not read as a whole number. -/
def maxWholeDigits : Nat := 4300

/-- A blank that a number may have around it. -/
def isNumberBlank (c : Char) : Bool := isBlank c && !(0x1C ≤ c.toNat && c.toNat ≤ 0x1F)

/-- `cs` without the blanks that a number may have around it. -/
def stripNumber (cs : List Char) : List Char :=
  dropEndWhile isNumberBlank (cs.dropWhile isNumberBlank)

/-- The digits at the start of a text, an underscore between two digits skipped, and what
follows them. -/
def takeDigits : List Char → List Nat × List Char
  | [] => ([], [])
  | c :: rest =>
    match digitValue? c with
    | none => ([], c :: rest)
    | some d =>
      let more :=
        match rest with
        -- An underscore counts only between two digits.
        | '_' :: e :: rest' =>
          if isDecimalDigit e then takeDigits (e :: rest') else ([], rest)
        | rest => takeDigits rest
      (d :: more.1, more.2)

/-- The number that a list of decimal digits denotes. -/
def ofDigits (ds : List Nat) : Nat := ds.foldl (fun n d => 10 * n + d) 0

/-- The sign at the start of a text, `true` for a minus, and what follows it. -/
def takeSign : List Char → Bool × List Char
  | '-' :: rest => (true, rest)
  | '+' :: rest => (false, rest)
  | cs => (false, cs)

/-- A whole number. -/
def whole? (s : String) : Option Int :=
  let (negative, cs) := takeSign (stripNumber s.toList)
  match takeDigits cs with
  | (ds, []) =>
    if ds.isEmpty || maxWholeDigits < ds.length then none
    else some (if negative then -(ofDigits ds : Int) else ofDigits ds)
  | _ => none

/-- A double named by a word, in any case. -/
def namedDouble? (negative : Bool) (cs : List Char) : Option Double :=
  let word := String.ofList (cs.map Char.toLower)
  if word = "inf" || word = "infinity" then some (.infinite negative)
  else if word = "nan" then some .nan
  else none

/-- The exponent at the end of a decimal; an empty rest is the exponent zero. -/
def exponent? : List Char → Option Int
  | [] => some 0
  | e :: rest =>
    if e = 'e' || e = 'E' then
      let (negative, cs) := takeSign rest
      match takeDigits cs with
      | (d :: ds, []) => some (if negative then -(ofDigits (d :: ds) : Int) else ofDigits (d :: ds))
      | _ => none
    else none

/-- A decimal without its sign. -/
def unsignedDecimal? (negative : Bool) (cs : List Char) : Option Double :=
  let (whole, rest) := takeDigits cs
  let (fraction, rest) :=
    match rest with
    | '.' :: rest => takeDigits rest
    | rest => ([], rest)
  if whole.isEmpty && fraction.isEmpty then none
  else
    (exponent? rest).map fun e =>
      .ofDecimal negative (ofDigits (whole ++ fraction)) (e - fraction.length)

/-- A decimal, infinity or NaN, rounded to the nearest double. -/
def decimal? (s : String) : Option Double :=
  let (negative, cs) := takeSign (stripNumber s.toList)
  namedDouble? negative cs <|> unsignedDecimal? negative cs

/-! ### Numbers in fields -/

/-- A text without its underscores, unless one is at an end or next to another. -/
def dropUnderscores? (cs : List Char) : Option (List Char) :=
  let doubled := (cs.zip cs.tail).any fun (a, b) => a = '_' && b = '_'
  if cs.head? = some '_' || cs.getLast? = some '_' || doubled then none
  else some (cs.filter (· ≠ '_'))

/-- A decimal, infinity or NaN in ASCII, rounded to the nearest double. -/
def plainDecimal? (s : String) : Option Double := do
  let cs ← dropUnderscores? (stripNumber s.toList)
  if cs.all fun c => c.toNat < 0x80 && !isBlank c then decimal? (String.ofList cs) else none

/-- A numeral without a fraction, or with a fraction of zeros. -/
def dropZeroFraction? (cs : List Char) : Option (List Char) :=
  let fraction := cs.dropWhile (· ≠ '.')
  if (fraction.drop 1).all (· = '0') then some (cs.takeWhile (· ≠ '.')) else none

/-- A numeral without zeros at its start, the last one kept if nothing else is in front of the
point. -/
def dropLeadingZeros (cs : List Char) : List Char :=
  let rest := cs.dropWhile (· = '0')
  match rest with
  | [] => if cs.isEmpty then [] else ['0']
  | c :: _ => if c = '.' && cs.head? = some '0' then '0' :: rest else rest

/-- A whole number in ASCII; a fraction of zeros and zeros at the start are allowed. -/
def plainWhole? (s : String) : Option Int := do
  let (negative, cs) := takeSign (stripNumber s.toList)
  let cs ← dropZeroFraction? (dropLeadingZeros cs)
  let cs ← dropUnderscores? cs
  if cs.isEmpty || !cs.all Char.isDigit then none
  let n : Int := ofDigits (cs.map fun c => c.toNat - '0'.toNat)
  return if negative then -n else n

end Montage.Text
