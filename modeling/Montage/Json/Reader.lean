import Montage.Json.Basic
import Montage.Text.Numeral

/-!
Reading JSON text. Beside the numbers of the grammar, the words `NaN`, `Infinity` and
`-Infinity` are numbers; a later field of an object replaces an earlier one of its name.
-/

namespace Montage.Json

/-- Why a text is not read. -/
inductive ReadError where
  /-- The text is not JSON. -/
  | malformed
  /-- A whole number has more digits than are read. -/
  | numeralTooLong
  /-- Values are nested deeper than are read. -/
  | tooDeep
  deriving DecidableEq, Repr

/-- What a reader does at the edges of the grammar. -/
structure Dialect where
  /-- Half of a surrogate pair on its own stands for U+FFFD instead of being an error. -/
  loneSurrogates : Bool
  /-- Values nested deeper are refused. -/
  maxDepth : Nat

abbrev ReadResult (α : Type) := Except ReadError (α × List Char)

/-- White space between tokens. -/
def isSpace (c : Char) : Bool := c = ' ' || c = '\t' || c = '\n' || c = '\r'

def skipSpace (cs : List Char) : List Char := cs.dropWhile isSpace

/-- The value of a hexadecimal digit. -/
def hexValue? (c : Char) : Option Nat :=
  if c.isDigit then some (c.toNat - '0'.toNat)
  else if 'a' ≤ c ∧ c ≤ 'f' then some (c.toNat - 'a'.toNat + 10)
  else if 'A' ≤ c ∧ c ≤ 'F' then some (c.toNat - 'A'.toNat + 10)
  else none

/-- Four hexadecimal digits. -/
def unit16? : List Char → Option (Nat × List Char)
  | a :: b :: c :: d :: rest => do
    let value := (← hexValue? a) * 4096 + (← hexValue? b) * 256 + (← hexValue? c) * 16
    return (value + (← hexValue? d), rest)
  | _ => none

/-- The low half of a surrogate pair, escaped. -/
def lowSurrogate? : List Char → Option (Nat × List Char)
  | '\\' :: 'u' :: rest =>
    match unit16? rest with
    | some (unit, rest) => if 0xDC00 ≤ unit ∧ unit < 0xE000 then some (unit, rest) else none
    | none => none
  | _ => none

/-- The character of an escape `\u` behind which `cs` stands. -/
def unicodeEscape? (dialect : Dialect) (cs : List Char) : Option (Char × List Char) :=
  match unit16? cs with
  | none => none
  | some (unit, rest) =>
    if unit < 0xD800 ∨ 0xE000 ≤ unit then some (Char.ofNat unit, rest)
    else
      let alone := if dialect.loneSurrogates then some ('\uFFFD', rest) else none
      if 0xDC00 ≤ unit then alone
      else
        match lowSurrogate? rest with
        | some (low, rest) =>
          some (Char.ofNat (0x10000 + (unit - 0xD800) * 0x400 + (low - 0xDC00)), rest)
        | none => alone

/-- The character of a short escape. -/
def shortEscape? (c : Char) : Option Char :=
  if c = '"' || c = '\\' || c = '/' then some c
  else if c = 'b' then some (Char.ofNat 0x08)
  else if c = 'f' then some (Char.ofNat 0x0C)
  else if c = 'n' then some '\n'
  else if c = 'r' then some '\r'
  else if c = 't' then some '\t'
  else none

/-- The rest of a text up to its closing quote; `fuel` bounds its length. -/
def readText (dialect : Dialect) : Nat → List Char → List Char → ReadResult String
  | 0, _, _ => .error .malformed
  | fuel + 1, done, cs =>
    match cs with
    | [] => .error .malformed
    | '"' :: rest => .ok (String.ofList done.reverse, rest)
    | '\\' :: 'u' :: rest =>
      match unicodeEscape? dialect rest with
      | some (c, rest) => readText dialect fuel (c :: done) rest
      | none => .error .malformed
    | '\\' :: c :: rest =>
      match shortEscape? c with
      | some c => readText dialect fuel (c :: done) rest
      | none => .error .malformed
    | c :: rest =>
      if c.toNat < 0x20 || c = '\\' then .error .malformed
      else readText dialect fuel (c :: done) rest

/-- The values of the ASCII digits at the start of a text, and what follows them. -/
def spanDigits (cs : List Char) : List Nat × List Char :=
  ((cs.takeWhile Char.isDigit).map fun c => c.toNat - '0'.toNat, cs.dropWhile Char.isDigit)

/-- A point with digits behind it, or nothing. -/
def readFraction : List Char → Option (List Nat) × List Char
  | '.' :: rest =>
    let (ds, rest') := spanDigits rest
    if ds.isEmpty then (none, '.' :: rest) else (some ds, rest')
  | cs => (none, cs)

/-- The digits of an exponent behind its mark, with the sign. -/
def readExponent : List Char → Option Int × List Char
  | e :: rest =>
    if e = 'e' || e = 'E' then
      let (negative, tail) := Text.takeSign rest
      let (ds, rest') := spanDigits tail
      if ds.isEmpty then (none, e :: rest)
      else
        let n : Int := Text.ofDigits ds
        (some (if negative then -n else n), rest')
    else (none, e :: rest)
  | [] => (none, [])

/-- A number whose sign and whole part are already taken. -/
def readNumberTail (negative : Bool) (whole : List Nat) (rest : List Char) :
    ReadResult (Json Double) :=
  let (fraction, rest) := readFraction rest
  let (exponent, rest) := readExponent rest
  match fraction, exponent with
  | none, none =>
    if Text.maxWholeDigits < whole.length then .error .numeralTooLong
    else
      let n : Int := Text.ofDigits whole
      .ok (.int (if negative then -n else n), rest)
  | _, _ =>
    let fraction := fraction.getD []
    .ok (.real (.ofDecimal negative (Text.ofDigits (whole ++ fraction))
      (exponent.getD 0 - fraction.length)), rest)

/-- A number, its sign already taken. A zero at its start is all of its whole part. -/
def readNumber (negative : Bool) : List Char → ReadResult (Json Double)
  | '0' :: rest => readNumberTail negative [0] rest
  | cs =>
    match spanDigits cs with
    | ([], _) => .error .malformed
    | (whole, rest) => readNumberTail negative whole rest

/-- `cs` behind `word`, if it starts with it. -/
def afterWord? (word : String) (cs : List Char) : Option (List Char) :=
  if word.toList.isPrefixOf cs then some (cs.drop word.length) else none

/-- A word or a number. -/
def readAtom (cs : List Char) : ReadResult (Json Double) :=
  let words : List (String × Json Double) :=
    [("null", .null), ("true", .bool true), ("false", .bool false), ("NaN", .real .nan),
      ("Infinity", .real (.infinite false)), ("-Infinity", .real (.infinite true))]
  match words.findSome? fun (word, value) => (afterWord? word cs).map (value, ·) with
  | some found => .ok found
  | none =>
    match cs with
    | '-' :: rest => readNumber true rest
    | cs => readNumber false cs

mutual

/-- A value at the start of a text, white space before it taken off; `fuel` bounds the number
of steps. -/
def readValue (dialect : Dialect) (fuel depth : Nat) (cs : List Char) :
    ReadResult (Json Double) :=
  match fuel with
  | 0 => .error .malformed
  | fuel + 1 =>
    match cs with
    | '"' :: rest =>
      match readText dialect (rest.length + 1) [] rest with
      | .error e => .error e
      | .ok (s, rest) => .ok (.text s, rest)
    | '[' :: rest =>
      if depth = 0 then .error .tooDeep
      else
        match skipSpace rest with
        | ']' :: rest => .ok (.list [], rest)
        | rest => readItems dialect fuel (depth - 1) [] rest
    | '\x7b' :: rest =>
      if depth = 0 then .error .tooDeep
      else
        match skipSpace rest with
        | '\x7d' :: rest => .ok (.object [], rest)
        | rest => readFields dialect fuel (depth - 1) [] rest
    | cs => readAtom cs

/-- The rest of a list, from the start of an item. -/
def readItems (dialect : Dialect) (fuel depth : Nat) (done : List (Json Double))
    (cs : List Char) : ReadResult (Json Double) :=
  match fuel with
  | 0 => .error .malformed
  | fuel + 1 =>
    match readValue dialect fuel depth cs with
    | .error e => .error e
    | .ok (item, rest) =>
      match skipSpace rest with
      | ',' :: rest => readItems dialect fuel depth (item :: done) (skipSpace rest)
      | ']' :: rest => .ok (.list (item :: done).reverse, rest)
      | _ => .error .malformed

/-- The rest of an object, from the quote of a name. -/
def readFields (dialect : Dialect) (fuel depth : Nat) (done : List (String × Json Double))
    (cs : List Char) : ReadResult (Json Double) :=
  match fuel with
  | 0 => .error .malformed
  | fuel + 1 =>
    match cs with
    | '"' :: rest =>
      match readText dialect (rest.length + 1) [] rest with
      | .error e => .error e
      | .ok (name, rest) =>
        match skipSpace rest with
        | ':' :: rest =>
          match readValue dialect fuel depth (skipSpace rest) with
          | .error e => .error e
          | .ok (value, rest) =>
            let done := insertField name value done
            match skipSpace rest with
            | ',' :: rest => readFields dialect fuel depth done (skipSpace rest)
            | '\x7d' :: rest => .ok (.object done, rest)
            | _ => .error .malformed
        | _ => .error .malformed
    | _ => .error .malformed

end

/-- The value that a text holds, with nothing but white space around it. -/
def read (dialect : Dialect) (s : String) : Except ReadError (Json Double) := do
  let cs := skipSpace s.toList
  let (value, rest) ← readValue dialect (2 * cs.length + 2) dialect.maxDepth cs
  if (skipSpace rest).isEmpty then .ok value else .error .malformed

end Montage.Json
