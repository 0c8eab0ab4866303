import Montage.Json.Basic
import Montage.Number.Scalar
import Montage.Text.Numeral
import Montage.Timestamp

/-!
Decoding of JSON values into domain types. A decoder reports every problem that it finds, each at
its place, in the order in which the fields are declared; conditions on whole values are checked
only when no field has a problem.
-/

namespace Montage

/-- What is wrong at one place. -/
inductive ProblemKind where
  | missing
  | textType
  | numberType
  | numberParsing
  | integerType
  | integerParsing
  | integerFromFraction
  | integerTooLong
  | notFinite
  | flagType
  | flagParsing
  | literal
  | atLeast
  | above
  | atMost
  | listType
  | objectType
  | recordType
  | attributesType
  | tagMissing
  | tagUnknown
  | pairType
  | pairTooLong
  | momentType
  | momentParsing
  /-- A condition on a whole value does not hold. -/
  | refused (message : String)
  deriving DecidableEq, Repr

/-- The name of a kind of problem in reports. -/
def ProblemKind.text : ProblemKind → String
  | .missing => "missing"
  | .textType => "string_type"
  | .numberType => "float_type"
  | .numberParsing => "float_parsing"
  | .integerType => "int_type"
  | .integerParsing => "int_parsing"
  | .integerFromFraction => "int_from_float"
  | .integerTooLong => "int_parsing_size"
  | .notFinite => "finite_number"
  | .flagType => "bool_type"
  | .flagParsing => "bool_parsing"
  | .literal => "literal_error"
  | .atLeast => "greater_than_equal"
  | .above => "greater_than"
  | .atMost => "less_than_equal"
  | .listType => "list_type"
  | .objectType => "dict_type"
  | .recordType => "model_type"
  | .attributesType => "model_attributes_type"
  | .tagMissing => "union_tag_not_found"
  | .tagUnknown => "union_tag_invalid"
  | .pairType => "tuple_type"
  | .pairTooLong => "too_long"
  | .momentType => "datetime_type"
  | .momentParsing => "datetime_from_date_parsing"
  | .refused message => "value_error (" ++ message ++ ")"

/-- A problem and the names and indices that lead to its place. -/
structure Problem where
  path : List String
  kind : ProblemKind
  deriving DecidableEq, Repr

/-- Problems as one text. -/
def Problem.report (problems : List Problem) : String :=
  "; ".intercalate (problems.map fun p => ".".intercalate p.path ++ ": " ++ p.kind.text)

/-- A value, or all the problems that stand against it. -/
inductive Checked (α : Type) where
  | ok (value : α)
  | problems (found : List Problem)

/-- What turns a JSON value into a value of a domain type. -/
abbrev Decoder (α : Type) := Json Double → Checked α

namespace Checked

variable {α β : Type}

/-- One problem at the place itself. -/
def fail (kind : ProblemKind) : Checked α := .problems [⟨[], kind⟩]

def map (f : α → β) : Checked α → Checked β
  | .ok a => .ok (f a)
  | .problems found => .problems found

/-- Both values, or the problems of both. -/
def both : Checked α → Checked β → Checked (α × β)
  | .ok a, .ok b => .ok (a, b)
  | .ok _, .problems found => .problems found
  | .problems found, .ok _ => .problems found
  | .problems found, .problems more => .problems (found ++ more)

/-- A further check of a value that has no problem so far. -/
def andThen : Checked α → (α → Checked β) → Checked β
  | .ok a, f => f a
  | .problems found, _ => .problems found

/-- The problems with a step in front of their paths. -/
def under (step : String) : Checked α → Checked α
  | .ok a => .ok a
  | .problems found => .problems (found.map fun p => { p with path := step :: p.path })

/-- All values, or the problems of all. -/
def all : List (Checked α) → Checked (List α)
  | [] => .ok []
  | c :: rest => (c.both (all rest)).map fun (a, as) => a :: as

def toExcept : Checked α → Except (List Problem) α
  | .ok a => .ok a
  | .problems found => .error found

instance : Functor Checked where
  map := map

instance : Applicative Checked where
  pure := .ok
  seq f x := (f.both (x ())).map fun (f, a) => f a

end Checked

namespace Decode

variable {α : Type}

def text : Decoder String
  | .text s => .ok s
  | _ => .fail .textType

/-- A number, a flag as 0 or 1, or a text that denotes a number. -/
def number : Decoder Double
  | .real x => .ok x
  | .int n =>
    match Double.ofInt n with
    | .ok x => .ok x
    | .error _ => .fail .numberType
  | .bool b => .ok (if b then 1 else 0)
  | .text s =>
    match Text.plainDecimal? s with
    | some x => .ok x
    | none => .fail .numberParsing
  | _ => .fail .numberType

/-- The whole number that a number is, if it fits into 64 bits. -/
def wholeOfNumber (x : Double) : Except ProblemKind Int :=
  match x.value with
  | .error _ => .error .notFinite
  | .ok q =>
    if q.den ≠ 1 then .error .integerFromFraction
    -- A signed number of 64 bits, the least one left out.
    else if 2 * q.num.natAbs < UInt64.size then .ok q.num
    else .error .integerTooLong

/-- A whole number, a flag as 0 or 1, a number without a fraction, or a text that denotes a
whole number. -/
def integer : Decoder Int
  | .int n => .ok n
  | .bool b => .ok (if b then 1 else 0)
  | .real x =>
    match wholeOfNumber x with
    | .ok n => .ok n
    | .error kind => .fail kind
  | .text s =>
    match Text.plainWhole? s with
    | some n => .ok n
    | none => .fail .integerParsing
  | _ => .fail .integerType

/-- The words for a flag that is set, and for one that is not. -/
def flagWords : List String × List String :=
  (["1", "t", "y", "on", "yes", "true"], ["0", "f", "n", "no", "off", "false"])

/-- A flag, the numbers 0 and 1, or a word for a flag in any case. -/
def flag : Decoder Bool
  | .bool b => .ok b
  | .int n => ofWhole n
  | .real x =>
    match wholeOfNumber x with
    | .ok n => ofWhole n
    | .error _ => .fail .flagType
  | .text s =>
    let word := String.ofList (s.toList.map Char.toLower)
    if flagWords.1.contains word then .ok true
    else if flagWords.2.contains word then .ok false
    else .fail .flagParsing
  | _ => .fail .flagType
where
  /-- The flag that 0 or 1 stands for. -/
  ofWhole (n : Int) : Checked Bool :=
    if n = 0 then .ok false else if n = 1 then .ok true else .fail .flagParsing

/-- A moment as text or as seconds since the start of 1970. -/
def moment : Decoder Timestamp
  | .text s => ofOption (Timestamp.read? s)
  | .int n => ofOption (Timestamp.ofUnix? n)
  | .real x => ofOption (x.value.toOption.bind Timestamp.ofUnix?)
  | _ => .fail .momentType
where
  ofOption : Option Timestamp → Checked Timestamp
    | some t => .ok t
    | none => .fail .momentParsing

/-- One of some words, each with its meaning. -/
def literal (words : List (String × α)) : Decoder α
  | .text s =>
    match words.lookup s with
    | some a => .ok a
    | none => .fail .literal
  | _ => .fail .literal

/-- Null, or a value. -/
def optional (decode : Decoder α) : Decoder (Option α)
  | .null => .ok none
  | value => (decode value).map some

/-- Checked items, each under its index. -/
def itemsFrom (decode : Decoder α) : Nat → List (Json Double) → List (Checked α)
  | _, [] => []
  | i, item :: rest => (decode item).under (toString i) :: itemsFrom decode (i + 1) rest

def list (decode : Decoder α) : Decoder (List α)
  | .list items => .all (itemsFrom decode 0 items)
  | _ => .fail .listType

/-- An object whose fields all have values of one type. -/
def table (decode : Decoder α) : Decoder (List (String × α))
  | .object fields =>
    .all (fields.map fun (name, value) => ((decode value).under name).map fun a => (name, a))
  | _ => .fail .objectType

/-- A list of exactly two. -/
def pair (decode : Decoder α) : Decoder (α × α)
  | .list items =>
    let item (i : Nat) : Checked α :=
      (match items[i]? with | some value => decode value | none => .fail .missing).under
        (toString i)
    if 2 < items.length then .fail .pairTooLong else (item 0).both (item 1)
  | _ => .fail .pairType

/-- A value that must satisfy a condition. -/
def ensure (decode : Decoder α) (kind : ProblemKind) (holds : α → Bool) : Decoder α :=
  fun value => (decode value).andThen fun a => if holds a then .ok a else .fail kind

/-- A number that is not negative. -/
def nonnegative : Decoder { x : Double // Scalar.zero ≤ x } := fun value =>
  (number value).andThen fun x =>
    if h : Scalar.zero ≤ x then .ok ⟨x, h⟩ else .fail .atLeast

/-- A whole number above zero. -/
def positive : Decoder Int := ensure integer .above fun n => 0 < n

/-- A number from 0 to 100. -/
def percent : Decoder Double :=
  ensure (ensure number .atMost fun x => x ≤ 100) .atLeast fun x => Scalar.zero ≤ x

/-- The fields of a record. -/
abbrev Fields := List (String × Json Double)

/-- A record, decoded from its fields. -/
def record (decode : Fields → Checked α) : Decoder α
  | .object fields => decode fields
  | _ => .fail .recordType

/-- A field that must be there. -/
def required (fields : Fields) (name : String) (decode : Decoder α) : Checked α :=
  match fields.lookup name with
  | some value => (decode value).under name
  | none => (Checked.fail .missing).under name

/-- A field that may be left out. -/
def withDefault (fields : Fields) (name : String) (default : α) (decode : Decoder α) :
    Checked α :=
  match fields.lookup name with
  | some value => (decode value).under name
  | none => .ok default

end Decode

end Montage
