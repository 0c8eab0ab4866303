import Montage.Number.Scalar

/-!
Filters: a name with values, some of them under keys. Times stay numbers inside a value until
the filter is written, so that a graph can be read back as what happens at which time.
-/

namespace Montage

/-- A value that a filter is given. -/
inductive FilterValue (τ : Type) where
  | none
  | flag (b : Bool)
  | int (n : Int)
  | number (x : τ)
  | text (s : String)
  /-- An expression in quotes; its commas and colons separate nothing. -/
  | quoted (expression : String)
  /-- True from `start` to `stop`, both included. -/
  | gate (start stop : τ)
  /-- Time stamps that start at `offset`. -/
  | shift (offset : τ)
  /-- The same delay of each of two channels, in milliseconds. -/
  | delay (milliseconds : Int)

/-- A filter with its values: those without a key come first. -/
structure Filter (τ : Type) where
  name : String
  positional : List (FilterValue τ) := []
  options : List (String × FilterValue τ) := []

namespace Filter

variable {τ : Type}

/-- A filter whose values all have keys. -/
def withOptions (name : String) (options : List (String × FilterValue τ)) : Filter τ :=
  { name, options }

/-- A filter whose values have no keys. -/
def withValues (name : String) (positional : List (FilterValue τ)) : Filter τ :=
  { name, positional }

/-- The first value under a key. -/
def option? (filter : Filter τ) (key : String) : Option (FilterValue τ) :=
  filter.options.lookup key

end Filter

variable {τ : Type} [Scalar τ]

namespace FilterValue

/-- The expression inside the quotes of a gate. -/
def gateExpression (start stop : τ) : String :=
  "between(t," ++ Scalar.fixed start ++ "," ++ Scalar.fixed stop ++ ")"

/-- The text of a value. A whole number is written as the nearest number that times have. -/
def print : FilterValue τ → Except NumberError String
  | .none => .ok "None"
  | .flag b => .ok (if b then "1" else "0")
  | .int n => (Scalar.ofInt n : Except NumberError τ).map Scalar.fixed
  | .number x => .ok (Scalar.fixed x)
  | .text s => .ok s
  | .quoted expression => .ok ("'" ++ expression ++ "'")
  | .gate start stop => .ok ("'" ++ gateExpression start stop ++ "'")
  | .shift offset => .ok ("PTS-STARTPTS+" ++ Scalar.fixed offset ++ "/TB")
  | .delay milliseconds => .ok (toString milliseconds ++ "|" ++ toString milliseconds)

end FilterValue

namespace Filter

/-- The values of a filter as text, each behind its key if it has one. -/
def printValues (filter : Filter τ) : Except NumberError (List String) := do
  let positional ← filter.positional.mapM FilterValue.print
  let options ← filter.options.mapM fun (key, value) => do
    return key ++ "=" ++ (← value.print)
  return positional ++ options

/-- The text of a filter. -/
def print (filter : Filter τ) : Except NumberError String := do
  let values ← filter.printValues
  return if values.isEmpty then filter.name else filter.name ++ "=" ++ ":".intercalate values

end Filter

end Montage
