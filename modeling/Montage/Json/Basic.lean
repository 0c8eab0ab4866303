import Montage.Number.Shortest

/-!
JSON values. Whole numbers are kept apart from other numbers, and the fields of an object keep
the order in which they were given. The type of the other numbers is a parameter.
-/

namespace Montage

/-- A JSON value whose numbers that are not whole are of type `ν`. -/
inductive Json (ν : Type) where
  | null
  | bool (b : Bool)
  | int (n : Int)
  | real (x : ν)
  | text (s : String)
  | list (items : List (Json ν))
  | object (fields : List (String × Json ν))
  deriving Repr, Inhabited

namespace Json

variable {ν : Type}

/-- Fields with a value added: in place of a former value of that name, else at the end. -/
def insertField (name : String) (value : Json ν) :
    List (String × Json ν) → List (String × Json ν)
  | [] => [(name, value)]
  | (other, v) :: rest =>
    if other = name then (name, value) :: rest
    else (other, v) :: insertField name value rest

/-- The fields of an object; none of any other value. -/
def fields : Json ν → List (String × Json ν)
  | .object fields => fields
  | _ => []

/-- The value of a field of an object. -/
def get? (value : Json ν) (name : String) : Option (Json ν) := value.fields.lookup name

/-- A text or null. -/
def ofText? : Option String → Json ν
  | some s => .text s
  | none => .null

/-- A whole number or null. -/
def ofInt? : Option Int → Json ν
  | some n => .int n
  | none => .null

/-- Another number or null. -/
def ofReal? : Option ν → Json ν
  | some x => .real x
  | none => .null

def ofTexts (items : List String) : Json ν := .list (items.map .text)

end Json

end Montage
