import Montage.Json.Basic

/-!
JSON as text. The compact form has no blanks, its fields sorted by name and everything but ASCII
escaped; the indented form keeps the order of fields and the characters of texts.
-/

namespace Montage.Json

variable {ν : Type}

/-- `n` in hexadecimal with four digits. -/
def hex4 (n : Nat) : String :=
  let digits := Nat.toDigits 16 n
  String.ofList (List.replicate (4 - digits.length) '0' ++ digits)

/-- The UTF-16 units of a character. -/
def units16 (c : Char) : List Nat :=
  if c.toNat < 0x10000 then [c.toNat]
  else [0xD800 + (c.toNat - 0x10000) / 0x400, 0xDC00 + (c.toNat - 0x10000) % 0x400]

/-- A character inside quotes. -/
def escapeChar (asciiOnly : Bool) (c : Char) : String :=
  if c = '"' then "\\\""
  else if c = '\\' then "\\\\"
  else if c = '\n' then "\\n"
  else if c = '\r' then "\\r"
  else if c = '\t' then "\\t"
  else if c.toNat = 0x08 then "\\b"
  else if c.toNat = 0x0C then "\\f"
  else if c.toNat < 0x20 || (asciiOnly && 0x7F ≤ c.toNat) then
    String.join ((units16 c).map fun unit => "\\u" ++ hex4 unit)
  else c.toString

def quote (asciiOnly : Bool) (s : String) : String :=
  "\"" ++ String.join (s.toList.map (escapeChar asciiOnly)) ++ "\""

/-- Fields in order of their names with one more, in front of those of its name. -/
def sortField (field : String × String) : List (String × String) → List (String × String)
  | [] => [field]
  | other :: rest =>
    if field.1 ≤ other.1 then field :: other :: rest else other :: sortField field rest

/-- Fields in order of their names. -/
def sortFields (fields : List (String × String)) : List (String × String) :=
  fields.foldr sortField []

def commaJoined (items : List String) : String := ",".intercalate items

/-- The value and texts that a boolean has. -/
def boolText (b : Bool) : String := if b then "true" else "false"

mutual

/-- The compact form of a value, given the text of a number. -/
def compact (number : ν → String) : Json ν → String
  | .null => "null"
  | .bool b => boolText b
  | .int n => toString n
  | .real x => number x
  | .text s => quote true s
  | .list items => "[" ++ commaJoined (compactItems number items) ++ "]"
  | .object fields =>
    "\x7b" ++
      commaJoined ((sortFields (compactFields number fields)).map fun (name, value) =>
        quote true name ++ ":" ++ value) ++
      "\x7d"

def compactItems (number : ν → String) : List (Json ν) → List String
  | [] => []
  | item :: rest => compact number item :: compactItems number rest

def compactFields (number : ν → String) : List (String × Json ν) → List (String × String)
  | [] => []
  | (name, value) :: rest => (name, compact number value) :: compactFields number rest

end

/-- A new line with blanks at its start. -/
def newLine (depth : Nat) : String := "\n" ++ String.ofList (List.replicate (2 * depth) ' ')

/-- Items on lines of their own between brackets; nothing between them if there is none. -/
def bracketed (opening closing : String) (depth : Nat) (items : List String) : String :=
  if items.isEmpty then opening ++ closing
  else
    opening ++ commaJoined (items.map (newLine (depth + 1) ++ ·)) ++ newLine depth ++ closing

mutual

/-- The indented form of a value at some depth. -/
def indented (number : ν → String) (depth : Nat) : Json ν → String
  | .null => "null"
  | .bool b => boolText b
  | .int n => toString n
  | .real x => number x
  | .text s => quote false s
  | .list items => bracketed "[" "]" depth (indentedItems number (depth + 1) items)
  | .object fields =>
    bracketed "\x7b" "\x7d" depth (indentedFields number (depth + 1) fields)

def indentedItems (number : ν → String) (depth : Nat) : List (Json ν) → List String
  | [] => []
  | item :: rest => indented number depth item :: indentedItems number depth rest

def indentedFields (number : ν → String) (depth : Nat) : List (String × Json ν) → List String
  | [] => []
  | (name, value) :: rest =>
    (quote false name ++ ": " ++ indented number depth value) ::
      indentedFields number depth rest

end

end Montage.Json
