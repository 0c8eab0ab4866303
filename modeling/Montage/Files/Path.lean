/-!
Paths: names with slashes between them. Empty names and single points mean nothing and are left
out; a path may start at the root.
-/

namespace Montage

/-- A path, with the slashes at its start and the names between the others. -/
structure Path where
  root : String := ""
  names : List String := []
  deriving DecidableEq, Repr

namespace Path

/-- A text cut at every slash. -/
def cutAtSlashes : List Char → List Char × List (List Char)
  | [] => ([], [])
  | c :: rest =>
    let (first, others) := cutAtSlashes rest
    if c = '/' then ([], first :: others) else (c :: first, others)

/-- The pieces of a text between slashes. -/
def pieces (text : String) : List String :=
  let (first, others) := cutAtSlashes text.toList
  (first :: others).map String.ofList

/-- The root of a path; exactly two slashes are a root of their own. -/
def rootOf (text : String) : String :=
  match (text.toList.takeWhile (· = '/')).length with
  | 0 => ""
  | 2 => "//"
  | _ => "/"

/-- The path that a text denotes. -/
def ofText (text : String) : Path where
  root := rootOf text
  names := (pieces text).filter fun name => name ≠ "" && name ≠ "."

/-- The text of a path; that of the empty one is a point. -/
def text (path : Path) : String :=
  let text := path.root ++ "/".intercalate path.names
  if text = "" then "." else text

/-- A path below another; one that starts at the root stands for itself. -/
def join (path : Path) (name : String) : Path :=
  let below := ofText name
  if below.root = "" then { path with names := path.names ++ below.names } else below

/-- The last name of a path. -/
def name (path : Path) : String := path.names.getLast?.getD ""

/-- Where the extension of a name starts: at its last point, unless that is the first or the last
of its characters. -/
def extensionStart? (name : List Char) : Option Nat :=
  let behind := (name.reverse.takeWhile (· ≠ '.')).length
  if behind = 0 || name.length ≤ behind + 1 then none else some (name.length - behind - 1)

/-- The extension of the last name with its point, or nothing. -/
def extension (path : Path) : String :=
  let name := path.name.toList
  match extensionStart? name with
  | some start => String.ofList (name.drop start)
  | none => ""

/-- The last name without its extension. -/
def stem (path : Path) : String :=
  let name := path.name.toList
  match extensionStart? name with
  | some start => String.ofList (name.take start)
  | none => path.name

/-- The path without its last name. -/
def parent (path : Path) : Path := { path with names := path.names.dropLast }

end Path

end Montage
