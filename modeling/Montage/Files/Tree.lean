import Montage.Files.Path
import Montage.Text.Utf8

/-!
Files in folders. Paths lead from one folder to the next; a double point leads to the folder that
holds a folder. All of it happens in the folder that holds all others, so that a path leads to the
same place whether it starts at the root or not.
-/

namespace Montage

/-- What a file operation ran into. -/
inductive FileError where
  | notFound (path : String)
  | alreadyExists (path : String)
  | notDirectory (path : String)
  | isDirectory (path : String)
  /-- A folder stands where a file is to be moved. -/
  | blockedMove (source target : String)
  | nameTooLong (path : String)
  deriving DecidableEq, Repr

/-- The text of a file error. -/
def FileError.message : FileError → String
  | .notFound path => "[Errno 2] No such file or directory: '" ++ path ++ "'"
  | .alreadyExists path => "[Errno 17] File exists: '" ++ path ++ "'"
  | .notDirectory path => "[Errno 20] Not a directory: '" ++ path ++ "'"
  | .isDirectory path => "[Errno 21] Is a directory: '" ++ path ++ "'"
  | .blockedMove source target =>
    "[Errno 21] Is a directory: '" ++ source ++ "' -> '" ++ target ++ "'"
  | .nameTooLong path => "[Errno 36] File name too long: '" ++ path ++ "'"

/-- What stands at a place. -/
inductive FileNode where
  | file (content : List UInt8)
  | folder
  deriving DecidableEq, Repr

/-- The names that lead to a place. -/
abbrev Place := List String

/-- Files and folders at their places. The folder that holds all of them has no entry. -/
structure FileTree where
  nodes : List (Place × FileNode) := []

namespace FileTree

/-- What stands at a place. -/
def node? (tree : FileTree) (place : Place) : Option FileNode :=
  if place.isEmpty then some .folder else tree.nodes.lookup place

/-- The tree with something at a place, instead of what stood there. -/
def put (tree : FileTree) (place : Place) (node : FileNode) : FileTree :=
  ⟨tree.nodes.filter (·.1 ≠ place) ++ [(place, node)]⟩

/-- The tree without a place. -/
def erase (tree : FileTree) (place : Place) : FileTree := ⟨tree.nodes.filter (·.1 ≠ place)⟩

/-- The tree without a place and all that lies below it. -/
def eraseBelow (tree : FileTree) (place : Place) : FileTree :=
  ⟨tree.nodes.filter fun (other, _) => !place.isPrefixOf other⟩

/-! ### Finding places -/

/-- The most bytes that a name may have. -/
def maxNameBytes : Nat := 255

/-- The first length in bytes that a path may not have. -/
def maxPathBytes : Nat := 4096

/-- The place to which names lead from a folder; only the last name may be that of nothing. -/
def walk (tree : FileTree) (path : String) : Place → List String → Except FileError Place
  | place, [] => .ok place
  | place, name :: rest =>
    -- What a name leads from must be a folder, also when the name means nothing.
    match tree.node? place with
    | none => .error (.notFound path)
    | some (.file _) => .error (.notDirectory path)
    | some .folder =>
      if maxNameBytes < name.utf8ByteSize then .error (.nameTooLong path)
      else if name = "" || name = "." then walk tree path place rest
      else if name = ".." then walk tree path place.dropLast rest
      else walk tree path (place ++ [name]) rest

/-- The place of a path. -/
def locate (tree : FileTree) (path : String) : Except FileError Place :=
  if maxPathBytes ≤ path.utf8ByteSize then .error (.nameTooLong path)
  else if path = "" then .error (.notFound path)
  else walk tree path [] (Path.pieces path)

/-- What stands at a path. -/
def find (tree : FileTree) (path : String) : Except FileError FileNode := do
  match tree.node? (← tree.locate path) with
  | some node => return node
  | none => .error (.notFound path)

/-- Whether a path leads to a file or a folder. -/
def pathExists (tree : FileTree) (path : String) : Bool := (tree.find path).toBool

/-- Whether a path leads somewhere; a name that is too long cannot be asked for. -/
def checkExists (tree : FileTree) (path : String) : Except FileError Bool :=
  match tree.find path with
  | .ok _ => .ok true
  | .error (.nameTooLong long) =>
    -- No path has a null character in it, and such a text is not even looked at.
    if path.toList.contains (Char.ofNat 0) then .ok false else .error (.nameTooLong long)
  | .error _ => .ok false

/-- Whether a path leads to a folder. -/
def isFolder (tree : FileTree) (path : String) : Bool :=
  match tree.find path with
  | .ok .folder => true
  | _ => false

/-! ### Files -/

def read (tree : FileTree) (path : String) : Except FileError (List UInt8) := do
  match ← tree.find path with
  | .file content => return content
  | .folder => .error (.isDirectory path)

/-- The tree with a file of some content at a path. -/
def write (tree : FileTree) (path : String) (content : List UInt8) :
    Except FileError FileTree := do
  let place ← tree.locate path
  match tree.node? place with
  | some .folder => .error (.isDirectory path)
  | _ => return tree.put place (.file content)

/-- The tree with a text in a file at a path. -/
def writeText (tree : FileTree) (path text : String) : Except FileError FileTree :=
  tree.write path (Text.Utf8.encode text)

/-- The tree without the file at a path; nothing changes if there is none. -/
def remove (tree : FileTree) (path : String) : Except FileError FileTree :=
  match tree.locate path with
  | .error (.notFound _) => .ok tree
  | .error cause => .error cause
  | .ok place =>
    match tree.node? place with
    | none => .ok tree
    | some (.file _) => .ok (tree.erase place)
    | some .folder => .error (.isDirectory path)

/-- The tree with a file moved to another path, in place of a file there. -/
def move (tree : FileTree) (source target : String) : Except FileError FileTree := do
  let content ← tree.read source
  let place ← tree.locate source
  let goal ← tree.locate target
  match tree.node? goal with
  | some .folder => .error (.blockedMove source target)
  | _ => return (tree.erase place).put goal (.file content)

/-- The number of bytes of the file at a path. -/
def size? (tree : FileTree) (path : String) : Option Nat :=
  ((tree.read path).map List.length).toOption

/-- The paths of all files, in order. -/
def files (tree : FileTree) : List String :=
  (tree.nodes.filterMap fun (place, node) =>
    match node with
    | .file _ => some ("/".intercalate place)
    | .folder => none).mergeSort fun a b => a ≤ b

/-! ### Folders -/

/-- The tree with a folder at a path whose parent exists. -/
def makeFolder (tree : FileTree) (path : String) : Except FileError FileTree := do
  let place ← tree.locate path
  match tree.node? place with
  | some _ => .error (.alreadyExists path)
  | none => return tree.put place .folder

/-- The tree with a folder at a path, made unless it is there; a file in its place is an
error. -/
def ensureFolder (tree : FileTree) (path : String) : Except FileError FileTree :=
  match tree.makeFolder path with
  | .ok tree => .ok tree
  | .error (.notFound path) => .error (.notFound path)
  | .error cause => if tree.isFolder path then .ok tree else .error cause

/-- The tree with folders along some names below a path, which is tried first as a whole. The
names stand in reverse. -/
def makeAlong (tree : FileTree) (root : String) : List String → Except FileError FileTree
  | [] => tree.ensureFolder (Path.text ⟨root, []⟩)
  | name :: above =>
    let path := Path.text ⟨root, (name :: above).reverse⟩
    match tree.ensureFolder path with
    | .error (.notFound _) => do (← tree.makeAlong root above).ensureFolder path
    | answer => answer

/-- The tree with a folder at a path, made with all its parents. -/
def makeFolders (tree : FileTree) (path : Path) : Except FileError FileTree :=
  tree.makeAlong path.root path.names.reverse

/-- The tree with a file at a path and all folders above it. -/
def writeNested (tree : FileTree) (path : String) (content : List UInt8) :
    Except FileError FileTree := do
  (← tree.makeFolders (Path.ofText path).parent).write path content

/-- The names of all that a folder holds. -/
def namesIn (tree : FileTree) (path : String) : List String :=
  match tree.locate path with
  | .error _ => []
  | .ok place => tree.nodes.filterMap fun (other, _) =>
      if other.dropLast = place && other.length = place.length + 1 then other.getLast? else none

end FileTree

end Montage
