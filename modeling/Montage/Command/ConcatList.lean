/-!
Lists of files to be joined: a line for each, the path in quotes. A quote inside a path closes the
quotes, stands behind a backslash, and opens them again.
-/

namespace Montage.ConcatList

/-- A character between quotes. -/
def escapeChar (c : Char) : List Char := if c = '\'' then ['\'', '\\', '\'', '\''] else [c]

/-- A path between quotes, without the quotes. -/
def escape (path : List Char) : List Char := path.flatMap escapeChar

/-- The line of a path. -/
def entry (path : List Char) : List Char := "file '".toList ++ escape path ++ ['\'', '\n']

/-- The text of a list. -/
def write (paths : List String) : String :=
  String.ofList (paths.flatMap fun path => entry path.toList)

end Montage.ConcatList
