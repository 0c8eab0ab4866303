import Mathlib.Logic.Basic
import Montage.Command.ConcatList

/-!
# A list of files is read back

A reader of such a list goes through its text character by character. Between quotes a character stands
for itself, so a path cannot leave its quotes but by a quote of its own; that one leaves them, stands
behind a backslash, and enters them again. What is read of a line is therefore its path, with all the
backslashes and line ends that it may have, and the line ends where it was ended.

## Main definitions

* `ConcatList.Reader.step` — how a list is read
* `ConcatList.read` — the paths in a list

## Main results

* `ConcatList.step_escape` — between quotes, an escaped path is read as the path
* `ConcatList.read_write` — a list is read as the paths of which it was made, and made of no others
-/

namespace Montage.ConcatList

/-- What stands in front of each path. -/
def keyword : List Char := "file ".toList

/-- Where a reader stands. -/
inductive Place where
  /-- Outside quotes; some of the keyword may still be to come. -/
  | plain (toCome : List Char)
  | quoted
  /-- Behind a backslash outside quotes. -/
  | literal
  deriving DecidableEq

/-- A reader of a list: the paths that it has read, and the part of a path. -/
structure Reader where
  place : Place := .plain keyword
  path : List Char := []
  paths : List (List Char) := []

namespace Reader

/-- A character belongs to the path. -/
def take (reader : Reader) (c : Char) (place : Place) : Reader :=
  { reader with place, path := reader.path ++ [c] }

/-- A line has ended. -/
def endLine (reader : Reader) : Reader := { paths := reader.paths ++ [reader.path] }

/-- Reads a character. A line that does not begin with the keyword is not read. -/
def step (reader : Reader) (c : Char) : Option Reader :=
  match reader.place with
  | .plain (d :: toCome) => if c = d then some { reader with place := .plain toCome } else none
  | .plain [] =>
    if c = '\'' then some { reader with place := .quoted }
    else if c = '\\' then some { reader with place := .literal }
    else if c = '\n' then some reader.endLine
    else some (reader.take c (.plain []))
  | .quoted =>
    if c = '\'' then some { reader with place := .plain [] } else some (reader.take c .quoted)
  | .literal => some (reader.take c (.plain []))

end Reader

/-- The paths in a list; nothing is read of a text that ends within a line. -/
def read (text : String) : Option (List String) := do
  let reader ← text.toList.foldlM Reader.step {}
  if reader.place = .plain keyword then some (reader.paths.map String.ofList) else none

variable {path : List Char} {paths : List (List Char)}

/-- A text is read on from where the text in front of it was read to. -/
theorem step_append {front : List Char} {reader next : Reader}
    (h : front.foldlM Reader.step reader = some next) (back : List Char) :
    (front ++ back).foldlM Reader.step reader = back.foldlM Reader.step next := by
  rw [List.foldlM_append, h]
  rfl

/-- Between quotes, an escaped character is read as the character. -/
theorem step_escapeChar (c : Char) :
    (escapeChar c).foldlM Reader.step ⟨.quoted, path, paths⟩ =
      some ⟨.quoted, path ++ [c], paths⟩ := by
  unfold escapeChar
  split
  · next quote => rw [quote]; rfl
  · next other => simp [Reader.step, Reader.take, other]

/-- Between quotes, an escaped path is read as the path. -/
theorem step_escape (more : List Char) :
    (escape more).foldlM Reader.step ⟨.quoted, path, paths⟩ =
      some ⟨.quoted, path ++ more, paths⟩ := by
  induction more generalizing path with
  | nil => rw [List.append_nil]; rfl
  | cons c rest ih =>
    rw [escape, List.flatMap_cons, step_append (step_escapeChar c), ← escape, ih, List.append_assoc]
    rfl

/-- The line of a path is read as the path, and the reader is at the start of a line again. -/
theorem step_entry (path : List Char) :
    (entry path).foldlM Reader.step { paths } = some { paths := paths ++ [path] } := by
  have opened : "file '".toList.foldlM Reader.step { paths } = some ⟨.quoted, [], paths⟩ := rfl
  unfold entry
  rw [List.append_assoc, step_append opened, step_append (step_escape path)]
  rfl

theorem step_entries (more : List String) :
    (more.flatMap fun path => entry path.toList).foldlM Reader.step { paths } =
      some { paths := paths ++ more.map String.toList } := by
  induction more generalizing paths with
  | nil => rw [List.map_nil, List.append_nil]; rfl
  | cons path rest ih =>
    rw [List.flatMap_cons, step_append (step_entry _), ih, List.map_cons, List.append_assoc]
    rfl

/-- A list is read as the paths of which it was made; so a list of other paths is another text. -/
theorem read_write (paths : List String) :
    read (write paths) = some paths ∧ ∀ others, write others = write paths ↔ others = paths := by
  have readBack (paths : List String) : read (write paths) = some paths := by
    unfold read write
    rw [String.toList_ofList, step_entries, Option.bind_eq_bind, Option.bind_some, if_pos rfl,
      List.nil_append, List.map_map]
    exact congrArg some (List.map_id'' (fun _ => String.ofList_toList) paths)
  refine ⟨readBack paths, fun others => ⟨fun same => ?_, fun same => same ▸ rfl⟩⟩
  exact Option.some.inj (by rw [← readBack others, same, readBack])

/-- A quote leaves the quotes of its path, stands behind a backslash, and enters them again. -/
example : read "file 'it'\\''s'\nfile 'a\\b'\n" = some ["it's", "a\\b"] := by decide

end Montage.ConcatList
