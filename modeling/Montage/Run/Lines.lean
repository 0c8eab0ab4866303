import Montage.Text.Utf8

/-!
The lines of a stream that arrives in chunks. Each chunk is decoded on its own; a line ends with a
carriage return or a line feed, and empty lines are left out.
-/

namespace Montage.Lines

def isBreak (c : Char) : Bool := c = '\r' || c = '\n'

/-- The pieces between line breaks, in order; there is always a last one, which may be empty. -/
def pieces : List Char → List Char × List (List Char)
  | [] => ([], [])
  | c :: rest =>
    let (first, others) := pieces rest
    if isBreak c then ([], first :: others) else (c :: first, others)

/-- The lines that a text completes, given what stands before it, and what is left over. -/
def feed (pending : List Char) (text : List Char) : List String × List Char :=
  let (first, others) := pieces (pending ++ text)
  let all := first :: others
  ((all.dropLast.filter (!·.isEmpty)).map String.ofList, all.getLast?.getD [])

/-- The last line, which no break follows. -/
def finish (pending : List Char) : List String :=
  if pending.isEmpty then [] else [String.ofList pending]

/-- The lines of a stream from here on. A read that returns nothing ends the stream. -/
def readFrom (pending : List Char) : List (List UInt8) → List String
  | [] => finish pending
  | chunk :: rest =>
    if chunk.isEmpty then finish pending
    else
      let (lines, pending) := feed pending (Text.Utf8.decodeLossy chunk).toList
      lines ++ readFrom pending rest

/-- The lines of a stream. -/
def read (chunks : List (List UInt8)) : List String := readFrom [] chunks

end Montage.Lines
