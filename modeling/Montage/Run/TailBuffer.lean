/-!
The end of a text that grows, kept in pieces.
-/

namespace Montage

/-- The last pieces of a text, as many as hold its last `limit` characters. -/
structure TailBuffer where
  limit : Int
  parts : List String := []
  /-- The number of characters of the pieces. -/
  size : Int := 0
  deriving DecidableEq, Repr

namespace TailBuffer

/-- Some pieces of `size` characters without the oldest ones, as long as the others hold enough, and the
number of characters that are left. -/
def dropOldest (limit : Int) : (size : Int) → List String → Int × List String
  | size, [] => (size, [])
  | size, part :: rest =>
    if limit ≤ size - part.length then dropOldest limit (size - part.length) rest
    else (size, part :: rest)

def append (tail : TailBuffer) (text : String) : TailBuffer :=
  let (size, parts) := dropOldest tail.limit (tail.size + text.length) (tail.parts ++ [text])
  { tail with parts, size }

/-- The last characters of the text, at most `limit` of them. -/
def value (tail : TailBuffer) : String :=
  let cs := tail.parts.flatMap String.toList
  String.ofList (cs.drop (cs.length - tail.limit.toNat))

end TailBuffer

end Montage
