import Montage.Number.Double

/-!
Media files and the libraries in which clips look them up.
-/

namespace Montage

inductive MediaType where
  | video
  | audio
  | image
  deriving DecidableEq, Repr

def MediaType.name : MediaType → String
  | .video => "video"
  | .audio => "audio"
  | .image => "image"

/-- What is known of the video stream of a file. -/
structure VideoFormat where
  width : Option Int := none
  height : Option Int := none
  frameRate : Option Double := none

/-- A media file, and the smaller copy of it that previews may read instead. -/
structure MediaFile where
  id : String
  type : MediaType
  path : String
  proxyPath : Option String := none
  duration : Double := 0
  metadata : Option VideoFormat := none

/-- Whether a file or folder exists at a path. -/
abbrev PathExists := String → Bool

namespace MediaFile

/-- The path of the proxy, unless it is missing or empty. -/
def proxy? (item : MediaFile) : Option String :=
  item.proxyPath.filter (· ≠ "")

/-- The proxy where it is wanted and exists, else the file itself. -/
def resolvedPath (item : MediaFile) (useProxies : Bool) (pathExists : PathExists) : String :=
  match item.proxy? with
  | some path => if useProxies && pathExists path then path else item.path
  | none => item.path

end MediaFile

/-- Media items under distinct keys, in order of their first insertion. -/
abbrev MediaLibrary := List (String × MediaFile)

namespace MediaLibrary

/-- The item under a key. -/
def get? (media : MediaLibrary) (key : String) : Option MediaFile := media.lookup key

/-- The library with an item under a key, in place of a former one. -/
def insert : MediaLibrary → String → MediaFile → MediaLibrary
  | [], key, item => [(key, item)]
  | (other, old) :: rest, key, item =>
    if other = key then (key, item) :: rest else (other, old) :: insert rest key item

/-- Items under their own ids; of two with one id the later one stays. -/
def ofItems (items : List MediaFile) : MediaLibrary :=
  items.foldl (fun media item => media.insert item.id item) []

/-- The item that a clip refers to; an empty reference refers to none. -/
def find? (media : MediaLibrary) (mediaId : Option String) : Option MediaFile :=
  match mediaId with
  | some key => if key = "" then none else media.get? key
  | none => none

end MediaLibrary

end Montage
