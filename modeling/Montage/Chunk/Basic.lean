import Montage.Window

/-!
Chunks: windows of a timeline that are rendered on their own, and what is known of their render.
-/

namespace Montage

/-- How a chunk stands with its render. -/
inductive ChunkState where
  | missing
  /-- What was rendered is not what is to be shown now. -/
  | stale
  | rendering
  | valid
  /-- The last render failed. -/
  | error
  deriving DecidableEq, Repr

namespace ChunkState

def all : List ChunkState := [.missing, .stale, .rendering, .valid, .error]

def name : ChunkState → String
  | .missing => "missing"
  | .stale => "stale"
  | .rendering => "rendering"
  | .valid => "valid"
  | .error => "error"

/-- Whether a chunk may go from one status to another. A chunk whose render was given up is
rendering and may be rendered again. -/
def allows : ChunkState → ChunkState → Bool
  | .missing, target => target = .rendering
  | .stale, target => target = .rendering
  | .error, target => target = .rendering
  | .valid, target => target = .stale || target = .rendering
  | .rendering, target => target ≠ .missing

/-- Whether a chunk of this status waits for a render. -/
def needsRender (status : ChunkState) : Bool := status = .missing || status = .stale

end ChunkState

structure Chunk (τ : Type) where
  /-- Tells a chunk from all others, also from those that had its place before. -/
  serial : Nat
  index : Nat
  start : τ
  stop : τ
  status : ChunkState := .missing
  /-- The hash of what was rendered last. -/
  contentHash : Option String := none
  outputPath : Option String := none
  error : Option String := none
  isComplex : Bool := false
  /-- How often the chunk was invalidated. -/
  generation : Nat := 0
  /-- The generation that is being rendered. -/
  renderGeneration : Option Nat := none
  /-- The hash of what the last failed render was to show. -/
  failedHash : Option String := none

namespace Chunk

variable {τ : Type}

def window (chunk : Chunk τ) : Window τ := ⟨chunk.start, chunk.stop⟩

/-- The path of the rendered chunk, unless it is missing or empty. -/
def output? (chunk : Chunk τ) : Option String := chunk.outputPath.filter (· ≠ "")

/-- The length of a chunk. -/
def duration [Scalar τ] (chunk : Chunk τ) : τ := chunk.window.duration

/-- Whether a chunk has a window. -/
def covers [Scalar τ] (chunk : Chunk τ) (window : Window τ) : Bool :=
  chunk.start == window.start && chunk.stop == window.stop

end Chunk

end Montage
