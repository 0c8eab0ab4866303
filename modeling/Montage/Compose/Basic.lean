import Montage.Slice

/-!
Compositions: filter graphs that make the picture and the sound of a window, with the inputs
that they read.
-/

namespace Montage

/-- Why no graph is made. -/
inductive ComposeError where
  /-- The window has no length and no clips. -/
  | nothingToRender
  | graph (cause : GraphError)
  | number (cause : NumberError)
  deriving DecidableEq, Repr

instance : MonadLift (Except GraphError) (Except ComposeError) where
  monadLift := Except.mapError .graph

instance : MonadLift (Except NumberError) (Except ComposeError) where
  monadLift := Except.mapError .number

/-- A filter graph with what surrounds it. The graph of a window with diagnostics is not
rendered, except in previews. -/
structure Composition (τ : Type) where
  inputs : List InputFile
  graph : FilterGraph τ
  duration : τ
  videoOutput : String
  audioOutput : Option String
  diagnostics : List String

/-- The pad that carries the picture. -/
def videoLabel : String := "vout"

/-- The pad that carries the sound. -/
def audioLabel : String := "aout"

/-- The pad of the background. -/
def baseLabel : String := "base"

namespace Composition

variable {τ : Type}

/-- Whether every clip found its media. -/
def complete (composition : Composition τ) : Bool := composition.diagnostics.isEmpty

/-- The labels of the pads that leave the graph. -/
def outputs (composition : Composition τ) : List String :=
  composition.videoOutput :: composition.audioOutput.toList

/-- The pads that leave the graph, as they are written. -/
def maps (composition : Composition τ) : List String := composition.outputs.map padText

end Composition

variable {τ : Type} [Scalar τ]

/-- The background of a window, under which everything is laid. -/
def addBackground (graph : FilterGraph τ) (settings : OutputFormat τ) (duration : τ) :
    Except GraphError (FilterGraph τ) :=
  graph.add [] [colorSource settings duration settings.background] baseLabel

/-- The pad of the picture, made of the topmost layer. -/
def addVideoOutput (graph : FilterGraph τ) (canvas : String) :
    Except GraphError (FilterGraph τ) :=
  graph.add [canvas] [.withValues "null" []] videoLabel

end Montage
