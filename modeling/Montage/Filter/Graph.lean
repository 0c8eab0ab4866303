import Montage.Filter.Basic

/-!
Filter graphs: stages that read pads and make one pad each, and the labels given to pads.
-/

namespace Montage

/-- Filters behind each other, from some pads to one. -/
structure FilterChain (τ : Type) where
  inputs : List String
  filters : List (Filter τ)
  output : String

/-- Stages in order, and how many labels were given out for each stem. -/
structure FilterGraph (τ : Type) where
  stages : List (FilterChain τ) := []
  issued : String → Nat := fun _ => 0

/-- Why a stage cannot be added. -/
inductive GraphError where
  | emptyStage
  | labelTaken (label : String)
  deriving DecidableEq, Repr

def GraphError.message : GraphError → String
  | .emptyStage => "A filter stage needs at least one filter"
  | .labelTaken label => "Label already produced: " ++ label

/-- A pad in brackets. -/
def padText (pad : String) : String := "[" ++ pad ++ "]"

namespace FilterGraph

variable {τ : Type}

/-- A label made of a stem and the number of labels given out for it before. -/
def freshLabel (graph : FilterGraph τ) (stem : String) : String × FilterGraph τ :=
  (stem ++ toString (graph.issued stem),
    { graph with issued := fun s => if s = stem then graph.issued s + 1 else graph.issued s })

/-- The stage that makes a pad. -/
def stageProducing? (graph : FilterGraph τ) (label : String) : Option (FilterChain τ) :=
  graph.stages.find? (·.output = label)

/-- The graph with a stage at its end. -/
def add (graph : FilterGraph τ) (inputs : List String) (filters : List (Filter τ))
    (output : String) : Except GraphError (FilterGraph τ) :=
  if filters.isEmpty then .error .emptyStage
  else if (graph.stageProducing? output).isSome then .error (.labelTaken output)
  else .ok { graph with stages := graph.stages ++ [⟨inputs, filters, output⟩] }

def filters (graph : FilterGraph τ) : List (Filter τ) := graph.stages.flatMap (·.filters)

def named (graph : FilterGraph τ) (name : String) : List (Filter τ) :=
  graph.filters.filter (·.name = name)

end FilterGraph

variable {τ : Type} [Scalar τ]

/-- The text of a stage. -/
def FilterChain.print (stage : FilterChain τ) : Except NumberError String := do
  let filters ← stage.filters.mapM Filter.print
  return String.join (stage.inputs.map padText) ++ ",".intercalate filters ++
    padText stage.output

/-- The text of a graph. -/
def FilterGraph.print (graph : FilterGraph τ) (separator : String := ";") :
    Except NumberError String := do
  let stages ← graph.stages.mapM FilterChain.print
  return separator.intercalate stages

end Montage
