import Montage.Service.Timeline

/-!
Steps on a filter graph.
-/

namespace Montage.Service

/-- The value of an option as a request would give it. -/
def filterValueJson : FilterValue Double → Value
  | .none => .null
  | .flag b => .bool b
  | .int n => .int n
  | .number x => .real x
  | .text s | .quoted s => .text s
  | .gate start stop => .text (FilterValue.gateExpression start stop)
  | other => .text (other.print.toOption.getD "")

/-- One step on a graph. -/
def graphStep (graph : FilterGraph Double) (step : Value) : Result Value × FilterGraph Double :=
  match textOf (field step "do") with
  | "new_label" =>
    let (label, graph) := graph.freshLabel (textOf (field step "prefix"))
    (.ok (.text label), graph)
  | "add" =>
    let output := textOf (field step "output")
    match graph.add (texts (field step "inputs")) ((items (field step "filters")).map filterOf)
      output with
    | .ok graph => (.ok (.text output), graph)
    | .error cause => (.error (.graph cause), graph)
  | "stage_producing" =>
    (match graph.stageProducing? (textOf (field step "label")) with
      | none => .ok .null
      | some stage => do
        let text : String ← stage.print
        return .text text, graph)
  | "filters_named" => (filterTexts (graph.named (textOf (field step "name"))), graph)
  | "option" =>
    let filter := filterOf (field step "filter")
    (.ok (((filter.option? (textOf (field step "key"))).map filterValueJson).getD
      (field step "default")), graph)
  | "serialize" =>
    let separator := (optionalText (field step "separator")).getD ";"
    (do
      let text : String ← graph.print separator
      return .text text, graph)
  | _ => (.ok (Json.int graph.stages.length), graph)

variable (report : Failure → Value) in
/-- The answers to steps on one graph. -/
def graph (input : Value) : Value :=
  let (_, answers) := (items (field input "steps")).foldl
    (fun (state : FilterGraph Double × List Value) step =>
      let (answer, graph) := graphStep state.1 step
      (graph, state.2 ++ [shown report answer]))
    ({}, [])
  .list answers

end Montage.Service
