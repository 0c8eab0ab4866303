import Montage.Proofs.Compose.Layers
import Montage.Proofs.Number.Exact

/-!
# The branches of a sound

A sound is read from a graph as the branches that are mixed into it: each plays a stretch of a source
at some volume, behind a delay. Mixing slices makes a sound with these branches in this order.

## Main definitions

* `Branch` — what is read of the chain of a branch
* `FilterGraph.sound?` — the branches that are mixed into the sound of a graph

## Main results

* `addAudioMix_sound?` — slices become branches
-/

namespace Montage

/-- What is mixed into a sound: the pad that is read, the stretch of source that plays, how loud, the
silence in front of it in milliseconds, and the length to which silence behind it fills it up. -/
structure Branch (τ : Type) where
  pad : String
  source : τ × τ
  volume : τ
  delay : Int
  length : τ

section Reading

variable {τ : Type}

/-- How loud a chain of filters plays. -/
def volumeOf [Scalar τ] (filters : List (Filter τ)) : τ :=
  match filters.find? (·.name = "volume") with
  | some { positional := [.number volume], .. } => volume
  | _ => Scalar.whole 1

namespace FilterGraph

/-- The branch under a label. -/
def branch? [Scalar τ] (graph : FilterGraph τ) (label : String) : Option (Branch τ) := do
  let chain ← graph.stageProducing? label
  let source ← sourceOf? "atrim" chain.filters
  let delay ← chain.filters.find? (·.name = "adelay")
  let filler ← chain.filters.find? (·.name = "apad")
  match chain.inputs, delay.positional, filler.option? "whole_dur" with
  | [pad], [.delay delay], some (.number length) =>
    some { pad, source, volume := volumeOf chain.filters, delay, length }
  | _, _, _ => none

/-- How many pads a filter takes in. -/
def width? (filter : Filter τ) : Option Int :=
  match filter.name, filter.option? "inputs" with
  | "anull", _ => some 1
  | "amix", some (.int width) => some width
  | _, _ => none

/-- The branches that are mixed under a label; a source of silence has none. -/
def mix? [Scalar τ] (graph : FilterGraph τ) (label : String) : Option (List (Branch τ)) := do
  let stage ← graph.stageProducing? label
  match stage.inputs, stage.filters with
  | [], _ => some []
  | inputs, [mixer] =>
    if width? mixer = some (inputs.length : Int) then inputs.mapM graph.branch? else none
  | _, _ => none

/-- The branches of the sound that leaves a graph, if one does. -/
def sound? [Scalar τ] (graph : FilterGraph τ) (output : Option String) : Option (List (Branch τ)) :=
  match output with
  | none => some []
  | some label => graph.mix? label

theorem branch?_mono [Scalar τ] {graph after : FilterGraph τ} (h : graph.Extends after)
    {label : String} {branch : Branch τ} (reads : graph.branch? label = some branch) :
    after.branch? label = some branch := by
  unfold branch? at reads ⊢
  obtain ⟨chain, made, rest⟩ := Option.bind_eq_some_iff.mp reads
  exact Option.bind_eq_some_iff.mpr ⟨chain, h label chain made, rest⟩

end FilterGraph

end Reading

/-- The branch that a slice becomes. -/
def Slice.branch (slice : Slice Rat) (duration : Rat) : Branch Rat where
  pad := slice.pad "a"
  source := (slice.sourceIn, slice.sourceOut)
  volume := slice.volume
  delay := roundHalfEven (slice.localStart * 1000)
  length := duration

/-- The chain of filters of a branch. -/
def Slice.branchFilters (slice : Slice Rat) (settings : OutputFormat Rat) (duration : Rat) :
    List (Filter Rat) :=
  slice.audioFilters settings ++
    [.withValues "adelay" [.delay (roundHalfEven (slice.localStart * Scalar.whole 1000))],
      .withOptions "apad" [("whole_dur", .number duration)]]

variable {settings : OutputFormat Rat} {duration : Rat} {graph : FilterGraph Rat}
  {names : List String}

/-- The chain of a slice is read as its branch. -/
theorem Slice.branch?_eq {slice : Slice Rat} {label : String}
    (made : graph.stageProducing? label =
      some ⟨[slice.pad "a"], slice.branchFilters settings duration, label⟩) :
    graph.branch? label = some (slice.branch duration) := by
  unfold FilterGraph.branch?
  rw [made]
  by_cases plain : slice.volume = 1
  all_goals
    simp [branchFilters, audioFilters, sourceOf?, volumeOf, branch, Filter.withOptions,
      Filter.withValues, Filter.option?, plain, List.lookup_cons]

/-- Slices become branches. -/
theorem addMixBranches_reads (settings : OutputFormat Rat) (duration : Rat)
    (slices : List (Slice Rat)) (tidy : graph.Tidy names) :
    ∃ labels after, addMixBranches settings duration slices graph = .ok (labels, after) ∧
      after.Tidy names ∧ graph.Extends after ∧
      List.Forall₂ (fun label branch => after.branch? label = some branch) labels
        (slices.map fun slice => slice.branch duration) := by
  induction slices generalizing graph with
  | nil => exact ⟨[], graph, rfl, tidy, .refl graph, .nil⟩
  | cons slice rest ih =>
    have filled : slice.branchFilters settings duration ≠ [] := by simp [Slice.branchFilters]
    obtain ⟨branched, added, tidy, grows, made⟩ :=
      tidy.addFresh (by decide : Wordy "a") [slice.pad "a"] filled
    obtain ⟨labels, after, done, tidy, grows', reads⟩ := ih tidy
    refine ⟨(graph.freshLabel "a").1 :: labels, after, ?_, tidy, grows.trans grows',
      .cons (Slice.branch?_eq (grows' _ _ made)) reads⟩
    unfold Slice.branchFilters at added
    rw [addMixBranches]
    simp only [Scalar.round_rat, liftM_number_ok]
    dsimp only [bind, Except.bind]
    rw [added]
    simp only [liftM_graph_ok, done]
    rfl

/-- A mixer that takes in as many pads as it is given mixes all that is read of them. -/
theorem FilterGraph.mix?_eq {label : String} {inputs : List String} {mixer : Filter Rat}
    {branches : List (Branch Rat)}
    (made : graph.stageProducing? label = some ⟨inputs, [mixer], label⟩)
    (width : width? mixer = some (inputs.length : Int))
    (reads : List.Forall₂ (fun input branch => graph.branch? input = some branch) inputs branches) :
    graph.mix? label = some branches := by
  unfold mix?
  rw [made]
  cases inputs with
  | nil =>
    cases reads
    rfl
  | cons input rest =>
    change (if width? mixer = some ((input :: rest).length : Int) then _ else none) = _
    rw [if_pos width]
    exact mapM_eq_some_iff.mpr reads

/-- The sound of some slices is mixed from their branches; without slices there is silence, or no
sound. -/
theorem addAudioMix_sound? (settings : OutputFormat Rat) (duration : Rat) (silentAudio : Bool)
    (slices : List (Slice Rat)) (tidy : graph.Tidy names) (unused : audioLabel ∉ names) :
    ∃ output after, addAudioMix settings duration silentAudio slices graph = .ok (output, after) ∧
      graph.Extends after ∧
      after.sound? output = some (slices.map fun slice => slice.branch duration) := by
  have wordy : Wordy audioLabel := by decide
  obtain ⟨labels, mixed, done, tidy, grows, reads⟩ :=
    addMixBranches_reads settings duration slices tidy
  unfold addAudioMix
  rw [done]
  dsimp only [bind, Except.bind]
  match labels, reads with
  | [], reads =>
    rw [List.forall₂_nil_left_iff.mp reads]
    cases silentAudio with
    | false => exact ⟨none, mixed, rfl, grows, rfl⟩
    | true =>
      have filled : silenceFilters settings duration ≠ [] := by simp [silenceFilters]
      obtain ⟨after, added, -, grows', made⟩ := tidy.add wordy unused [] filled
      refine ⟨some audioLabel, after, ?_, grows.trans grows', ?_⟩
      · simp only [if_true, added, liftM_graph_ok]
        rfl
      · change after.mix? audioLabel = some []
        unfold FilterGraph.mix?
        rw [made]
        rfl
  | [branch], reads =>
    have filled : [(.withValues "anull" [] : Filter Rat)] ≠ [] := by simp
    obtain ⟨after, added, -, grows', made⟩ := tidy.add wordy unused [branch] filled
    refine ⟨some audioLabel, after, ?_, grows.trans grows', FilterGraph.mix?_eq made rfl ?_⟩
    · simp only [added, liftM_graph_ok]
      rfl
    · exact reads.imp fun _ _ read => FilterGraph.branch?_mono grows' read
  | first :: second :: rest, reads =>
    let mixer : Filter Rat := .withOptions "amix" [
      ("inputs", .int (first :: second :: rest).length), ("duration", .text "first"),
      ("dropout_transition", .int 0)]
    have filled : [mixer] ≠ [] := by simp
    obtain ⟨after, added, -, grows', made⟩ :=
      tidy.add wordy unused (first :: second :: rest) filled
    refine ⟨some audioLabel, after, ?_, grows.trans grows', FilterGraph.mix?_eq made rfl ?_⟩
    · simp only [mixer] at added
      simp only [added, liftM_graph_ok]
      rfl
    · exact reads.imp fun _ _ read => FilterGraph.branch?_mono grows' read

end Montage
