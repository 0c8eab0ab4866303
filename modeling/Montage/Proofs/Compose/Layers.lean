import Montage.Compose.Overlay
import Montage.Proofs.Filter.Plumbing

/-!
# The layers of a picture

A picture is read from a graph by following its canvases down to the background: each is an overlay
of something on another canvas. What is read of an overlay is a matter of what is overlaid; here, it
is a clip that is shown while a gate is open. Overlaying slices one after another makes a picture
with these layers in this order.

## Main definitions

* `Layer` — what is read of an overlay and of the chain that makes its clip
* `FilterGraph.Stacks` — a canvas has some layers, the lowest first, as some reading reads them

## Main results

* `FilterGraph.Stacks.unique` — a canvas has its layers in one way only
* `addOverlays_reads`, `addOverlays_stacks` — slices become layers
* `pictures_of_stacks` — what is laid over the background is the picture
-/

namespace Montage

@[simp] theorem liftM_number_ok {α : Type} (a : α) :
    (liftM (Except.ok a : Except NumberError α) : Except ComposeError α) = .ok a := rfl

@[simp] theorem liftM_graph_ok {α : Type} (a : α) :
    (liftM (Except.ok a : Except GraphError α) : Except ComposeError α) = .ok a := rfl

theorem Yields.lift_graph {α : Type} {result : Except GraphError α} {fails : ComposeError → Prop}
    {returns : α → Prop} (h : Gives result returns) :
    Yields (liftM result : Except ComposeError α) fails returns := by
  obtain ⟨a, rfl, h⟩ := h.exists
  exact h

variable {τ : Type}

namespace FilterGraph

variable {α : Type} {graph after : FilterGraph τ}

/-- What is read of an overlay and the label of what is overlaid. -/
abbrev Reading (τ α : Type) : Type := FilterGraph τ → Filter τ → String → Option α

/-- What is read stays so when stages are added. -/
def Stable (read : Reading τ α) : Prop :=
  ∀ ⦃graph after : FilterGraph τ⦄, graph.Extends after → ∀ ⦃overlay overlaid layer⦄,
    read graph overlay overlaid = some layer → read after overlay overlaid = some layer

variable {read : Reading τ α}

/-- The layers of a canvas, the lowest first, as `read` reads an overlay and the label of what is
overlaid. -/
inductive Stacks (read : Reading τ α) (graph : FilterGraph τ) : String → List α → Prop where
  | base {filters : List (Filter τ)} :
      graph.stageProducing? baseLabel = some ⟨[], filters, baseLabel⟩ →
      Stacks read graph baseLabel []
  | above {canvas overlaid label : String} {overlay : Filter τ} {layers : List α} {layer : α} :
      Stacks read graph canvas layers →
      graph.stageProducing? label = some ⟨[canvas, overlaid], [overlay], label⟩ →
      overlay.name = "overlay" → read graph overlay overlaid = some layer →
      Stacks read graph label (layers ++ [layer])

/-- The layers of the picture that leaves a graph. -/
def Pictures (read : Reading τ α) (graph : FilterGraph τ) (layers : List α) : Prop :=
  ∃ canvas, graph.stageProducing? videoLabel =
    some ⟨[canvas], [.withValues "null" []], videoLabel⟩ ∧ graph.Stacks read canvas layers

theorem Stacks.unique {label : String} {layers layers' : List α}
    (h : graph.Stacks read label layers) (h' : graph.Stacks read label layers') :
    layers = layers' := by
  induction h generalizing layers' with
  | base made =>
    cases h' with
    | base _ => rfl
    | above _ made' _ _ => exact absurd (made.symm.trans made') (by simp)
  | above _ made _ reads ih =>
    cases h' with
    | base made' => exact absurd (made.symm.trans made') (by simp)
    | above below made' _ reads' =>
      have same := Option.some.inj (made.symm.trans made')
      simp only [FilterChain.mk.injEq, List.cons.injEq, and_true] at same
      obtain ⟨⟨rfl, rfl⟩, rfl⟩ := same
      rw [ih below, Option.some.inj (reads.symm.trans reads')]

theorem Pictures.unique {layers layers' : List α} (h : graph.Pictures read layers)
    (h' : graph.Pictures read layers') : layers = layers' := by
  obtain ⟨canvas, made, layered⟩ := h
  obtain ⟨canvas', made', layered'⟩ := h'
  have same := Option.some.inj (made.symm.trans made')
  simp only [FilterChain.mk.injEq, List.cons.injEq, and_true] at same
  exact layered.unique (same ▸ layered')

/-- What is stacked stays so when stages are added. -/
theorem Stacks.mono (stable : Stable read) (h : graph.Extends after) {label : String}
    {layers : List α} (layered : graph.Stacks read label layers) :
    after.Stacks read label layers := by
  induction layered with
  | base made => exact .base (h _ _ made)
  | above _ made name reads ih => exact .above ih (h _ _ made) name (stable h reads)

end FilterGraph

/-! ### Layers with gates -/

/-- What is laid over a canvas: the pad that is read, the stretch of source that plays unless the
source stands still, the time of its first frame, and when it is shown. -/
structure Layer (τ : Type) where
  pad : String
  source : Option (τ × τ)
  shift : τ
  start : τ
  stop : τ

/-- The stretch of source that a filter cuts out, if it is given one. -/
def sourceOf? (name : String) (filters : List (Filter τ)) : Option (τ × τ) := do
  let trim ← filters.find? (·.name = name)
  match trim.option? "start", trim.option? "end" with
  | some (.number start), some (.number stop) => some (start, stop)
  | _, _ => none

/-- The time of the first frame behind a chain of filters. -/
def shiftOf? [Scalar τ] (filters : List (Filter τ)) : Option τ := do
  match (← filters.find? (·.name = "setpts")).positional with
  | [.shift offset] => some offset
  | [.text "PTS-STARTPTS"] => some Scalar.zero
  | _ => none

variable [Scalar τ]

namespace FilterGraph

/-- The layer that an overlay makes of the clip under a label. -/
def layer? (graph : FilterGraph τ) (overlay : Filter τ) (clip : String) : Option (Layer τ) := do
  let chain ← graph.stageProducing? clip
  let shift ← shiftOf? chain.filters
  match chain.inputs, overlay.option? "enable" with
  | [pad], some (.gate start stop) =>
    some { pad, source := sourceOf? "trim" chain.filters, shift, start, stop }
  | _, _ => none

theorem layer?_stable : Stable (layer? : Reading τ (Layer τ)) := by
  intro graph after h overlay clip layer reads
  unfold layer? at reads ⊢
  obtain ⟨chain, made, rest⟩ := Option.bind_eq_some_iff.mp reads
  exact Option.bind_eq_some_iff.mpr ⟨chain, h clip chain made, rest⟩

end FilterGraph

/-- The layer that a slice becomes. -/
def Slice.layer (slice : Slice τ) : Layer τ where
  pad := slice.pad "v"
  source := if slice.media.type = .image then none else some (slice.sourceIn, slice.sourceOut)
  shift := if slice.localStart ≤ Scalar.zero then Scalar.zero else slice.localStart
  start := slice.localStart
  stop := slice.localStop

theorem Slice.sourceOf?_videoFilters (slice : Slice τ) (settings : OutputFormat τ) (offset : τ) :
    sourceOf? "trim" (slice.videoFilters settings offset) = slice.layer.source := by
  unfold Slice.videoFilters Slice.trimFilters Slice.layer
  split
  · simp [sourceOf?, Filter.withOptions, Filter.withValues, Filter.option?]
  · simp [sourceOf?, Filter.withOptions, Filter.option?, List.lookup_cons]

theorem Slice.shiftOf?_videoFilters (slice : Slice τ) (settings : OutputFormat τ) (offset : τ) :
    shiftOf? (slice.videoFilters settings offset) =
      some (if offset ≤ Scalar.zero then Scalar.zero else offset) := by
  unfold Slice.videoFilters Slice.trimFilters Slice.timeStamps
  split <;> split <;> simp [shiftOf?, Filter.withOptions, Filter.withValues]

/-! ### Slices over a canvas -/

/-- The filter that lays a slice over a canvas and shows it during its own time. -/
def Slice.overlay (slice : Slice τ) : Filter τ :=
  .withOptions "overlay" [("x", .int 0), ("y", .int 0),
    ("enable", .gate slice.localStart slice.localStop)]

section Slices

open FilterGraph

variable {α : Type} {read : Reading τ α} {settings : OutputFormat τ} {layer : Slice τ → α}
  {graph : FilterGraph τ} {names : List String} {canvas : String}

/-- What is read of slices that are laid over a canvas. -/
def FilterGraph.Reads (read : Reading τ α) (settings : OutputFormat τ) (layer : Slice τ → α) : Prop :=
  ∀ (graph : FilterGraph τ) (label : String) (slice : Slice τ),
    graph.stageProducing? label =
      some ⟨[slice.pad "v"], slice.videoFilters settings slice.localStart, label⟩ →
    read graph slice.overlay label = some (layer slice)

/-- Slices become layers, each above those before it, whatever is read of a slice. -/
theorem addOverlays_reads (stable : Stable read) (reads : Reads read settings layer)
    (slices : List (Slice τ)) {layers : List α} (tidy : graph.Tidy names)
    (layered : graph.Stacks read canvas layers) :
    Gives (addOverlays settings slices canvas graph) fun (label, after) =>
      after.Tidy names ∧ graph.Extends after ∧
        after.Stacks read label (layers ++ slices.map layer) := by
  induction slices generalizing graph canvas layers with
  | nil => exact ⟨tidy, .refl graph, by simpa using layered⟩
  | cons slice rest ih =>
    refine Yields.bind (tidy.gives_fresh (by decide : Wordy "clip") [slice.pad "v"]
      (by simp [Slice.videoFilters])) ?_
    rintro clipped ⟨tidy, grows, made⟩
    refine Yields.bind (tidy.gives_fresh (by decide : Wordy "comp")
      [canvas, (graph.freshLabel "clip").1] (List.cons_ne_nil slice.overlay [])) ?_
    rintro laid ⟨tidy, grows', made'⟩
    -- What was laid before can be read as before, and the slice is laid above it.
    have below := layered.mono stable (grows.trans grows')
    have stacked := Stacks.above below made' rfl (reads laid _ slice (grows' _ _ made))
    refine (ih tidy stacked).imp (fun _ => id) ?_
    rintro ⟨label, after⟩ ⟨tidy, grows'', layered⟩
    exact ⟨tidy, (grows.trans grows').trans grows'', by simpa using layered⟩

theorem FilterGraph.layer?_reads (settings : OutputFormat τ) :
    Reads layer? settings Slice.layer := by
  intro graph label slice made
  unfold layer?
  rw [made]
  simp only [Option.bind_eq_bind, Option.bind_some, Slice.sourceOf?_videoFilters,
    Slice.shiftOf?_videoFilters]
  rfl

/-- Slices become layers with gates. -/
theorem addOverlays_stacks (settings : OutputFormat τ) (slices : List (Slice τ))
    {layers : List (Layer τ)} (tidy : graph.Tidy names)
    (layered : graph.Stacks layer? canvas layers) :
    ∃ label after, addOverlays settings slices canvas graph = .ok (label, after) ∧
      after.Tidy names ∧ graph.Extends after ∧
      after.Stacks layer? label (layers ++ slices.map Slice.layer) := by
  obtain ⟨⟨label, after⟩, done, h⟩ :=
    (addOverlays_reads layer?_stable (layer?_reads settings) slices tidy layered).exists
  exact ⟨label, after, done, h⟩

/-- What is laid over the background is the picture of a graph, whatever sound is added to it. -/
theorem pictures_of_stacks {σ : Type} (stable : Stable read) {layers : List α}
    {lay : FilterGraph τ → Except GraphError (String × FilterGraph τ)}
    {sound : FilterGraph τ → Except ComposeError (σ × FilterGraph τ)}
    {fails : ComposeError → Prop} (settings : OutputFormat τ) (duration : τ)
    (lays : ∀ graph : FilterGraph τ, graph.Tidy [baseLabel] → graph.Stacks read baseLabel [] →
      Gives (lay graph) fun (canvas, after) =>
        after.Tidy [baseLabel] ∧ graph.Extends after ∧ after.Stacks read canvas layers)
    (sounds : ∀ graph : FilterGraph τ, graph.Tidy [videoLabel, baseLabel] →
      Yields (sound graph) fails fun made => graph.Extends made.2) :
    Yields (do
        let graph ← addBackground {} settings duration
        let (canvas, graph) ← lay graph
        let graph ← addVideoOutput graph canvas
        sound graph : Except ComposeError (σ × FilterGraph τ))
      fails fun made => made.2.Pictures read layers := by
  refine Yields.bind (Yields.lift_graph (tidy_empty.gives_add (by decide : Wordy baseLabel)
    (by simp) [] (by simp))) ?_
  rintro backed ⟨tidy, -, based⟩
  refine Yields.bind (Yields.lift_graph (lays _ tidy (.base based))) ?_
  rintro ⟨canvas, laid⟩ ⟨tidy, -, stacked⟩
  refine Yields.bind (Yields.lift_graph (tidy.gives_add (by decide : Wordy videoLabel)
    (by decide) [canvas] (by simp))) ?_
  rintro pictured ⟨tidy, grows, pictures⟩
  refine (sounds pictured tidy).imp (fun _ => id) fun made grows' => ?_
  exact ⟨canvas, grows' _ _ pictures, stacked.mono stable (grows.trans grows')⟩

end Slices

end Montage
