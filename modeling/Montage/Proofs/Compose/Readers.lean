import Montage.Proofs.Compose.Footprint
import Montage.Proofs.Compose.Sources
import Montage.Proofs.Compose.Stream
import Montage.Proofs.Text.Digits

/-!
# Readers of inputs

A media item becomes an input as soon as a slice of it is cut out. An overlay composition reads the
input of every slice. A sequence of sounds plays a slice only if it lasts longer than those in front of
it, so a concat composition has inputs that no stage reads: those of media of which all that is heard is
covered.

## Main definitions

* `FilterGraph.Draws` — the pads of inputs that a graph reads
* `Slice.Uncovered` — a slice lasts longer than all in front of it in a sequence
* `Composition.Reads` — some stage reads the picture or the sound of an input

## Main results

* `overlayGraph_draws`, `concatGraph_draws` — the pads of inputs that compositions read
* `Slice.gatherClips_inputs` — every input is that of a slice
* `compose_reads` — which inputs have a reader
-/

namespace Montage

/-- What a computation returns, if it returns anything. -/
abbrev GivesAtMost {ε α : Type} (result : Except ε α) (returns : α → Prop) : Prop :=
  Yields result (fun _ => True) returns

theorem GivesAtMost.lift_graph {α : Type} {result : Except GraphError α} {returns : α → Prop}
    (h : GivesAtMost result returns) :
    GivesAtMost (liftM result : Except ComposeError α) returns := by
  cases result with
  | ok _ => exact h
  | error _ => trivial

theorem Yields.and {ε α : Type} {result : Except ε α} {fails : ε → Prop} {returns more : α → Prop}
    (h : Yields result fails returns) (h' : GivesAtMost result more) :
    Yields result fails fun a => returns a ∧ more a := by
  cases result with
  | ok _ => exact ⟨h, h'⟩
  | error _ => exact h

/-! ### Pads of inputs that are read -/

/-- A label that is no pad of an input. -/
def Inner (label : String) : Prop := ∀ count, ¬ IsInputPad count label

theorem inner_of_wordy {label : String} (wordy : Wordy label) : Inner label :=
  fun _ pad => pad.not_wordy wordy

section Draws

variable {τ : Type} {graph after : FilterGraph τ} {pads pads' inputs : List String}

namespace FilterGraph

theorem inner_freshLabel (graph : FilterGraph τ) (stem : String) : Inner (graph.freshLabel stem).1 :=
  fun _ pad => pad.ne_numbered stem _ rfl

/-- A graph reads some pads of inputs, and no others. -/
def Draws (graph : FilterGraph τ) (pads : List String) : Prop :=
  ∀ count pad, IsInputPad count pad → (pad ∈ graph.reads ↔ pad ∈ pads)

theorem draws_empty : ({} : FilterGraph τ).Draws [] := fun _ _ _ => Iff.rfl

namespace Draws

theorem congr (draws : graph.Draws pads) (same : ∀ pad, pad ∈ pads ↔ pad ∈ pads') :
    graph.Draws pads' := fun count pad isPad => (draws count pad isPad).trans (same pad)

/-- Labels between stages do not count. -/
theorem of_inner (draws : graph.Draws (pads ++ inputs)) (inner : ∀ pad ∈ inputs, Inner pad) :
    graph.Draws pads := by
  intro count pad isPad
  rw [draws count pad isPad, List.mem_append, or_iff_left]
  exact fun h => inner pad h count isPad

/-- Giving out a label adds no stage. -/
theorem freshLabel (draws : graph.Draws pads) (stem : String) :
    (graph.freshLabel stem).2.Draws pads := draws

/-- A stage reads its pads, too. -/
theorem add (draws : graph.Draws pads) (inputs : List String) (filters : List (Filter τ))
    (label : String) :
    GivesAtMost (graph.add inputs filters label) (·.Draws (pads ++ inputs)) := by
  cases added : graph.add inputs filters label with
  | error _ => trivial
  | ok after =>
    intro count pad isPad
    have reads : after.reads = graph.reads ++ inputs := by
      rw [reads, (stages_of_add added).1, List.flatMap_append, List.flatMap_singleton]
      rfl
    rw [reads, List.mem_append, List.mem_append, draws count pad isPad]

/-- A stage that reads labels. -/
theorem addInner (draws : graph.Draws pads) (inner : ∀ pad ∈ inputs, Inner pad)
    (filters : List (Filter τ)) (label : String) :
    GivesAtMost (graph.add inputs filters label) (·.Draws pads) :=
  (draws.add inputs filters label).imp (fun _ => id) fun _ draws => draws.of_inner inner

end Draws

end FilterGraph

end Draws

/-! ### Pictures -/

section Graphs

variable {τ : Type} [Scalar τ] {graph : FilterGraph τ} {pads : List String} {canvas : String}

open FilterGraph

theorem addBackground_draws (settings : OutputFormat τ) (duration : τ) :
    GivesAtMost (addBackground {} settings duration) (·.Draws []) :=
  draws_empty.addInner (by simp) _ _

omit [Scalar τ] in
theorem addVideoOutput_draws (draws : graph.Draws pads) (inner : Inner canvas) :
    GivesAtMost (addVideoOutput graph canvas) (·.Draws pads) :=
  draws.addInner (by simpa using inner) _ _

/-- Overlays read the pictures of their slices. -/
theorem addOverlays_draws (settings : OutputFormat τ) (slices : List (Slice τ))
    (draws : graph.Draws pads) (inner : Inner canvas) :
    GivesAtMost (addOverlays settings slices canvas graph) fun made =>
      made.2.Draws (pads ++ slices.map (·.pad "v")) ∧ Inner made.1 := by
  induction slices generalizing graph canvas pads with
  | nil => exact ⟨by simpa using draws, inner⟩
  | cons slice rest ih =>
    refine Yields.bind ((draws.freshLabel "clip").add _ _ _) fun clipped draws => ?_
    have laid : ∀ pad ∈ [canvas, (graph.freshLabel "clip").1], Inner pad :=
      List.forall_mem_cons.mpr ⟨inner, List.forall_mem_singleton.mpr (graph.inner_freshLabel "clip")⟩
    refine Yields.bind ((draws.freshLabel "comp").addInner laid _ _) fun laid draws => ?_
    rw [List.map_cons, List.append_cons]
    exact ih draws (clipped.inner_freshLabel "comp")

/-- A filler reads nothing. -/
theorem addFiller_draws (settings : OutputFormat τ) (gap : τ) (draws : graph.Draws pads) :
    GivesAtMost (addFiller settings gap graph) fun made =>
      made.2.Draws pads ∧ Inner made.1 :=
  Yields.bind ((draws.freshLabel "gap").addInner (by simp) _ _) fun _ draws =>
    ⟨draws, graph.inner_freshLabel "gap"⟩

/-- The segments of a stream read the pictures of their slices. -/
theorem addStreamSegments_draws (settings : OutputFormat τ) (slices : List (Slice τ)) (emitted : τ)
    (draws : graph.Draws pads) :
    GivesAtMost (addStreamSegments settings slices emitted graph) fun made =>
      made.2.2.Draws (pads ++ slices.map (·.pad "v")) ∧ ∀ label ∈ made.1, Inner label := by
  induction slices generalizing graph pads emitted with
  | nil => exact ⟨by simpa using draws, by simp⟩
  | cons slice rest ih =>
    -- What is done with the slice and the rest, with or without a filler in front of it.
    have follow (filler : List String) (inner : ∀ label ∈ filler, Inner label) (emitted : τ)
        {graph : FilterGraph τ} (draws : graph.Draws pads) :
        GivesAtMost (do
          let placed ← (graph.freshLabel "seg").2.add [slice.pad "v"]
            (slice.videoFilters settings Scalar.zero) (graph.freshLabel "seg").1
          let made ← addStreamSegments settings rest
            (emitted + (slice.localStop - slice.localStart)) placed
          return (filler ++ (graph.freshLabel "seg").1 :: made.1, made.2))
          fun made => made.2.2.Draws (pads ++ (slice :: rest).map (·.pad "v")) ∧
            ∀ label ∈ made.1, Inner label := by
      refine Yields.bind ((draws.freshLabel "seg").add _ _ _) fun placed draws => ?_
      refine Yields.bind (ih _ draws) fun made drawn => ?_
      obtain ⟨draws, others⟩ := drawn
      have pads : pads ++ (slice :: rest).map (·.pad "v") =
          pads ++ [slice.pad "v"] ++ rest.map (·.pad "v") := List.append_cons ..
      rw [pads]
      refine ⟨draws, fun label h => ?_⟩
      rcases List.mem_append.mp h with h | h
      · exact inner label h
      · rcases List.mem_cons.mp h with rfl | h
        · exact graph.inner_freshLabel "seg"
        · exact others label h
    rw [addStreamSegments]
    dsimp only
    split
    · exact Yields.bind (addFiller_draws settings _ draws) fun filled drawn =>
        follow [filled.1] (List.forall_mem_singleton.mpr drawn.2) _ drawn.1
    · exact follow [] (by simp) _ draws

omit [Scalar τ] in
/-- What joins segments reads labels only. -/
theorem joinSegments_draws (labels : List String) (inner : ∀ label ∈ labels, Inner label)
    (draws : graph.Draws pads) :
    GivesAtMost (match labels with
      | [segment] => return (segment, graph)
      | segments =>
        let (label, graph) := graph.freshLabel "track"
        let concat := Filter.withOptions "concat"
          [("n", .int segments.length), ("v", .int 1), ("a", .int 0)]
        return (label, ← graph.add segments [concat] label)) fun (label, after) =>
          after.Draws pads ∧ Inner label := by
  rcases labels with _ | ⟨segment, _ | ⟨next, rest⟩⟩
  · exact Yields.bind ((draws.freshLabel "track").addInner inner _ _) fun _ draws =>
      ⟨draws, graph.inner_freshLabel "track"⟩
  · exact ⟨draws, List.forall_mem_singleton.mp inner⟩
  · exact Yields.bind ((draws.freshLabel "track").addInner inner _ _) fun _ draws =>
      ⟨draws, graph.inner_freshLabel "track"⟩

/-- The stream of a track reads the pictures of its slices. -/
theorem addTrackStream_draws (settings : OutputFormat τ) (duration : τ) (slices : List (Slice τ))
    (draws : graph.Draws pads) :
    GivesAtMost (addTrackStream settings duration slices graph) fun made =>
      made.2.Draws (pads ++ slices.map (·.pad "v")) ∧ Inner made.1 := by
  refine Yields.bind (addStreamSegments_draws settings (Slice.byStart slices) Scalar.zero draws) ?_
  rintro ⟨labels, emitted, after⟩ ⟨draws, inner⟩
  have sorted (pad : String) : pad ∈ pads ++ (Slice.byStart slices).map (·.pad "v") ↔
      pad ∈ pads ++ slices.map (·.pad "v") := by
    simp only [List.mem_append, List.mem_map, Slice.byStart, List.mem_mergeSort]
  have draws := draws.congr sorted
  dsimp only at inner ⊢
  split
  · refine Yields.bind (addFiller_draws settings _ draws) ?_
    rintro ⟨label, filled⟩ ⟨draws, last⟩
    refine joinSegments_draws (labels ++ [label]) (fun other h => ?_) draws
    rcases List.mem_append.mp h with h | h
    · exact inner other h
    · exact List.mem_singleton.mp h ▸ last
  · exact joinSegments_draws (labels ++ []) (by simpa using inner) draws

/-- Streams that are laid over each other read the pictures of all slices. -/
theorem addTrackStreams_draws (settings : OutputFormat τ) (duration : τ)
    (tracks : List (List (Slice τ))) (draws : graph.Draws pads) (inner : Inner canvas) :
    GivesAtMost (addTrackStreams settings duration tracks canvas graph) fun made =>
      made.2.Draws (pads ++ tracks.flatten.map (·.pad "v")) ∧ Inner made.1 := by
  induction tracks generalizing graph canvas pads with
  | nil => exact ⟨by simpa using draws, inner⟩
  | cons slices rest ih =>
    refine Yields.bind (addTrackStream_draws settings duration slices draws)
      fun (stream, streamed) ⟨draws, streamInner⟩ => ?_
    have laid : ∀ pad ∈ [canvas, stream], Inner pad :=
      List.forall_mem_cons.mpr ⟨inner, List.forall_mem_singleton.mpr streamInner⟩
    refine Yields.bind ((draws.freshLabel "comp").addInner laid _ _) fun laid draws => ?_
    rw [List.flatten_cons, List.map_append, ← List.append_assoc]
    exact ih draws (streamed.inner_freshLabel "comp")

/-! ### Sounds -/

/-- The branches of a mix read the sounds of their slices. -/
theorem addMixBranches_draws (settings : OutputFormat τ) (duration : τ) (slices : List (Slice τ))
    (draws : graph.Draws pads) :
    GivesAtMost (addMixBranches settings duration slices graph) fun made =>
      made.2.Draws (pads ++ slices.map (·.pad "a")) ∧ ∀ label ∈ made.1, Inner label := by
  induction slices generalizing graph pads with
  | nil => exact ⟨by simpa using draws, by simp⟩
  | cons slice rest ih =>
    rw [addMixBranches]
    cases Scalar.round (slice.localStart * Scalar.whole 1000) with
    | error cause => trivial
    | ok delay =>
      refine Yields.bind (show Yields (liftM (Except.ok delay : Except NumberError Int)) _
        (· = delay) from rfl) ?_
      rintro _ rfl
      refine Yields.bind (GivesAtMost.lift_graph ((draws.freshLabel "a").add _ _ _)) fun placed draws => ?_
      refine Yields.bind (ih draws) fun made drawn => ?_
      obtain ⟨draws, inner⟩ := drawn
      rw [List.map_cons, List.append_cons]
      exact ⟨draws, List.forall_mem_cons.mpr ⟨graph.inner_freshLabel "a", inner⟩⟩

/-- A mix reads the sounds of all of its slices. -/
theorem addAudioMix_draws (settings : OutputFormat τ) (duration : τ) (silentAudio : Bool)
    (slices : List (Slice τ)) (draws : graph.Draws pads) :
    GivesAtMost (addAudioMix settings duration silentAudio slices graph) fun made =>
      made.2.Draws (pads ++ slices.map (·.pad "a")) := by
  refine Yields.bind (addMixBranches_draws settings duration slices draws)
    fun (branches, mixed) ⟨draws, inner⟩ => ?_
  dsimp only at inner ⊢
  rcases branches with _ | ⟨branch, _ | ⟨next, rest⟩⟩
  · cases silentAudio with
    | false => exact draws
    | true => exact Yields.bind (GivesAtMost.lift_graph (draws.addInner inner _ _)) fun _ => id
  · exact Yields.bind (GivesAtMost.lift_graph (draws.addInner inner _ _)) fun _ => id
  · exact Yields.bind (GivesAtMost.lift_graph (draws.addInner inner _ _)) fun _ => id

/-- The pieces of a sequence read the sounds of their slices. -/
theorem addPieces_draws (settings : OutputFormat τ) (pieces : List (Piece τ))
    (draws : graph.Draws pads) :
    GivesAtMost (addPieces settings pieces graph) fun made =>
      made.2.Draws (pads ++ pieces.flatMap Piece.inputs) ∧ ∀ label ∈ made.1, Inner label := by
  induction pieces generalizing graph pads with
  | nil => exact ⟨by simpa using draws, by simp⟩
  | cons piece rest ih =>
    refine Yields.bind ((draws.freshLabel piece.stem).add _ _ _) fun placed draws => ?_
    refine Yields.bind (ih draws) fun made ⟨draws, inner⟩ => ?_
    rw [List.flatMap_cons, ← List.append_assoc]
    exact ⟨draws, List.forall_mem_cons.mpr ⟨graph.inner_freshLabel piece.stem, inner⟩⟩

/-- A sequence reads the sounds of what it plays. -/
theorem addAudioSequence_draws (settings : OutputFormat τ) (duration : τ) (slices : List (Slice τ))
    (draws : graph.Draws pads) :
    GivesAtMost (addAudioSequence settings duration slices graph) fun made =>
      made.2.Draws (pads ++ (Slice.playlist duration slices).flatMap Piece.inputs) := by
  rw [addAudioSequence_eq]
  refine Yields.bind (addPieces_draws settings _ draws) fun (labels, placed) ⟨draws, inner⟩ => ?_
  exact Yields.bind (draws.addInner inner _ _) fun _ => id

/-! ### Graphs -/

/-- An overlay composition reads the picture or the sound of every slice. -/
theorem overlayGraph_draws (settings : OutputFormat τ) (duration : τ) (silentAudio : Bool)
    (videoSlices audioSlices : List (Slice τ)) :
    GivesAtMost (overlayGraph settings duration silentAudio videoSlices audioSlices) fun made =>
      made.2.Draws (videoSlices.map (·.pad "v") ++ audioSlices.map (·.pad "a")) := by
  refine Yields.bind (addBackground_draws settings duration).lift_graph fun backed draws => ?_
  refine Yields.bind (addOverlays_draws settings videoSlices draws
    (inner_of_wordy (by decide))).lift_graph fun (canvas, laid) ⟨draws, inner⟩ => ?_
  refine Yields.bind (addVideoOutput_draws draws inner).lift_graph fun pictured draws => ?_
  exact addAudioMix_draws settings duration silentAudio audioSlices draws

/-- A concat composition reads the picture of every slice, and the sound of those that it plays. -/
theorem concatGraph_draws (settings : OutputFormat τ) (duration : τ)
    (trackSlices : List (List (Slice τ))) (audioSlices : List (Slice τ)) :
    GivesAtMost (concatGraph settings duration trackSlices audioSlices) fun made =>
      made.2.Draws (trackSlices.flatten.map (·.pad "v") ++
        (Slice.playlist duration audioSlices).flatMap Piece.inputs) := by
  refine Yields.bind (addBackground_draws settings duration).lift_graph fun backed draws => ?_
  refine Yields.bind (addTrackStreams_draws settings duration trackSlices draws
    (inner_of_wordy (by decide))).lift_graph fun (canvas, laid) ⟨draws, inner⟩ => ?_
  refine Yields.bind (addVideoOutput_draws draws inner).lift_graph fun pictured draws => ?_
  exact (addAudioSequence_draws settings duration audioSlices draws).lift_graph

end Graphs

/-! ### What a sequence plays -/

namespace Slice

section Played

variable {τ : Type} [Scalar τ]

/-- A slice that has not ended yet when it is its turn in a sequence. -/
def Played (slices : List (Slice τ)) (slice : Slice τ) : Prop :=
  ∃ before behind, inSequence slices = before ++ slice :: behind ∧
    ¬ slice.localStop ≤ lastStop before Scalar.zero

theorem sound_mem_pieces_iff {slices : List (Slice τ)} {cursor : τ} {part : Slice τ} :
    .sound part ∈ pieces slices cursor ↔ ∃ before slice behind,
      slices = before ++ slice :: behind ∧ ¬ slice.localStop ≤ lastStop before cursor ∧
        part = slice.startingAt (lastStop before cursor) := by
  induction slices generalizing cursor with
  | nil => simp [pieces]
  | cons first rest ih =>
    have turn (before : List (Slice τ)) (slice : Slice τ) (behind : List (Slice τ)) :
        first :: rest = before ++ slice :: behind ↔
          (before = [] ∧ first = slice ∧ rest = behind) ∨
            ∃ others, before = first :: others ∧ rest = others ++ slice :: behind := by
      simp only [List.cons_eq_append_iff, List.cons_eq_cons, eq_comm]
    rw [pieces]
    by_cases past : first.localStop ≤ cursor
    · rw [if_pos past, ih]
      constructor
      · rintro ⟨before, slice, behind, rfl, late, rfl⟩
        have same : lastStop (first :: before) cursor = lastStop before cursor := if_pos past
        exact ⟨first :: before, slice, behind, rfl, same ▸ late, by rw [same]⟩
      · rintro ⟨before, slice, behind, whole, late, rfl⟩
        rcases (turn before slice behind).mp whole with ⟨rfl, rfl, -⟩ | ⟨others, rfl, rest⟩
        · exact absurd past late
        · have same : lastStop (first :: others) cursor = lastStop others cursor := if_pos past
          exact ⟨others, slice, behind, rest, same ▸ late, by rw [same]⟩
    · rw [if_neg past, List.mem_append, or_iff_right not_sound_mem_hush, List.mem_cons, ih]
      constructor
      · rintro (same | ⟨before, slice, behind, rfl, late, rfl⟩)
        · exact ⟨[], first, rest, rfl, past, Piece.sound.inj same⟩
        · have same : lastStop (first :: before) cursor = lastStop before first.localStop :=
            if_neg past
          exact ⟨first :: before, slice, behind, rfl, same ▸ late, by rw [same]⟩
      · rintro ⟨before, slice, behind, whole, late, rfl⟩
        rcases (turn before slice behind).mp whole with ⟨rfl, rfl, -⟩ | ⟨others, rfl, rest⟩
        · exact .inl rfl
        · have same : lastStop (first :: others) cursor = lastStop others first.localStop :=
            if_neg past
          exact .inr ⟨others, slice, behind, rest, same ▸ late, by rw [same]⟩

/-- The pads of a sequence are those of the sounds that it plays. -/
theorem mem_inputs_playlist_iff {duration : τ} {slices : List (Slice τ)} {pad : String} :
    pad ∈ (playlist duration slices).flatMap Piece.inputs ↔
      ∃ slice, Played slices slice ∧ slice.pad "a" = pad := by
  rw [List.mem_flatMap]
  constructor
  · rintro ⟨piece, hpiece, hpad⟩
    cases piece with
    | silence _ => exact absurd hpad List.not_mem_nil
    | sound part =>
      have part := (List.mem_append.mp hpiece).resolve_right not_sound_mem_hush
      obtain ⟨before, slice, behind, whole, late, rfl⟩ := sound_mem_pieces_iff.mp part
      refine ⟨slice, ⟨before, behind, whole, late⟩, ?_⟩
      rw [List.mem_singleton.mp hpad, Slice.pad, Slice.pad, startingAt_inputIndex]
  · rintro ⟨slice, ⟨before, behind, whole, late⟩, rfl⟩
    refine ⟨.sound (slice.startingAt (lastStop before Scalar.zero)), ?_, ?_⟩
    · exact List.mem_append_left _
        (sound_mem_pieces_iff.mpr ⟨before, slice, behind, whole, late, rfl⟩)
    · rw [Piece.inputs, List.mem_singleton, Slice.pad, Slice.pad, startingAt_inputIndex]

theorem Played.mem {slices : List (Slice τ)} {slice : Slice τ} (played : Played slices slice) :
    slice ∈ slices := by
  obtain ⟨before, behind, whole, -⟩ := played
  have inside : slice ∈ inSequence slices := by simp [whole]
  exact List.mem_mergeSort.mp inside

/-- A slice lasts longer than all in front of it in a sequence. -/
def Uncovered (slices : List (Slice τ)) (slice : Slice τ) : Prop :=
  ∃ before behind, inSequence slices = before ++ slice :: behind ∧
    ∀ earlier ∈ before, ¬ slice.localStop ≤ earlier.localStop

end Played

/-- The times of a slice with some length in a window. -/
structure Timed (slice : Slice Double) : Prop where
  number : slice.localStop.position?.isSome
  positive : ¬ slice.localStop ≤ Scalar.zero

/-- Nothing ends behind where a sequence has come to, unless it ends behind all slices before. -/
theorem not_le_lastStop_iff {slices : List (Slice Double)} {x cursor : Double}
    (numbers : ∀ slice ∈ slices, slice.localStop.position?.isSome)
    (number : cursor.position?.isSome) :
    ¬ x ≤ lastStop slices cursor ↔ ¬ x ≤ cursor ∧ ∀ slice ∈ slices, ¬ x ≤ slice.localStop := by
  induction slices generalizing cursor with
  | nil => simp [lastStop]
  | cons slice rest ih =>
    obtain ⟨first, numbers⟩ := List.forall_mem_cons.mp numbers
    rw [lastStop, List.forall_mem_cons]
    by_cases past : slice.localStop ≤ cursor
    · rw [if_pos past, ih numbers number]
      have later (h : ¬ x ≤ cursor) : ¬ x ≤ slice.localStop := fun le => h (Double.le_trans le past)
      constructor
      · rintro ⟨h, others⟩
        exact ⟨h, later h, others⟩
      · rintro ⟨h, -, others⟩
        exact ⟨h, others⟩
    · rw [if_neg past, ih numbers first]
      have past := Double.le_of_not_le first number past
      have later (h : ¬ x ≤ slice.localStop) : ¬ x ≤ cursor := fun le => h (Double.le_trans le past)
      constructor
      · rintro ⟨h, others⟩
        exact ⟨later h, h, others⟩
      · rintro ⟨-, h, others⟩
        exact ⟨h, others⟩

/-- A sound is played exactly if it lasts longer than those in front of it. -/
theorem played_iff {slices : List (Slice Double)} {slice : Slice Double}
    (timed : ∀ slice ∈ slices, slice.Timed) : Played slices slice ↔ Uncovered slices slice := by
  have zero : (Scalar.zero : Double).position?.isSome := by rw [Double.position?_zero]; rfl
  unfold Played Uncovered
  refine exists_congr fun before => exists_congr fun behind => and_congr_right fun whole => ?_
  have inside {other : Slice Double} (h : other ∈ before ++ slice :: behind) : other.Timed :=
    timed other (List.mem_mergeSort.mp (whole ▸ h))
  rw [not_le_lastStop_iff (fun other h => (inside (List.mem_append_left _ h)).number) zero,
    and_iff_right (inside (by simp)).positive]

end Slice

/-! ### Inputs of slices -/

section Gather

variable {τ : Type} [Scalar τ] {access : MediaAccess} {window : Window τ} {gathered : Gathered}
  {skipImages : Bool}

/-- An input that was not there before is the one that was asked for. -/
theorem Gathered.mem_inputFor {item : MediaFile} {input : InputFile}
    (h : input ∈ (gathered.inputFor access item).2.inputs) :
    input ∈ gathered.inputs ∨ input.index = (gathered.inputFor access item).1 := by
  unfold Gathered.inputFor at h ⊢
  split at h
  · exact .inl h
  · refine (List.mem_append.mp h).imp_right fun h => ?_
    rw [List.mem_singleton.mp h]

namespace Slice

/-- A slice is cut out of its clip. -/
theorem exists_cut_of_gatherClip {track : Track τ} {clip : Clip τ} {slice : Slice τ}
    (h : (gatherClip access window skipImages track clip gathered).1 = some slice) :
    ∃ item cut, ofClip? clip item window = some cut ∧ slice.localStop = cut.localStop := by
  unfold gatherClip at h
  split at h
  · exact absurd h (by simp)
  · split at h
    · exact absurd h (by simp)
    · next item _ =>
      split at h
      · exact absurd h (by simp)
      · split at h
        · exact absurd h (by simp)
        · next cut hcut =>
          obtain rfl := Option.some.inj h
          exact ⟨item, cut, hcut, rfl⟩

theorem exists_cut_of_mem_gatherClips {clips : List (Track τ × Clip τ)} {slice : Slice τ}
    (h : slice ∈ (gatherClips access window skipImages clips gathered).1) :
    ∃ clip item cut, ofClip? clip item window = some cut ∧ slice.localStop = cut.localStop := by
  induction clips generalizing gathered with
  | nil => exact absurd h List.not_mem_nil
  | cons entry rest ih =>
    rcases List.mem_append.mp h with h | h
    · exact ⟨entry.2, exists_cut_of_gatherClip (Option.mem_toList.mp h)⟩
    · exact ih h

/-- An input that was not there before is that of the slice. -/
theorem gatherClip_inputs {track : Track τ} {clip : Clip τ} {input : InputFile} :
    input ∈ (gatherClip access window skipImages track clip gathered).2.inputs →
      input ∈ gathered.inputs ∨
        ∃ slice ∈ (gatherClip access window skipImages track clip gathered).1,
          slice.inputIndex = input.index := by
  unfold gatherClip
  split
  · exact .inl
  · split
    · exact .inl
    · next item _ =>
      split
      · exact .inl
      · split
        · exact .inl
        · next cut hcut =>
          intro h
          refine (Gathered.mem_inputFor h).imp_right fun same => ⟨_, rfl, ?_⟩
          exact congrArg Int.ofNat same.symm

/-- An input that was not there before is that of a slice. -/
theorem gatherClips_inputs {clips : List (Track τ × Clip τ)} {input : InputFile}
    (h : input ∈ (gatherClips access window skipImages clips gathered).2.inputs) :
    input ∈ gathered.inputs ∨
      ∃ slice ∈ (gatherClips access window skipImages clips gathered).1,
        slice.inputIndex = input.index := by
  induction clips generalizing gathered with
  | nil => exact .inl h
  | cons entry rest ih =>
    rcases ih h with before | ⟨slice, hslice, index⟩
    · refine (gatherClip_inputs before).imp_right ?_
      rintro ⟨slice, hslice, index⟩
      exact ⟨slice, List.mem_append_left _ (Option.mem_toList.mpr hslice), index⟩
    · exact .inr ⟨slice, List.mem_append_right _ hslice, index⟩

end Slice

end Gather

/-! ### Times of slices -/

/-- A window that meets a clip has so many units of length. -/
theorem Window.duration_isSome {window : Window Double} {clip : Clip Double}
    (meets : window.meets clip = true) : window.duration.position?.isSome := by
  unfold Window.meets Window.intersects at meets
  rw [Bool.and_eq_true, decide_eq_true_eq, decide_eq_true_eq] at meets
  obtain ⟨start, stop, hstart, hstop, inside⟩ := Iff.mp Double.lt_iff meets.1
  obtain ⟨c, last, hc, hlast, before⟩ := Iff.mp Double.lt_iff meets.2
  obtain ⟨z, p, hz, hp, positive⟩ := Iff.mp Double.le_iff clip.times_nonneg.1
  rw [Option.some.inj (hz.symm.trans Double.position?_zero),
    Option.some.inj (hp.symm.trans hstart)] at positive
  have limit := Double.limit_pos
  refine Double.sub_position?_isSome hstop hc (by omega) ?_
  exact before.trans_le (Double.position?_le_limit hlast)

/-- A slice with some length ends at a time behind the start of the window. -/
theorem Slice.timed_of_ofClip? {clip : Clip Double} {item : MediaFile} {window : Window Double}
    {cut : Slice Double} (h : ofClip? clip item window = some cut) : cut.Timed := by
  unfold ofClip? at h
  split at h
  · next meets =>
    dsimp only at h
    split at h
    · exact absurd h (by simp)
    · next long =>
      obtain rfl := Option.some.inj h
      constructor
      case number =>
        change (Scalar.minOf window.duration (clip.stop - window.start)).position?.isSome
        unfold Scalar.minOf
        split
        · next less =>
          obtain ⟨a, b, ha, hb, -⟩ := Iff.mp Double.lt_iff less
          rw [ha]
          rfl
        · exact Window.duration_isSome meets
      case positive =>
        -- The slice starts at the start of the window at the earliest.
        refine fun le => long (Double.le_trans le ?_)
        unfold Scalar.maxOf
        split
        · next above => exact Double.le_of_lt above
        · exact Double.zero_le_zero
  · exact absurd h (by simp)

/-! ### Compositions -/

section Compositions

variable {τ : Type} [Scalar τ]

/-- The slices that are seen in a window, with what is gathered for them. -/
def Timeline.seen (timeline : Timeline τ) (access : MediaAccess) (window : Window τ) :
    List (Slice τ) × Gathered :=
  Slice.gather access window false timeline.layersFromBottom {}

/-- The slices that are heard in a window, with what is gathered for them and for those that are
seen. -/
def Timeline.heard (timeline : Timeline τ) (access : MediaAccess) (window : Window τ) :
    List (Slice τ) × Gathered :=
  Slice.gather access window true timeline.heardTracks (timeline.seen access window).2

/-- Some stage reads the picture or the sound of an input. -/
def Composition.Reads (composition : Composition τ) (input : InputFile) : Prop :=
  ∃ stream ∈ ["v", "a"], toString input.index ++ ":" ++ stream ∈ composition.graph.reads

instance (composition : Composition τ) (input : InputFile) : Decidable (composition.Reads input) :=
  inferInstanceAs (Decidable (∃ stream ∈ ["v", "a"], _))

theorem isInputPad_of_mem (n : Nat) {stream : String} (known : stream ∈ ["v", "a"]) :
    IsInputPad (n + 1) (toString n ++ ":" ++ stream) := by
  refine ⟨n, Nat.lt_succ_self n, ?_⟩
  rcases List.mem_pair.mp known with rfl | rfl
  · exact .inl rfl
  · exact .inr rfl

/-- An input is read through the pads of some slices if it is theirs. -/
theorem exists_pad_iff {count n : Nat} {stream : String} (known : stream ∈ ["v", "a"])
    {among : Slice τ → Prop} (wired : ∀ slice, among slice → slice.Wired count) :
    (∃ stream' ∈ ["v", "a"], ∃ slice, among slice ∧
      slice.pad stream = toString n ++ ":" ++ stream') ↔
      ∃ slice, among slice ∧ slice.inputIndex = n := by
  constructor
  · rintro ⟨stream', -, slice, hslice, same⟩
    obtain ⟨m, -, index⟩ := wired slice hslice
    rw [Slice.pad, index] at same
    exact ⟨slice, hslice, by rw [index, Text.number_inj_of_colon same]⟩
  · rintro ⟨slice, hslice, index⟩
    exact ⟨stream, known, slice, hslice, by rw [Slice.pad, index]; rfl⟩

/-- An input is read if it is that of a slice that is seen or heard. -/
theorem reads_iff {composition : Composition τ} {count count' : Nat} {seen heard : Slice τ → Prop}
    {pads : List String} (draws : composition.graph.Draws pads)
    (pads_iff : ∀ pad, pad ∈ pads ↔ (∃ slice, seen slice ∧ slice.pad "v" = pad) ∨
      ∃ slice, heard slice ∧ slice.pad "a" = pad)
    (wired : ∀ slice, seen slice → slice.Wired count)
    (wired' : ∀ slice, heard slice → slice.Wired count') (input : InputFile) :
    composition.Reads input ↔ (∃ slice, seen slice ∧ slice.inputIndex = input.index) ∨
      ∃ slice, heard slice ∧ slice.inputIndex = input.index := by
  have picture : "v" ∈ ["v", "a"] := by decide
  have sound : "a" ∈ ["v", "a"] := by decide
  rw [← exists_pad_iff picture wired, ← exists_pad_iff sound wired', ← exists_or]
  refine exists_congr fun stream => ?_
  rw [← and_or_left, and_congr_right_iff]
  intro h
  rw [draws _ _ (isInputPad_of_mem input.index h), pads_iff]

/-- An overlay composition has the gathered inputs and reads the pads of all slices. -/
theorem composeOverlay_draws (timeline : Timeline τ) (access : MediaAccess)
    (settings : OutputFormat τ) (window : Window τ) (silentAudio : Bool) :
    GivesAtMost (composeOverlay timeline access settings window silentAudio) fun composition =>
      composition.inputs = (timeline.heard access window).2.inputs ∧
        composition.graph.Draws ((timeline.seen access window).1.map (·.pad "v") ++
          (timeline.heard access window).1.map (·.pad "a")) := by
  have draws := overlayGraph_draws settings window.duration silentAudio
    (timeline.seen access window).1 (timeline.heard access window).1
  rw [composeOverlay_eq]
  unfold Timeline.heard Timeline.seen at *
  dsimp only
  split
  · trivial
  · cases made : overlayGraph settings window.duration silentAudio _ _ with
    | error _ => trivial
    | ok graph =>
      rw [made] at draws
      exact ⟨rfl, draws⟩

/-- A concat composition has the gathered inputs, and of the sounds it reads the pads of what it
plays. -/
theorem composeConcat_draws (timeline : Timeline τ) (access : MediaAccess)
    (settings : OutputFormat τ) (window : Window τ) :
    GivesAtMost (composeConcat timeline access settings window) fun composition =>
      composition.inputs = (timeline.heard access window).2.inputs ∧
        composition.graph.Draws ((timeline.seen access window).1.map (·.pad "v") ++
          (Slice.playlist window.duration (timeline.heard access window).1).flatMap Piece.inputs) := by
  let tracks := timeline.layersFromBottom.map fun track =>
    track.slices access window (timeline.seen access window).2.inputs
  have gathered : gatherTracks access window timeline.layersFromBottom {} =
      (tracks.filter (!·.isEmpty), (timeline.seen access window).2) :=
    gatherTracks_eq (List.prefix_refl _)
  have seen : (timeline.seen access window).1 = (tracks.filter (!·.isEmpty)).flatten := by
    rw [List.flatten_filter_not_isEmpty, ← List.flatMap_def]
    exact Slice.gather_slices (List.prefix_refl _)
  have draws := concatGraph_draws settings window.duration (tracks.filter (!·.isEmpty))
    (timeline.heard access window).1
  rw [composeConcat_eq, gathered, seen]
  unfold Timeline.heard at *
  dsimp only
  split
  · trivial
  · cases made : concatGraph settings window.duration _ _ with
    | error _ => trivial
    | ok graph =>
      rw [made] at draws
      exact ⟨rfl, draws⟩

/-- An input of which no slice is seen and none is played has no reader. -/
theorem exists_unread (timeline : Timeline τ) (access : MediaAccess) (settings : OutputFormat τ)
    (window : Window τ) {input : InputFile} (long : ¬ window.duration ≤ Scalar.zero)
    (hinput : input ∈ (timeline.heard access window).2.inputs)
    (unread : ∀ stream ∈ ["v", "a"], toString input.index ++ ":" ++ stream ∉
      (timeline.seen access window).1.map (·.pad "v") ++
        (Slice.playlist window.duration (timeline.heard access window).1).flatMap Piece.inputs) :
    ∃ composition, composeConcat timeline access settings window = .ok composition ∧
      input ∈ composition.inputs ∧ ¬ composition.Reads input := by
  have yields := (composeConcat_yields timeline access settings window).and
    (composeConcat_draws timeline access settings window)
  obtain ⟨composition, composed, -, inputs, draws⟩ :=
    Gives.exists (yields.imp (fun _ h => long h.2) fun _ => id)
  refine ⟨composition, composed, inputs ▸ hinput, ?_⟩
  rintro ⟨stream, hstream, read⟩
  exact unread stream hstream ((draws _ _ (isInputPad_of_mem input.index hstream)).mp read)

end Compositions

/-- The slices of a window read inputs, and the sounds end at times in it. -/
theorem Timeline.heard_timed (timeline : Timeline Double) (access : MediaAccess)
    (window : Window Double) : ∀ slice ∈ (timeline.heard access window).1, slice.Timed := by
  intro slice hslice
  obtain ⟨clip, item, cut, hcut, stop⟩ := Slice.exists_cut_of_mem_gatherClips hslice
  have timed := Slice.timed_of_ofClip? hcut
  exact ⟨stop ▸ timed.number, stop ▸ timed.positive⟩

/-- An overlay composition reads all of its inputs. A concat composition reads an input if it is that of
a slice that is seen, or of one that is heard and lasts longer than those in front of it in the
sequence; so it has inputs without a reader. -/
theorem compose_reads (timeline : Timeline Double) (access : MediaAccess)
    (settings : OutputFormat Double) (window : Window Double) :
    (∀ silentAudio, Yields (composeOverlay timeline access settings window silentAudio)
      (fun failure => (failure = .nothingToRender ∧ window.duration ≤ Scalar.zero) ∨
        ∃ cause, failure = .number cause ∧ timeline.Endless window cause)
      fun composition => ∀ input ∈ composition.inputs, composition.Reads input) ∧
    Yields (composeConcat timeline access settings window)
      (fun failure => failure = .nothingToRender ∧ window.duration ≤ Scalar.zero)
      fun composition => ∀ input ∈ composition.inputs, composition.Reads input ↔
        (∃ slice ∈ (timeline.seen access window).1, slice.inputIndex = input.index) ∨
          ∃ slice : Slice Double, slice.Uncovered (timeline.heard access window).1 ∧
            slice.inputIndex = input.index := by
  obtain ⟨numbered, -, seen⟩ := Slice.gather_drawn access window false
    timeline.layersFromBottom Gathered.numbered_empty
  obtain ⟨-, -, heard⟩ := Slice.gather_drawn access window true timeline.heardTracks numbered
  constructor
  · intro silentAudio
    refine ((composeOverlay_yields timeline access settings window silentAudio).and
      (composeOverlay_draws timeline access settings window silentAudio)).imp (fun _ => id) ?_
    rintro composition ⟨-, inputs, draws⟩ input hinput
    rw [inputs] at hinput
    have pads (pad : String) :
        pad ∈ (timeline.seen access window).1.map (·.pad "v") ++
          (timeline.heard access window).1.map (·.pad "a") ↔
          (∃ slice, slice ∈ (timeline.seen access window).1 ∧ slice.pad "v" = pad) ∨
            ∃ slice, slice ∈ (timeline.heard access window).1 ∧ slice.pad "a" = pad := by
      rw [List.mem_append, List.mem_map, List.mem_map]
    rw [reads_iff draws pads (fun slice h => (seen slice h).wired) fun slice h => (heard slice h).wired]
    -- The input was there before the sounds, or it came with one of them.
    rcases Slice.gatherClips_inputs hinput with before | sound
    · exact .inl ((Slice.gatherClips_inputs before).resolve_left List.not_mem_nil)
    · exact .inr sound
  · refine ((composeConcat_yields timeline access settings window).and
      (composeConcat_draws timeline access settings window)).imp (fun _ => id) ?_
    rintro composition ⟨-, -, draws⟩ input -
    have played (slice : Slice Double) : Slice.Played (timeline.heard access window).1 slice ↔
        slice.Uncovered (timeline.heard access window).1 :=
      Slice.played_iff (timeline.heard_timed access window)
    have pads (pad : String) :
        pad ∈ (timeline.seen access window).1.map (·.pad "v") ++
          (Slice.playlist window.duration (timeline.heard access window).1).flatMap Piece.inputs ↔
          (∃ slice, slice ∈ (timeline.seen access window).1 ∧ slice.pad "v" = pad) ∨
            ∃ slice : Slice Double, slice.Uncovered (timeline.heard access window).1 ∧
              slice.pad "a" = pad := by
      rw [List.mem_append, List.mem_map, Slice.mem_inputs_playlist_iff]
      simp only [played]
    exact reads_iff draws pads (fun slice h => (seen slice h).wired)
      (fun slice h => (heard slice ((played slice).mpr h).mem).wired) input

namespace CoveredBell

def sound (mediaId : String) (start duration : Double)
    (times : (Scalar.zero : Double) ≤ start ∧ (Scalar.zero : Double) ≤ duration) : Clip Double where
  id := mediaId
  mediaId := some mediaId
  trackId := mediaId
  start
  duration
  mediaIn := Scalar.zero
  mediaOut := duration
  times_nonneg := ⟨times.1, times.2, Double.zero_le_zero, times.2⟩

/-- A song of ten seconds, and on another track a bell in the middle of it. -/
def timeline : Timeline Double where
  tracks := [
    { id := "song", kind := .audio, clips := [sound "song" 0 10 (by decide +kernel)], volume := 1 },
    { id := "bell", kind := .audio, clips := [sound "bell" 2 3 (by decide +kernel)], volume := 1 }]

def access : MediaAccess where
  media := [
    ("song", { id := "song", type := .audio, path := "song.wav" }),
    ("bell", { id := "bell", type := .audio, path := "bell.wav" })]
  useProxies := false
  pathExists _ := false

def window : Window Double := ⟨0, 10⟩

/-- The input that the bell becomes. -/
def input : InputFile := ⟨1, "bell", "bell.wav"⟩

end CoveredBell

open CoveredBell in
/-- The file of a bell that a song covers is opened for nothing. -/
theorem exists_idle_input : ∃ (timeline : Timeline Double) (access : MediaAccess)
    (window : Window Double) (composition : Composition Double),
    composeConcat timeline access {} window = .ok composition ∧
      ∃ input ∈ composition.inputs, ¬ composition.Reads input := by
  have length : ¬ window.duration ≤ Scalar.zero := by decide +kernel
  have sorted : (timeline.heard access window).1.Pairwise fun a b => (!Slice.before b a) = true := by
    decide +kernel
  have bell : input ∈ (timeline.heard access window).2.inputs ∧
      (timeline.seen access window).1 = [] ∧ ∀ stream ∈ ["v", "a"],
        toString input.index ++ ":" ++ stream ∉ (Slice.pieces (timeline.heard access window).1 Scalar.zero ++
          Slice.hush (window.duration -
            Slice.lastStop (timeline.heard access window).1 Scalar.zero)).flatMap Piece.inputs := by
    decide +kernel
  have inOrder := List.mergeSort_of_pairwise sorted
  obtain ⟨composition, composed, hinput, unread⟩ :=
    exists_unread timeline access {} window length bell.1 (by
      rw [bell.2.1, Slice.playlist, Slice.inSequence, inOrder, List.map_nil, List.nil_append]
      exact bell.2.2)
  exact ⟨timeline, access, window, composition, composed, _, hinput, unread⟩

end Montage
