import Mathlib.Data.List.Forall2
import Montage.Compose.Audio
import Montage.Proofs.Filter.Plumbing

/-!
# Sequences of sounds

The sequence of some slices is made of pieces, which are played one after another: what is left of a
slice, or silence. Making a sequence comes down to adding a stage for each piece and joining them.

## Main definitions

* `Piece` — what a sequence plays next
* `Slice.playlist` — the pieces of a sequence
* `addPieces`, `joint` — a stage for each piece, and the filters that join them

## Main results

* `addAudioSequence_eq` — a sequence is made by joining its pieces
* `addAudioSequence_adds` — a sequence can always be made
-/

namespace Montage

variable {τ : Type} [Scalar τ]

/-- What a sequence plays next. -/
inductive Piece (τ : Type) [Scalar τ] where
  | silence (length : τ)
  | sound (slice : Slice τ)

namespace Piece

def stem : Piece τ → String
  | .silence _ => "asil"
  | .sound _ => "aseg"

def inputs : Piece τ → List String
  | .silence _ => []
  | .sound slice => [slice.pad "a"]

def filters (settings : OutputFormat τ) : Piece τ → List (Filter τ)
  | .silence length => silenceFilters settings length
  | .sound slice => slice.audioFilters settings

theorem wordy_stem (piece : Piece τ) : Wordy piece.stem := by
  cases piece with
  | silence _ => exact (by decide : Wordy "asil")
  | sound _ => exact (by decide : Wordy "aseg")

theorem filters_ne_nil (settings : OutputFormat τ) (piece : Piece τ) :
    piece.filters settings ≠ [] := by
  cases piece <;> simp [filters, silenceFilters, Slice.audioFilters]

end Piece

namespace Slice

@[simp] theorem startingAt_localStop (slice : Slice τ) (cursor : τ) :
    (slice.startingAt cursor).localStop = slice.localStop := by
  unfold startingAt
  split <;> rfl

@[simp] theorem startingAt_inputIndex (slice : Slice τ) (cursor : τ) :
    (slice.startingAt cursor).inputIndex = slice.inputIndex := by
  unfold startingAt
  split <;> rfl

/-- Silence for a gap, if there is one. -/
def hush (gap : τ) : List (Piece τ) := if Scalar.zero < gap then [.silence gap] else []

/-- The pieces of a sequence from a time on, for slices in order. -/
def pieces : List (Slice τ) → τ → List (Piece τ)
  | [], _ => []
  | slice :: rest, cursor =>
    if slice.localStop ≤ cursor then pieces rest cursor
    else hush ((slice.startingAt cursor).localStart - cursor) ++
      .sound (slice.startingAt cursor) :: pieces rest slice.localStop

/-- Where these pieces end. -/
def lastStop : List (Slice τ) → τ → τ
  | [], cursor => cursor
  | slice :: rest, cursor =>
    if slice.localStop ≤ cursor then lastStop rest cursor else lastStop rest slice.localStop

/-- The pieces of the sequence of slices that fills a window. -/
def playlist (duration : τ) (slices : List (Slice τ)) : List (Piece τ) :=
  pieces (inSequence slices) Scalar.zero ++
    hush (duration - lastStop (inSequence slices) Scalar.zero)

theorem not_sound_mem_hush {slice : Slice τ} {gap : τ} : .sound slice ∉ hush gap := by
  unfold hush
  split <;> simp

theorem exists_of_sound_mem_pieces {slices : List (Slice τ)} {cursor : τ} {part : Slice τ}
    (h : .sound part ∈ pieces slices cursor) :
    ∃ slice ∈ slices, ∃ cursor, part = slice.startingAt cursor := by
  induction slices generalizing cursor with
  | nil => exact absurd h List.not_mem_nil
  | cons slice rest ih =>
    have later {cursor : τ} (h : .sound part ∈ pieces rest cursor) :
        ∃ other ∈ slice :: rest, ∃ cursor, part = other.startingAt cursor := by
      obtain ⟨other, hother, found⟩ := ih h
      exact ⟨other, List.mem_cons_of_mem _ hother, found⟩
    rw [pieces] at h
    split at h
    · exact later h
    · rcases List.mem_append.mp h with h | h
      · exact absurd h not_sound_mem_hush
      · rcases List.mem_cons.mp h with same | h
        · exact ⟨slice, List.mem_cons_self, cursor, Piece.sound.inj same⟩
        · exact later h

/-- What is heard of a sequence is heard of its slices. -/
theorem exists_of_sound_mem_playlist {duration : τ} {slices : List (Slice τ)} {part : Slice τ}
    (h : .sound part ∈ playlist duration slices) :
    ∃ slice ∈ slices, ∃ cursor, part = slice.startingAt cursor := by
  rcases List.mem_append.mp h with h | h
  · obtain ⟨slice, hslice, found⟩ := exists_of_sound_mem_pieces h
    exact ⟨slice, List.mem_mergeSort.mp hslice, found⟩
  · exact absurd h not_sound_mem_hush

end Slice

/-- A stage under a fresh label for each piece. -/
def addPieces (settings : OutputFormat τ) :
    List (Piece τ) → FilterGraph τ → Except GraphError (List String × FilterGraph τ)
  | [], graph => return ([], graph)
  | piece :: rest, graph => do
    let (label, graph) := graph.freshLabel piece.stem
    let graph ← graph.add piece.inputs (piece.filters settings) label
    let (labels, graph) ← addPieces settings rest graph
    return (label :: labels, graph)

/-- The filters that make one sound of those under some labels; of none it is silence. -/
def joint (settings : OutputFormat τ) (duration : τ) : List String → List (Filter τ)
  | [] => silenceFilters settings duration
  | [_] => [.withValues "anull" []]
  | labels => [.withOptions "concat" [("n", .int labels.length), ("v", .int 0), ("a", .int 1)]]

variable {graph : FilterGraph τ} {names : List String}

/-! ### Pieces -/

theorem addPieces_append (settings : OutputFormat τ) (before behind : List (Piece τ))
    (graph : FilterGraph τ) : addPieces settings (before ++ behind) graph = (do
      let (labels, graph) ← addPieces settings before graph
      let (others, graph) ← addPieces settings behind graph
      return (labels ++ others, graph)) := by
  induction before generalizing graph with
  | nil => simp [addPieces]
  | cons piece rest ih => simp [addPieces, ih, bind_assoc]

theorem addPieces_hush_of_lt (settings : OutputFormat τ) {gap : τ} (wide : Scalar.zero < gap)
    (graph : FilterGraph τ) : addPieces settings (Slice.hush gap) graph = (do
      let (label, graph) ← addSilence settings gap graph
      return ([label], graph)) := by
  rw [Slice.hush, if_pos wide]
  simp [addSilence, addPieces, Piece.stem, Piece.inputs, Piece.filters]

theorem addPieces_hush_of_not_lt (settings : OutputFormat τ) {gap : τ}
    (none : ¬ Scalar.zero < gap) (graph : FilterGraph τ) :
    addPieces settings (Slice.hush gap) graph = pure ([], graph) := by
  rw [Slice.hush, if_neg none]
  rfl

/-- The segments of a sequence are its pieces. -/
theorem addSequenceSegments_eq (settings : OutputFormat τ) (slices : List (Slice τ)) (cursor : τ)
    (graph : FilterGraph τ) : addSequenceSegments settings slices cursor graph = (do
      let (labels, graph) ← addPieces settings (Slice.pieces slices cursor) graph
      return (labels, Slice.lastStop slices cursor, graph)) := by
  induction slices generalizing graph cursor with
  | nil => rfl
  | cons slice rest ih =>
    rw [addSequenceSegments, Slice.pieces, Slice.lastStop]
    by_cases past : slice.localStop ≤ cursor
    · rw [if_pos past, if_pos past, if_pos past, ih]
    · rw [if_neg past, if_neg past, if_neg past, addPieces_append]
      dsimp only
      by_cases wide : Scalar.zero < (slice.startingAt cursor).localStart - cursor
      · rw [if_pos wide, addPieces_hush_of_lt settings wide]
        simp [addPieces, ih, Piece.stem, Piece.inputs, Piece.filters]
      · rw [if_neg wide, addPieces_hush_of_not_lt settings wide]
        simp [addPieces, ih, Piece.stem, Piece.inputs, Piece.filters]

/-- A sequence is made by joining its pieces. -/
theorem addAudioSequence_eq (settings : OutputFormat τ) (duration : τ) (slices : List (Slice τ))
    (graph : FilterGraph τ) : addAudioSequence settings duration slices graph = (do
      let (labels, graph) ← addPieces settings (Slice.playlist duration slices) graph
      return (audioLabel, ← graph.add labels (joint settings duration labels) audioLabel)) := by
  unfold addAudioSequence Slice.playlist
  rw [addSequenceSegments_eq, addPieces_append]
  by_cases wide : Scalar.zero < duration - Slice.lastStop (Slice.inSequence slices) Scalar.zero
  · simp only [bind_assoc, pure_bind, if_pos wide, addPieces_hush_of_lt settings wide]
    refine bind_congr fun heard => bind_congr fun hushed => ?_
    rcases heard.1 ++ [hushed.1] with _ | ⟨segment, _ | ⟨next, rest⟩⟩ <;> rfl
  · simp only [bind_assoc, pure_bind, if_neg wide, addPieces_hush_of_not_lt settings wide]
    refine bind_congr fun heard => ?_
    rcases heard.1 ++ [] with _ | ⟨segment, _ | ⟨next, rest⟩⟩ <;> rfl

/-- Each piece gets a stage, whatever it is. -/
theorem addPieces_adds (settings : OutputFormat τ) (pieces : List (Piece τ))
    (tidy : graph.Tidy names) :
    ∃ labels after, addPieces settings pieces graph = .ok (labels, after) ∧ after.Tidy names ∧
      graph.Extends after ∧
      List.Forall₂ (fun label (piece : Piece τ) => after.stageProducing? label =
        some ⟨piece.inputs, piece.filters settings, label⟩) labels pieces := by
  induction pieces generalizing graph with
  | nil => exact ⟨[], graph, rfl, tidy, .refl graph, .nil⟩
  | cons piece rest ih =>
    obtain ⟨placed, added, tidy, grows, made⟩ :=
      tidy.addFresh piece.wordy_stem piece.inputs (piece.filters_ne_nil settings)
    obtain ⟨labels, after, done, tidy, grows', stages⟩ := ih tidy
    refine ⟨(graph.freshLabel piece.stem).1 :: labels, after, ?_, tidy, grows.trans grows',
      .cons (grows' _ _ made) stages⟩
    rw [addPieces]
    dsimp only [bind, Except.bind]
    rw [added]
    dsimp only
    rw [done]
    rfl

omit [Scalar τ] in
theorem joint_ne_nil (settings : OutputFormat τ) (duration : τ) (labels : List String) :
    joint settings duration labels ≠ [] := by
  rcases labels with _ | ⟨label, _ | ⟨next, rest⟩⟩ <;> simp [joint, silenceFilters]

/-- The sequence of some slices can be added, under a word that is not in use: it joins the stages
of its pieces. -/
theorem addAudioSequence_adds (settings : OutputFormat τ) (duration : τ) (slices : List (Slice τ))
    (tidy : graph.Tidy names) (unused : audioLabel ∉ names) :
    ∃ labels after, addAudioSequence settings duration slices graph = .ok (audioLabel, after) ∧
      graph.Extends after ∧ after.stageProducing? audioLabel =
        some ⟨labels, joint settings duration labels, audioLabel⟩ ∧
      List.Forall₂ (fun label (piece : Piece τ) => after.stageProducing? label =
        some ⟨piece.inputs, piece.filters settings, label⟩) labels
        (Slice.playlist duration slices) := by
  obtain ⟨labels, placed, done, tidy, grows, stages⟩ :=
    addPieces_adds settings (Slice.playlist duration slices) tidy
  obtain ⟨after, added, -, grows', made⟩ := tidy.add (by decide : Wordy audioLabel) unused labels
    (joint_ne_nil settings duration labels)
  refine ⟨labels, after, ?_, grows.trans grows', made, stages.imp fun _ _ => grows' _ _⟩
  rw [addAudioSequence_eq, done]
  change (do return (audioLabel, ← placed.add labels _ audioLabel)) = _
  rw [added]
  rfl

end Montage
