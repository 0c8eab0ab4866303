import Mathlib.Data.List.Nodup
import Montage.Proofs.Filter.Labels
import Montage.Proofs.Lists

/-!
# Plumbing of filter graphs

Labels are loose ends until a stage reads them. Whoever adds a stage takes some loose ends, or reads
inputs of the encoder, and leaves one loose end, the label of the stage. So at any time each label
is either read once or loose, and a graph of which only the outputs are loose is well-formed.

## Main definitions

* `Yields` — what a computation fails with and what it returns
* `IsInputPad` — the pads of the inputs of the encoder
* `Filter.Takes` — filters that join pads are told how many there are
* `FilterGraph.Plumbed` — a graph in the making, with its loose ends
* `FilterGraph.WellFormed` — a graph that the encoder can build

## Main results

* `FilterGraph.Plumbed.add`, `FilterGraph.Plumbed.addFresh` — a stage takes loose ends and is one
* `FilterGraph.Plumbed.wellFormed` — outputs as the only loose ends
-/

namespace Montage

/-! ### Results -/

section Results

variable {ε ε' α β : Type} {result : Except ε α} {fails fails' : ε → Prop}
  {returns returns' : α → Prop}

/-- What fails does so in some way, and what returns gives something of some kind. -/
def Yields (result : Except ε α) (fails : ε → Prop) (returns : α → Prop) : Prop :=
  match result with
  | .ok a => returns a
  | .error cause => fails cause

/-- A computation that does not fail. -/
abbrev Gives (result : Except ε α) (returns : α → Prop) : Prop :=
  Yields result (fun _ => False) returns

theorem Yields.bind {next : α → Except ε β} {gives : β → Prop} (h : Yields result fails returns)
    (follows : ∀ a, returns a → Yields (next a) fails gives) :
    Yields (result >>= next) fails gives := by
  cases result with
  | ok a => exact follows a h
  | error cause => exact h

theorem Yields.imp (h : Yields result fails returns) (worse : ∀ cause, fails cause → fails' cause)
    (more : ∀ a, returns a → returns' a) : Yields result fails' returns' := by
  cases result with
  | ok a => exact more a h
  | error cause => exact worse cause h

theorem Gives.exists (h : Gives result returns) : ∃ a, result = .ok a ∧ returns a := by
  cases result with
  | ok a => exact ⟨a, rfl, h⟩
  | error cause => exact h.elim

theorem gives_of_eq {a : α} (same : result = .ok a) (h : returns a) : Gives result returns := by
  rw [same]
  exact h

end Results

/-! ### Pads -/

/-- The pad of the picture or the sound of one of some inputs. -/
def IsInputPad (count : Nat) (pad : String) : Prop :=
  ∃ n < count, pad = toString n ++ ":" ++ "v" ∨ pad = toString n ++ ":" ++ "a"

/-- The pad of an input is no word. -/
theorem IsInputPad.not_wordy {count : Nat} {pad : String} (h : IsInputPad count pad) :
    ¬ Wordy pad := by
  intro wordy
  obtain ⟨n, -, same⟩ := h
  obtain ⟨c, hc⟩ := List.exists_mem_of_ne_nil _ (Nat.toDigits_ne_nil (n := n) (b := 10))
  have inside : c ∈ pad.toList := by
    rcases same with rfl | rfl <;>
      simp [String.toList_append, hc]
  have := wordy c inside
  simp [isDigit_of_mem_toDigits hc] at this

/-- The pad of an input does not end in a number. -/
theorem IsInputPad.ne_numbered {count : Nat} {pad : String} (h : IsInputPad count pad)
    (stem : String) (m : Nat) : pad ≠ stem ++ toString m := by
  rintro rfl
  obtain ⟨n, -, same⟩ := h
  have digit : ∃ c, (stem ++ toString m).toList.getLast? = some c ∧ c.isDigit = true := by
    rw [toList_numbered, List.getLast?_append_of_ne_nil _ Nat.toDigits_ne_nil]
    refine ⟨_, List.getLast?_eq_some_getLast Nat.toDigits_ne_nil, ?_⟩
    exact isDigit_of_mem_toDigits (List.getLast_mem Nat.toDigits_ne_nil)
  obtain ⟨c, last, digit⟩ := digit
  rcases same with same | same
  all_goals
    rw [same, String.toList_append, List.getLast?_append_of_ne_nil _ (by decide)] at last
    obtain rfl := Option.some.inj last
    exact absurd digit (by decide)

/-- A filter that joins pads is told how many it takes in. -/
structure Filter.Takes {τ : Type} (filter : Filter τ) (width : Nat) : Prop where
  overlay : filter.name = "overlay" → width = 2
  concat : filter.name = "concat" → filter.option? "n" = some (.int width)
  amix : filter.name = "amix" → filter.option? "inputs" = some (.int width)

/-- A filter that joins no pads. -/
def Filter.Plain {τ : Type} (filter : Filter τ) : Prop :=
  filter.name ∉ ["overlay", "concat", "amix"]

theorem Filter.Plain.takes {τ : Type} {filter : Filter τ} (h : filter.Plain) (width : Nat) :
    filter.Takes width := by
  simp only [Plain, List.mem_cons, List.not_mem_nil, or_false, not_or] at h
  exact ⟨fun name => absurd name h.1, fun name => absurd name h.2.1, fun name => absurd name h.2.2⟩

namespace FilterGraph

variable {τ : Type} {graph after : FilterGraph τ} {count : Nat}
  {names loose rest inputs outputs : List String} {filters : List (Filter τ)} {label stem : String}

/-- The labels of the stages. -/
def labels (graph : FilterGraph τ) : List String := graph.stages.map (·.output)

/-- The pads that stages read. -/
def reads (graph : FilterGraph τ) : List String := graph.stages.flatMap (·.inputs)

/-- Every stage reads pads of inputs and labels of stages in front of it. -/
def InOrder (graph : FilterGraph τ) (count : Nat) : Prop :=
  ∀ before stage behind, graph.stages = before ++ stage :: behind →
    ∀ pad ∈ stage.inputs, IsInputPad count pad ∨ ∃ earlier ∈ before, earlier.output = pad

/-- A graph that reads so many inputs and of which some labels leave it. -/
structure WellFormed (graph : FilterGraph τ) (count : Nat) (outputs : List String) : Prop where
  distinct : graph.labels.Nodup
  inOrder : graph.InOrder count
  used : ∀ label ∈ graph.labels, label ∉ outputs → graph.reads.count label = 1
  leaves : ∀ label ∈ outputs, graph.labels.count label = 1 ∧ label ∉ graph.reads
  widths : ∀ stage ∈ graph.stages, ∀ filter ∈ stage.filters, filter.Takes stage.inputs.length

/-- A graph in the making. Each label is read once or is a loose end. -/
structure Plumbed (graph : FilterGraph τ) (count : Nat) (names loose : List String) : Prop where
  tidy : graph.Tidy names
  distinct : graph.labels.Nodup
  inOrder : graph.InOrder count
  balanced : ∀ label ∈ graph.labels, graph.reads.count label + loose.count label = 1
  within : loose ⊆ graph.labels
  widths : ∀ stage ∈ graph.stages, ∀ filter ∈ stage.filters, filter.Takes stage.inputs.length

/-- What a stage reads, pads of inputs or loose ends, and which ends it leaves loose. -/
inductive Feeds (count : Nat) (loose : List String) : List String → List String → Prop where
  | pads {inputs : List String} :
      (∀ pad ∈ inputs, IsInputPad count pad) → Feeds count loose inputs loose
  | labels {inputs rest : List String} :
      loose.Perm (inputs ++ rest) → Feeds count loose inputs rest

namespace Feeds

theorem provided (feeds : Feeds count loose inputs rest) :
    ∀ pad ∈ inputs, IsInputPad count pad ∨ pad ∈ loose := by
  intro pad h
  cases feeds with
  | pads pads => exact .inl (pads pad h)
  | labels same => exact .inr (same.mem_iff.mpr (List.mem_append_left _ h))

theorem subset (feeds : Feeds count loose inputs rest) : rest ⊆ loose := by
  cases feeds with
  | pads _ => exact List.Subset.refl loose
  | labels same => exact fun pad h => same.mem_iff.mpr (List.mem_append_right _ h)

/-- A loose end that is read is not loose any more. -/
theorem count_add_count (feeds : Feeds count loose inputs rest) (inner : ¬ IsInputPad count label) :
    inputs.count label + rest.count label = loose.count label := by
  cases feeds with
  | pads pads =>
    have apart : label ∉ inputs := fun h => inner (pads label h)
    rw [List.count_eq_zero_of_not_mem apart, Nat.zero_add]
  | labels same => rw [same.count_eq, List.count_append]

end Feeds

theorem plumbed_empty (count : Nat) : ({} : FilterGraph τ).Plumbed count [] [] :=
  ⟨tidy_empty, .nil, by simp [InOrder], by simp [labels], by simp, by simp⟩

/-- A label is no pad of an input. -/
theorem Tidy.not_isInputPad (tidy : graph.Tidy names) (h : label ∈ graph.labels) :
    ¬ IsInputPad count label := by
  intro pad
  obtain ⟨stage, hstage, rfl⟩ := List.mem_map.mp h
  rcases tidy.labels stage hstage with used | ⟨stem, n, -, -, numbered⟩
  · exact pad.not_wordy (tidy.words _ used)
  · exact pad.ne_numbered stem n numbered

namespace Plumbed

theorem perm (plumbed : graph.Plumbed count names loose) (same : loose.Perm rest) :
    graph.Plumbed count names rest where
  tidy := plumbed.tidy
  distinct := plumbed.distinct
  inOrder := plumbed.inOrder
  balanced label h := by rw [← same.count_eq]; exact plumbed.balanced label h
  within := fun _ h => plumbed.within (same.mem_iff.mpr h)
  widths := plumbed.widths

/-- What is read is the pad of an input or a label. -/
theorem mem_reads (plumbed : graph.Plumbed count names loose) {pad : String}
    (h : pad ∈ graph.reads) : IsInputPad count pad ∨ pad ∈ graph.labels := by
  obtain ⟨stage, hstage, hpad⟩ := List.mem_flatMap.mp h
  obtain ⟨before, behind, whole⟩ := List.append_of_mem hstage
  refine (plumbed.inOrder before stage behind whole pad hpad).imp_right ?_
  rintro ⟨earlier, hearlier, rfl⟩
  exact List.mem_map_of_mem (whole ▸ List.mem_append_left _ hearlier)

/-- A stage at the end takes the loose ends that it reads, and is one. -/
theorem append {names' : List String} (plumbed : graph.Plumbed count names loose)
    (feeds : Feeds count loose inputs rest) (tidy : after.Tidy names')
    (stages : after.stages = graph.stages ++ [⟨inputs, filters, label⟩])
    (new : label ∉ graph.labels) (takes : ∀ filter ∈ filters, filter.Takes inputs.length) :
    after.Plumbed count names' (label :: rest) := by
  have labels : after.labels = graph.labels ++ [label] := by
    rw [FilterGraph.labels, stages, List.map_append]
    rfl
  have reads : after.reads = graph.reads ++ inputs := by
    rw [FilterGraph.reads, stages, List.flatMap_append]
    simp [FilterGraph.reads]
  have known : ∀ pad ∈ inputs, IsInputPad count pad ∨ pad ∈ graph.labels := fun pad h =>
    (feeds.provided pad h).imp_right (plumbed.within ·)
  have kept : rest ⊆ graph.labels := List.Subset.trans feeds.subset plumbed.within
  have last : label ∈ after.labels := by simp [labels]
  -- Nothing has read the new label, as it is no pad of an input either.
  have unread : label ∉ graph.reads ++ inputs := by
    intro h
    have h := (List.mem_append.mp h).elim plumbed.mem_reads (known label)
    exact h.elim (tidy.not_isInputPad last) new
  constructor
  case tidy => exact tidy
  case distinct =>
    rw [labels, List.nodup_append]
    refine ⟨plumbed.distinct, List.nodup_singleton _, fun other hother _ h => ?_⟩
    rintro rfl
    exact new (List.mem_singleton.mp h ▸ hother)
  case inOrder =>
    intro before stage behind whole pad hpad
    rw [stages] at whole
    rcases split_of_append_singleton whole with ⟨-, rfl, rfl⟩ | ⟨others, -, whole⟩
    · exact (known pad hpad).imp_right List.mem_map.mp
    · exact plumbed.inOrder before stage others whole pad hpad
  case balanced =>
    intro other hother
    rw [reads, List.count_append, List.count_cons]
    rw [labels, List.mem_append, List.mem_singleton] at hother
    rcases hother with hother | rfl
    · have differ : (label == other) = false := beq_false_of_ne fun same => new (same ▸ hother)
      have balance := plumbed.balanced other hother
      have share := feeds.count_add_count (plumbed.tidy.not_isInputPad hother)
      rw [differ, if_neg Bool.false_ne_true]
      omega
    · have unread := List.count_eq_zero_of_not_mem unread
      rw [List.count_append] at unread
      have fresh : rest.count other = 0 :=
        List.count_eq_zero_of_not_mem fun h => new (kept h)
      rw [beq_self_eq_true, if_pos rfl]
      omega
  case within =>
    rw [labels]
    intro other h
    rcases List.mem_cons.mp h with rfl | h
    · simp
    · exact List.mem_append_left _ (kept h)
  case widths =>
    intro stage hstage
    rw [stages] at hstage
    rcases List.mem_append.mp hstage with hstage | hstage
    · exact plumbed.widths stage hstage
    · obtain rfl := List.mem_singleton.mp hstage
      exact takes

end Plumbed

/-- A stage that was added is the last one, under a label that was not in use. -/
theorem stages_of_add (added : graph.add inputs filters label = .ok after) :
    after.stages = graph.stages ++ [⟨inputs, filters, label⟩] ∧ label ∉ graph.labels := by
  unfold add at added
  split at added
  · exact absurd added (by simp)
  · split at added
    · exact absurd added (by simp)
    · next free =>
      obtain rfl := Except.ok.inj added
      refine ⟨rfl, fun h => free ?_⟩
      obtain ⟨stage, hstage, same⟩ := List.mem_map.mp h
      exact List.find?_isSome.mpr ⟨stage, hstage, by simpa using same⟩

/-- A stage under a word that is not in use. -/
theorem Tidy.gives_add (tidy : graph.Tidy names) (wordy : Wordy label) (unused : label ∉ names)
    (inputs : List String) (filled : filters ≠ []) :
    Gives (graph.add inputs filters label) fun after =>
      after.Tidy (label :: names) ∧ graph.Extends after ∧
        after.stageProducing? label = some ⟨inputs, filters, label⟩ := by
  obtain ⟨after, added, h⟩ := tidy.add wordy unused inputs filled
  exact gives_of_eq added h

/-- A stage under a number that was not given out. -/
theorem Tidy.gives_fresh (tidy : graph.Tidy names) (wordy : Wordy stem) (inputs : List String)
    (filled : filters ≠ []) :
    Gives ((graph.freshLabel stem).2.add inputs filters (graph.freshLabel stem).1) fun after =>
      after.Tidy names ∧ graph.Extends after ∧
        after.stageProducing? (graph.freshLabel stem).1 =
          some ⟨inputs, filters, (graph.freshLabel stem).1⟩ := by
  obtain ⟨after, added, h⟩ := tidy.addFresh wordy inputs filled
  exact gives_of_eq added h

namespace Plumbed

/-- A stage under a word takes the loose ends that it reads. -/
theorem add (plumbed : graph.Plumbed count names loose) (wordy : Wordy label)
    (unused : label ∉ names) (feeds : Feeds count loose inputs rest) (filled : filters ≠ [])
    (takes : ∀ filter ∈ filters, filter.Takes inputs.length) :
    Gives (graph.add inputs filters label) fun after =>
      after.Plumbed count (label :: names) (label :: rest) := by
  obtain ⟨after, added, tidy, -⟩ := plumbed.tidy.add wordy unused inputs filled
  obtain ⟨stages, new⟩ := stages_of_add added
  exact gives_of_eq added (plumbed.append feeds tidy stages new takes)

/-- A stage under a number takes the loose ends that it reads. -/
theorem addFresh (plumbed : graph.Plumbed count names loose) (wordy : Wordy stem)
    (feeds : Feeds count loose inputs rest) (filled : filters ≠ [])
    (takes : ∀ filter ∈ filters, filter.Takes inputs.length) :
    Gives ((graph.freshLabel stem).2.add inputs filters (graph.freshLabel stem).1) fun after =>
      after.Plumbed count names ((graph.freshLabel stem).1 :: rest) := by
  obtain ⟨after, added, tidy, -⟩ := plumbed.tidy.addFresh wordy inputs filled
  obtain ⟨stages, new⟩ := stages_of_add added
  exact gives_of_eq added (plumbed.append feeds tidy stages new takes)

/-- A graph of which only the outputs are loose. -/
theorem wellFormed (plumbed : graph.Plumbed count names outputs) :
    graph.WellFormed count outputs where
  distinct := plumbed.distinct
  inOrder := plumbed.inOrder
  used label h inside := by
    have balance := plumbed.balanced label h
    rwa [List.count_eq_zero_of_not_mem inside] at balance
  leaves label h := by
    have made := plumbed.within h
    have balance := plumbed.balanced label made
    have out := List.count_pos_iff.mpr h
    refine ⟨List.count_eq_one_of_mem plumbed.distinct made, fun read => ?_⟩
    have := List.count_pos_iff.mpr read
    omega
  widths := plumbed.widths

end Plumbed

end FilterGraph

end Montage
