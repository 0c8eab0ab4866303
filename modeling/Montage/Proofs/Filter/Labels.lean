import Mathlib.Data.List.Basic
import Mathlib.Data.List.Nodup
import Montage.Filter.Graph

/-!
# Labels of filter graphs

A label is a word, or a word and a number that was not given to it before. So a stage can always be
added under a fresh label, or under a word that is not in use, and what was read from a graph can be
read from it after stages were added.

Nothing stands between a stem and the number behind it. A stem that ends in digits can be taken for a
shorter one with a longer number, and then one label is given out twice; it is not given out twice in
any other way.

## Main definitions

* `Wordy` — a label without digits
* `FilterGraph.Tidy` — every stage is under a word in use, or under a number given out
* `FilterGraph.Extends` — what one graph makes under a label another makes, too
* `FilterGraph.allocated` — the labels that a graph gives out while it is used

## Main results

* `FilterGraph.Tidy.add`, `FilterGraph.Tidy.addFresh` — stages can be added
* `FilterGraph.allocated_nodup_of_wordy` — labels that are given out under words are different
* `FilterGraph.allocated_nodup_iff` — when labels that are given out are different
-/

namespace Montage

variable {τ : Type}

/-- A label without digits. -/
def Wordy (label : String) : Prop := ∀ c ∈ label.toList, c.isDigit = false

instance (label : String) : Decidable (Wordy label) :=
  decidable_of_iff (label.toList.all (!·.isDigit) = true) (by simp [Wordy])

theorem toList_numbered (stem : String) (n : Nat) :
    (stem ++ toString n).toList = stem.toList ++ Nat.toDigits 10 n := by
  rw [String.toList_append, Nat.toString_eq_ofList_toDigits, String.toList_ofList]

/-- A number has digits only. -/
theorem isDigit_of_mem_toDigits {n : Nat} {c : Char} (h : c ∈ Nat.toDigits 10 n) :
    c.isDigit = true := Nat.isDigit_of_mem_toDigits (by decide) (by decide) h

theorem not_wordy_numbered (stem : String) (n : Nat) : ¬ Wordy (stem ++ toString n) := by
  intro wordy
  obtain ⟨c, hc⟩ := List.exists_mem_of_ne_nil _ (Nat.toDigits_ne_nil (n := n) (b := 10))
  have := wordy c (by rw [toList_numbered]; exact List.mem_append_right _ hc)
  simp [isDigit_of_mem_toDigits hc] at this

theorem number_inj {n m : Nat} (same : toString n = toString m) : n = m := by
  have digits := congrArg String.toList same
  rw [Nat.toString_eq_ofList_toDigits, Nat.toString_eq_ofList_toDigits, String.toList_ofList,
    String.toList_ofList] at digits
  rw [← Nat.ofDigitChars_ten_toDigits (n := n), digits, Nat.ofDigitChars_ten_toDigits]

/-- A number behind a word can be told from the word. -/
theorem numbered_inj {stem stem' : String} {n m : Nat} (wordy : Wordy stem) (wordy' : Wordy stem')
    (same : stem ++ toString n = stem' ++ toString m) : stem = stem' ∧ n = m := by
  have word {s : String} (wordy : Wordy s) (k : Nat) :
      (s ++ toString k).toList.takeWhile (!·.isDigit) = s.toList := by
    rw [toList_numbered, List.takeWhile_append_of_pos fun c hc => by simp [wordy c hc]]
    have none : (Nat.toDigits 10 k).takeWhile (!·.isDigit) = [] := by
      cases digits : Nat.toDigits 10 k with
      | nil => rfl
      | cons c rest =>
        have : c.isDigit = true := isDigit_of_mem_toDigits (digits ▸ List.mem_cons_self)
        simp [this]
    rw [none, List.append_nil]
  have stems : stem = stem' := by
    rw [← String.toList_inj, ← word wordy n, ← word wordy' m, same]
  subst stems
  exact ⟨rfl, number_inj (String.append_right_inj stem |>.mp same)⟩

/-- The label of a number under a stem is that of another one if the one stem goes on where the other
one's number begins. -/
theorem numbered_eq_iff {stem stem' : String} {n m : Nat} :
    stem ++ toString n = stem' ++ toString m ↔
      (∃ tail, stem' = stem ++ tail ∧ toString n = tail ++ toString m) ∨
        ∃ tail, stem = stem' ++ tail ∧ toString m = tail ++ toString n := by
  constructor
  · intro same
    have same := congrArg String.toList same
    rw [String.toList_append, String.toList_append] at same
    rcases List.append_eq_append_iff.mp same with ⟨tail, longer, number⟩ | ⟨tail, longer, number⟩
    · refine .inl ⟨String.ofList tail, ?_, ?_⟩
      · rw [← String.toList_inj, String.toList_append, String.toList_ofList, longer]
      · rw [← String.toList_inj, String.toList_append, String.toList_ofList, number]
    · refine .inr ⟨String.ofList tail, ?_, ?_⟩
      · rw [← String.toList_inj, String.toList_append, String.toList_ofList, longer]
      · rw [← String.toList_inj, String.toList_append, String.toList_ofList, number]
  · rintro (⟨tail, rfl, number⟩ | ⟨tail, rfl, number⟩)
    · rw [number, String.append_assoc]
    · rw [number, String.append_assoc]

namespace FilterGraph

variable {graph after last : FilterGraph τ} {names : List String} {label stem : String}
  {inputs : List String} {filters : List (Filter τ)}

/-- Every stage is under a word in use, or under a number that was given out. -/
structure Tidy (graph : FilterGraph τ) (names : List String) : Prop where
  words : ∀ name ∈ names, Wordy name
  labels : ∀ stage ∈ graph.stages, stage.output ∈ names ∨
    ∃ stem n, Wordy stem ∧ n < graph.issued stem ∧ stage.output = stem ++ toString n

/-- What one graph makes under a label, another makes, too. -/
def Extends (graph after : FilterGraph τ) : Prop :=
  ∀ label stage, graph.stageProducing? label = some stage →
    after.stageProducing? label = some stage

protected theorem Extends.refl (graph : FilterGraph τ) : graph.Extends graph := fun _ _ h => h

protected theorem Extends.trans (h : graph.Extends after) (h' : after.Extends last) :
    graph.Extends last := fun label stage found => h' label stage (h label stage found)

theorem tidy_empty : ({} : FilterGraph τ).Tidy [] := ⟨by simp, by simp⟩

/-- A stage under a label that is not in use. -/
theorem add_unused (unused : graph.stageProducing? label = none) (filled : filters ≠ []) :
    ∃ after, graph.add inputs filters label = .ok after ∧
      after = { graph with stages := graph.stages ++ [⟨inputs, filters, label⟩] } ∧
      graph.Extends after ∧ after.stageProducing? label = some ⟨inputs, filters, label⟩ := by
  refine ⟨_, ?_, rfl, fun other stage found => ?_, ?_⟩
  · rw [add, if_neg (by simpa using filled), if_neg (by simp [unused])]
  · unfold stageProducing? at found ⊢
    rw [List.find?_append, found]
    rfl
  · unfold stageProducing? at unused ⊢
    rw [List.find?_append, unused]
    simp

/-- A word that is not in use. -/
theorem Tidy.add (tidy : graph.Tidy names) (wordy : Wordy label) (unused : label ∉ names)
    (inputs : List String) (filled : filters ≠ []) :
    ∃ after, graph.add inputs filters label = .ok after ∧ after.Tidy (label :: names) ∧
      graph.Extends after ∧ after.stageProducing? label = some ⟨inputs, filters, label⟩ := by
  have free : graph.stageProducing? label = none := by
    refine List.find?_eq_none.mpr fun stage hstage same => ?_
    have same : stage.output = label := by simpa using same
    rcases tidy.labels stage hstage with used | ⟨stem, n, -, -, numbered⟩
    · exact unused (same ▸ used)
    · exact not_wordy_numbered stem n (numbered ▸ same ▸ wordy)
  obtain ⟨after, added, rfl, extends', made⟩ := add_unused free filled
  refine ⟨_, added, ⟨?_, fun stage hstage => ?_⟩, extends', made⟩
  · simpa [wordy] using tidy.words
  · rcases List.mem_append.mp hstage with hstage | hstage
    · exact (tidy.labels stage hstage).imp_left (List.mem_cons_of_mem _)
    · obtain rfl := List.mem_singleton.mp hstage
      exact .inl List.mem_cons_self

/-- A number that was not given out. -/
theorem Tidy.addFresh (tidy : graph.Tidy names) (wordy : Wordy stem) (inputs : List String)
    (filled : filters ≠ []) :
    ∃ after, (graph.freshLabel stem).2.add inputs filters (graph.freshLabel stem).1 = .ok after ∧
      after.Tidy names ∧ graph.Extends after ∧
      after.stageProducing? (graph.freshLabel stem).1 =
        some ⟨inputs, filters, (graph.freshLabel stem).1⟩ := by
  have free : (graph.freshLabel stem).2.stageProducing? (graph.freshLabel stem).1 = none := by
    refine List.find?_eq_none.mpr fun stage hstage same => ?_
    have same : stage.output = stem ++ toString (graph.issued stem) := of_decide_eq_true same
    rcases tidy.labels stage hstage with used | ⟨stem', n, wordy', issued, numbered⟩
    · exact not_wordy_numbered _ _ (same ▸ tidy.words _ used)
    · obtain ⟨rfl, rfl⟩ := numbered_inj wordy wordy' (same.symm.trans numbered)
      exact Nat.lt_irrefl _ issued
  obtain ⟨after, added, rfl, extends', made⟩ := add_unused free filled
  refine ⟨_, added, ⟨tidy.words, fun stage hstage => ?_⟩, extends', made⟩
  rcases List.mem_append.mp hstage with hstage | hstage
  · refine (tidy.labels stage hstage).imp_right ?_
    rintro ⟨stem', n, wordy', issued, numbered⟩
    refine ⟨stem', n, wordy', ?_, numbered⟩
    change n < if stem' = stem then graph.issued stem' + 1 else graph.issued stem'
    split <;> omega
  · obtain rfl := List.mem_singleton.mp hstage
    refine .inr ⟨stem, graph.issued stem, wordy, ?_, rfl⟩
    simp [freshLabel]

/-! ### Labels that are given out -/

/-- A use of a graph: a label is asked for, or a stage is added. -/
inductive Use (τ : Type) where
  | label (stem : String)
  | stage (inputs : List String) (filters : List (Filter τ)) (output : String)

/-- The stem under which a label is asked for. -/
def Use.stem? : Use τ → Option String
  | .label stem => some stem
  | .stage .. => none

/-- The labels that a graph gives out while it is used. A stage that cannot be added leaves it as it
is. -/
def allocated : FilterGraph τ → List (Use τ) → List String
  | _, [] => []
  | graph, .label stem :: rest =>
    (graph.freshLabel stem).1 :: allocated (graph.freshLabel stem).2 rest
  | graph, .stage inputs filters output :: rest =>
    allocated ((graph.add inputs filters output).toOption.getD graph) rest

/-- While a graph is used, it gives out a number under a stem: those follow that were given out before,
as many as labels are asked for. -/
def HandsOut (graph : FilterGraph τ) (uses : List (Use τ)) (stem : String) (n : Nat) : Prop :=
  graph.issued stem ≤ n ∧ n < graph.issued stem + (uses.filterMap Use.stem?).count stem

/-- The numbers that some stems are given one after another, behind those that were given out. -/
def numbers (issued : String → Nat) : List String → List (String × Nat)
  | [] => []
  | stem :: rest =>
    (stem, issued stem) :: numbers (fun s => if s = stem then issued s + 1 else issued s) rest

/-- Stages take no numbers. -/
theorem issued_add (graph : FilterGraph τ) (inputs : List String) (filters : List (Filter τ))
    (output : String) :
    ((graph.add inputs filters output).toOption.getD graph).issued = graph.issued := by
  unfold add
  split
  · rfl
  · split <;> rfl

theorem allocated_eq (graph : FilterGraph τ) (uses : List (Use τ)) :
    graph.allocated uses = (numbers graph.issued (uses.filterMap Use.stem?)).map fun given =>
      given.1 ++ toString given.2 := by
  induction uses generalizing graph with
  | nil => rfl
  | cons use rest ih =>
    cases use with
    | label stem =>
      rw [allocated, ih]
      rfl
    | stage inputs filters output =>
      rw [allocated, ih, issued_add]
      rfl

/-- A stem is given the numbers from its next one on. -/
theorem mem_numbers_iff {issued : String → Nat} {stems : List String} {stem : String} {n : Nat} :
    (stem, n) ∈ numbers issued stems ↔
      issued stem ≤ n ∧ n < issued stem + stems.count stem := by
  induction stems generalizing issued with
  | nil =>
    rw [numbers, List.count_nil]
    exact iff_of_false List.not_mem_nil (by omega)
  | cons first rest ih =>
    rw [numbers, List.mem_cons, ih, Prod.mk.injEq, List.count_cons]
    by_cases here : stem = first
    · subst here
      simp only [if_true, true_and, beq_self_eq_true]
      omega
    · have elsewhere : (first == stem) = false := beq_false_of_ne (Ne.symm here)
      simp only [here, if_false, false_and, false_or, elsewhere, Bool.false_eq_true]
      omega

/-- No stem is given a number twice. -/
theorem nodup_numbers (issued : String → Nat) (stems : List String) :
    (numbers issued stems).Nodup := by
  induction stems generalizing issued with
  | nil => exact List.nodup_nil
  | cons stem rest ih =>
    refine List.nodup_cons.mpr ⟨?_, ih _⟩
    intro again
    have later := (mem_numbers_iff.mp again).1
    rw [if_pos rfl] at later
    omega

/-- Labels that are given out under words are different. -/
theorem allocated_nodup_of_wordy (graph : FilterGraph τ) {uses : List (Use τ)}
    (wordy : ∀ stem, .label stem ∈ uses → Wordy stem) : (graph.allocated uses).Nodup := by
  have words {stem : String} {n : Nat}
      (given : (stem, n) ∈ numbers graph.issued (uses.filterMap Use.stem?)) : Wordy stem := by
    have asked : stem ∈ uses.filterMap Use.stem? := by
      rw [← List.count_pos_iff]
      have := mem_numbers_iff.mp given
      omega
    obtain ⟨use, used, same⟩ := List.mem_filterMap.mp asked
    cases use with
    | label other => exact wordy stem (Option.some.inj same ▸ used)
    | stage inputs filters output => cases same
  rw [allocated_eq]
  refine List.Nodup.map_on ?_ (nodup_numbers _ _)
  rintro ⟨stem, n⟩ given ⟨stem', m⟩ given' same
  obtain ⟨rfl, rfl⟩ := numbered_inj (words given) (words given') same
  rfl

/-- A graph gives out a label twice exactly if labels are asked for under a stem and under the same stem
with a tail behind it, and a number given out under the shorter one is written as the tail and a number
given out under the longer one. -/
theorem allocated_nodup_iff (graph : FilterGraph τ) (uses : List (Use τ)) :
    (graph.allocated uses).Nodup ↔ ¬ ∃ stem tail n m, tail ≠ "" ∧
      graph.HandsOut uses stem n ∧ graph.HandsOut uses (stem ++ tail) m ∧
      toString n = tail ++ toString m := by
  rw [allocated_eq, List.nodup_map_iff_inj_on (nodup_numbers _ _)]
  constructor
  · rintro apart ⟨stem, tail, n, m, some, given, given', number⟩
    have same := apart (stem, n) (mem_numbers_iff.mpr given) (stem ++ tail, m)
      (mem_numbers_iff.mpr given') (numbered_eq_iff.mpr (.inl ⟨tail, rfl, number⟩))
    exact some (String.append_eq_left_iff.mp (congrArg Prod.fst same).symm)
  · intro apart
    -- By symmetry, the stem of the second label is the longer one.
    have longer {stem tail : String} {n m : Nat}
        (given : (stem, n) ∈ numbers graph.issued (uses.filterMap Use.stem?))
        (given' : (stem ++ tail, m) ∈ numbers graph.issued (uses.filterMap Use.stem?))
        (number : toString n = tail ++ toString m) : (stem, n) = (stem ++ tail, m) := by
      by_cases some : tail = ""
      · subst some
        rw [String.empty_append] at number
        rw [String.append_empty, number_inj number]
      · exact absurd ⟨stem, tail, n, m, some, mem_numbers_iff.mp given, mem_numbers_iff.mp given',
          number⟩ apart
    rintro ⟨stem, n⟩ given ⟨stem', m⟩ given' same
    rcases numbered_eq_iff.mp same with ⟨tail, rfl, number⟩ | ⟨tail, rfl, number⟩
    · exact longer given given' number
    · exact (longer given' given number).symm

/-- The eleventh label under one stem is the first under another. -/
theorem exists_label_twice :
    ¬ ∀ (graph : FilterGraph Double) (uses : List (Use Double)), (graph.allocated uses).Nodup := by
  intro unique
  have twice := unique {} (List.replicate 11 (.label "a") ++ [.label "a1"])
  revert twice
  decide +kernel

end FilterGraph

end Montage
