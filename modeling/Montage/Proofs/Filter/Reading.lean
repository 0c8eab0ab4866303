import Mathlib.Data.List.TakeWhile
import Montage.Proofs.Action
import Montage.Proofs.Filter.Plumbing
import Montage.Proofs.Text.Digits

/-!
# The text of a filter graph is unambiguous

Stages stand between semicolons, filters between commas, values between colons, and a key is told from
its value by an equals sign; pads stand in brackets. A value in quotes may hold all of these, so a text
is cut at a separator only where no quote is open. As long as names, keys and labels hold no separator,
and no expression a quote, a graph is read back from its text as it was written.

## Main definitions

* `cut` — a text cut at a separator outside quotes
* `FilterGraph.written` — the stages of a graph with their values as text
* `readStages` — the stages that a text holds
* `FilterGraph.Legible` — no part of a graph holds what would end it

## Main results

* `cut_intercalate` — cutting undoes putting a separator between parts
* `readStages_text` — what was written is read back
* `FilterGraph.print_unambiguous` — graphs with the same text have the same stages
-/

namespace Montage

/-! ### Cutting outside quotes -/

/-- A text cut at a separator where no quote is open. -/
def cut (sep : Char) : Bool → List Char → List (List Char)
  | _, [] => [[]]
  | quoted, c :: rest =>
    if c = sep ∧ quoted = false then [] :: cut sep false rest
    else (cut sep (quoted != decide (c = '\'')) rest).modifyHead (c :: ·)

/-- All quotes are closed at the end of a text, and a separator stands in quotes only. -/
def Closed (sep : Char) : Bool → List Char → Prop
  | quoted, [] => quoted = false
  | quoted, c :: rest => (quoted = false → c ≠ sep) ∧ Closed sep (quoted != decide (c = '\'')) rest

section Cut

variable {sep other c : Char} {quoted : Bool} {part rest : List Char} {parts : List (List Char)}

theorem Closed.append (h : Closed sep quoted part) (behind : Closed sep false rest) :
    Closed sep quoted (part ++ rest) := by
  induction part generalizing quoted with
  | nil =>
    obtain rfl : quoted = false := h
    exact behind
  | cons c part ih => exact ⟨h.1, ih h.2⟩

theorem Closed.cons (h : Closed sep false part) (apart : c ≠ sep) (quote : c ≠ '\'') :
    Closed sep false (c :: part) := by
  refine ⟨fun _ => apart, ?_⟩
  rw [decide_eq_false quote]
  exact h

theorem closed_of_forall (h : ∀ c ∈ part, c ≠ sep ∧ c ≠ '\'') : Closed sep false part := by
  induction part with
  | nil => rfl
  | cons c part ih =>
    obtain ⟨⟨apart, quote⟩, h⟩ := List.forall_mem_cons.mp h
    exact (ih h).cons apart quote

theorem closed_quoted (apart : sep ≠ '\'') (h : '\'' ∉ part) :
    Closed sep false ('\'' :: (part ++ ['\''])) := by
  have inside : Closed sep true (part ++ ['\'']) := by
    induction part with
    | nil => exact ⟨fun opened => absurd opened (by simp), rfl⟩
    | cons c part ih =>
      obtain ⟨quote, h⟩ := not_or.mp (mt List.mem_cons.mpr h)
      refine ⟨fun opened => absurd opened (by simp), ?_⟩
      rw [decide_eq_false (Ne.symm quote)]
      exact ih h
  exact ⟨fun _ => apart.symm, inside⟩

theorem cut_closed (h : Closed sep quoted part) : cut sep quoted part = [part] := by
  induction part generalizing quoted with
  | nil => rfl
  | cons c part ih =>
    have inside : ¬ (c = sep ∧ quoted = false) := fun ⟨same, outside⟩ => h.1 outside same
    rw [cut, if_neg inside, ih h.2, List.modifyHead_cons]

theorem cut_closed_append (h : Closed sep quoted part) :
    cut sep quoted (part ++ sep :: rest) = part :: cut sep false rest := by
  induction part generalizing quoted with
  | nil =>
    obtain rfl : quoted = false := h
    rw [List.nil_append, cut, if_pos ⟨rfl, rfl⟩]
  | cons c part ih =>
    have inside : ¬ (c = sep ∧ quoted = false) := fun ⟨same, outside⟩ => h.1 outside same
    rw [List.cons_append, cut, if_neg inside, ih h.2, List.modifyHead_cons]

/-- Cutting undoes putting a separator between parts. -/
theorem cut_intercalate (nonempty : parts ≠ []) (closed : ∀ part ∈ parts, Closed sep false part) :
    cut sep false ([sep].intercalate parts) = parts := by
  induction parts with
  | nil => exact absurd rfl nonempty
  | cons part parts ih =>
    obtain ⟨first, closed⟩ := List.forall_mem_cons.mp closed
    cases parts with
    | nil => rw [List.intercalate_singleton, cut_closed first]
    | cons next parts =>
      rw [List.intercalate_cons_cons, List.append_assoc, List.singleton_append,
        cut_closed_append first, ih (by simp) closed]

/-- Parts between which there are other separators. -/
theorem closed_intercalate (closed : ∀ part ∈ parts, Closed sep false part) (apart : other ≠ sep)
    (quote : other ≠ '\'') : Closed sep false ([other].intercalate parts) := by
  induction parts with
  | nil => rfl
  | cons part parts ih =>
    obtain ⟨first, closed⟩ := List.forall_mem_cons.mp closed
    cases parts with
    | nil =>
      rw [List.intercalate_singleton]
      exact first
    | cons next parts =>
      rw [List.intercalate_cons_cons, List.append_assoc, List.singleton_append]
      exact first.append ((ih closed).cons apart quote)

end Cut

/-! ### What is written -/

/-- The characters that have a meaning between the parts of a graph. -/
def marks : List Char := ['[', ']', ';', ',', ':', '=', '\'']

/-- A text without any of them. -/
def Unmarked (text : String) : Prop := ∀ c ∈ text.toList, c ∉ marks

-- Only the characters of the text are to be looked at, not all that there are.
instance (text : String) : Decidable (Unmarked text) := List.decidableBAll (· ∉ marks) text.toList

/-- A value as it is written: without marks, or between quotes and without a quote. -/
def IsValueText (text : String) : Prop :=
  Unmarked text ∨ ∃ expression, text = "'" ++ expression ++ "'" ∧ '\'' ∉ expression.toList

/-- A filter with its values as text. -/
structure WrittenFilter where
  name : String
  positional : List String
  options : List (String × String)
  deriving DecidableEq

/-- A stage with its filters as text. -/
structure WrittenStage where
  inputs : List String
  filters : List WrittenFilter
  output : String
  deriving DecidableEq

namespace WrittenFilter

def values (filter : WrittenFilter) : List String :=
  filter.positional ++ filter.options.map fun (key, value) => key ++ "=" ++ value

def text (filter : WrittenFilter) : String :=
  if filter.values.isEmpty then filter.name else filter.name ++ "=" ++ ":".intercalate filter.values

/-- Nothing in a filter holds what would end it. -/
structure Legible (filter : WrittenFilter) : Prop where
  name : Unmarked filter.name
  positional : ∀ value ∈ filter.positional, IsValueText value
  options : ∀ option ∈ filter.options, Unmarked option.1 ∧ IsValueText option.2

end WrittenFilter

namespace WrittenStage

def text (stage : WrittenStage) : String :=
  String.join (stage.inputs.map padText) ++ ",".intercalate (stage.filters.map WrittenFilter.text) ++
    padText stage.output

/-- Nothing in a stage holds what would end it; there may be colons in the pads that it reads. -/
structure Legible (stage : WrittenStage) : Prop where
  inputs : ∀ pad ∈ stage.inputs, ∀ c ∈ pad.toList, c ∈ marks → c = ':'
  nonempty : stage.filters ≠ []
  filters : ∀ filter ∈ stage.filters, filter.Legible
  output : Unmarked stage.output

end WrittenStage

/-! ### What is read -/

/-- A value without a key. -/
def readPositional? (part : List Char) : Option String :=
  match cut '=' false part with
  | [value] => some (String.ofList value)
  | _ => none

/-- A value behind its key. -/
def readOption? (part : List Char) : Option (String × String) :=
  match cut '=' false part with
  | [key, value] => some (String.ofList key, String.ofList value)
  | _ => none

def readFilter (text : List Char) : WrittenFilter :=
  match text.dropWhile (· ≠ '=') with
  | [] => ⟨String.ofList text, [], []⟩
  | _ :: values =>
    let parts := cut ':' false values
    ⟨String.ofList (text.takeWhile (· ≠ '=')), parts.filterMap readPositional?,
      parts.filterMap readOption?⟩

/-- A stage: every pad ends with a bracket, and the last one stands behind the filters. -/
def readStage (text : List Char) : WrittenStage :=
  let pieces := (cut ']' false text).dropLast
  let body := cut '[' false (pieces.getLastD [])
  ⟨pieces.dropLast.map fun piece => String.ofList piece.tail,
    (cut ',' false (body.headD [])).map readFilter, String.ofList (body.getLastD [])⟩

/-- The stages of a graph; a text without characters has none. -/
def readStages (text : List Char) : List WrittenStage :=
  if text.isEmpty then [] else (cut ';' false text).map readStage

/-! ### Reading what was written -/

section Marks

variable {sep : Char} {text : String}

theorem Unmarked.closed (h : Unmarked text) (mark : sep ∈ marks) : Closed sep false text.toList := by
  refine closed_of_forall fun c hc => ⟨?_, ?_⟩
  · rintro rfl
    exact h c hc mark
  · rintro rfl
    exact h '\'' hc (by decide)

theorem IsValueText.closed (h : IsValueText text) (mark : sep ∈ marks) (quote : sep ≠ '\'') :
    Closed sep false text.toList := by
  rcases h with plain | ⟨expression, rfl, closed⟩
  · exact plain.closed mark
  · rw [String.toList_append, String.toList_append]
    exact closed_quoted quote closed

end Marks

namespace WrittenFilter

variable {filter : WrittenFilter} {sep : Char}

theorem Legible.closed_values (h : filter.Legible) (mark : sep ∈ marks) (quote : sep ≠ '\'')
    (equals : sep ≠ '=') : ∀ value ∈ filter.values, Closed sep false value.toList := by
  intro value hvalue
  rcases List.mem_append.mp hvalue with positional | option
  · exact (h.positional value positional).closed mark quote
  · obtain ⟨⟨key, value⟩, hoption, rfl⟩ := List.mem_map.mp option
    obtain ⟨plain, closed⟩ := h.options _ hoption
    rw [String.toList_append, String.toList_append]
    exact ((plain.closed mark).append ((closed_of_forall (by simp)).cons equals.symm (by decide))).append
      (closed.closed mark quote)

theorem Legible.closed_text (h : filter.Legible) (mark : sep ∈ marks) (quote : sep ≠ '\'')
    (equals : sep ≠ '=') (colon : sep ≠ ':') : Closed sep false filter.text.toList := by
  unfold text
  split
  · exact h.name.closed mark
  · rw [String.toList_append, String.toList_append, String.toList_intercalate]
    refine ((h.name.closed mark).append
      ((closed_of_forall (by simp)).cons equals.symm (by decide))).append
      (closed_intercalate ?_ colon.symm (by decide))
    intro part hpart
    obtain ⟨value, hvalue, rfl⟩ := List.mem_map.mp hpart
    exact h.closed_values mark quote equals value hvalue

theorem readPositional?_positional {value : String} (h : IsValueText value) :
    readPositional? value.toList = some value := by
  rw [readPositional?, cut_closed (h.closed (by decide) (by decide))]
  exact congrArg some String.ofList_toList

theorem readOption?_positional {value : String} (h : IsValueText value) :
    readOption? value.toList = none := by
  rw [readOption?, cut_closed (h.closed (by decide) (by decide))]

theorem cut_option {key value : String} (plain : Unmarked key) (h : IsValueText value) :
    cut '=' false (key ++ "=" ++ value).toList = [key.toList, value.toList] := by
  rw [String.toList_append, String.toList_append, List.append_assoc]
  exact (cut_closed_append (plain.closed (by decide))).trans
    (congrArg _ (cut_closed (h.closed (by decide) (by decide))))

theorem readPositional?_option {key value : String} (plain : Unmarked key) (h : IsValueText value) :
    readPositional? (key ++ "=" ++ value).toList = none := by
  rw [readPositional?, cut_option plain h]

theorem readOption?_option {key value : String} (plain : Unmarked key) (h : IsValueText value) :
    readOption? (key ++ "=" ++ value).toList = some (key, value) := by
  rw [readOption?, cut_option plain h]
  simp only [String.ofList_toList]

/-- The values of a filter are told apart by their keys. -/
theorem Legible.read_values (h : filter.Legible) :
    (filter.values.map String.toList).filterMap readPositional? = filter.positional ∧
      (filter.values.map String.toList).filterMap readOption? = filter.options := by
  simp only [values, List.map_append, List.map_map, List.filterMap_append, List.filterMap_map]
  constructor
  · have keyless : filter.positional.filterMap (readPositional? ∘ String.toList) =
        filter.positional.filterMap some :=
      List.filterMap_congr fun value hvalue => readPositional?_positional (h.positional value hvalue)
    rw [keyless, List.filterMap_some, List.append_right_eq_self, List.filterMap_eq_nil_iff]
    rintro ⟨key, value⟩ hoption
    obtain ⟨plain, closed⟩ := h.options _ hoption
    exact readPositional?_option plain closed
  · have keyless : filter.positional.filterMap (readOption? ∘ String.toList) = [] :=
      List.filterMap_eq_nil_iff.mpr fun value hvalue =>
        readOption?_positional (h.positional value hvalue)
    rw [keyless, List.nil_append]
    refine (List.filterMap_congr (g := some) ?_).trans List.filterMap_some
    rintro ⟨key, value⟩ hoption
    obtain ⟨plain, closed⟩ := h.options _ hoption
    exact readOption?_option plain closed

theorem Legible.readFilter_text (h : filter.Legible) : readFilter filter.text.toList = filter := by
  have front : ∀ c ∈ filter.name.toList, decide (c ≠ '=') = true := by
    intro c hc
    refine decide_eq_true ?_
    rintro rfl
    exact h.name '=' hc (by decide)
  obtain ⟨positional, options⟩ := h.read_values
  cases none : filter.values with
  | nil =>
    obtain ⟨bare, bare'⟩ := List.append_eq_nil_iff.mp none
    have bare' := List.map_eq_nil_iff.mp bare'
    have whole : filter.text = filter.name := by rw [text, none, List.isEmpty_nil, if_pos rfl]
    rw [readFilter, whole, List.dropWhile_eq_nil_iff.mpr front]
    dsimp only
    rw [String.ofList_toList, ← bare, ← bare']
  | cons value others =>
    have some : filter.values ≠ [] := by rw [none]; simp
    have whole : filter.text.toList =
        filter.name.toList ++ '=' :: [':'].intercalate (filter.values.map String.toList) := by
      rw [text, if_neg (mt List.isEmpty_iff.mp some), String.toList_append, String.toList_append,
        String.toList_intercalate, List.append_assoc]
      rfl
    have cuts : cut ':' false ([':'].intercalate (filter.values.map String.toList)) =
        filter.values.map String.toList := by
      refine cut_intercalate (by simpa using some) fun part hpart => ?_
      obtain ⟨value, hvalue, rfl⟩ := List.mem_map.mp hpart
      exact h.closed_values (by decide) (by decide) (by decide) value hvalue
    rw [readFilter, whole, List.dropWhile_append_of_pos front, List.takeWhile_append_of_pos front]
    simp only [ne_eq, not_true_eq_false, decide_false, Bool.false_eq_true, not_false_eq_true,
      List.dropWhile_cons_of_neg, List.takeWhile_cons_of_neg, List.append_nil, cuts, positional, options,
      String.ofList_toList]

end WrittenFilter

namespace WrittenStage

variable {stage : WrittenStage} {sep : Char}

/-- A bracket after a pad, or a semicolon: no pad that a stage reads holds one. -/
theorem Legible.closed_input (h : stage.Legible) (mark : sep ∈ marks) (colon : sep ≠ ':') :
    ∀ pad ∈ stage.inputs, Closed sep false pad.toList := by
  intro pad hpad
  refine closed_of_forall fun c hc => ⟨?_, ?_⟩
  · rintro rfl
    exact colon (h.inputs pad hpad c hc mark)
  · rintro rfl
    exact absurd (h.inputs pad hpad '\'' hc (by decide)) (by decide)

theorem Legible.closed_filter (h : stage.Legible) (mark : sep ∈ marks) (quote : sep ≠ '\'')
    (equals : sep ≠ '=') (colon : sep ≠ ':') :
    ∀ part ∈ stage.filters.map (·.text.toList), Closed sep false part := by
  intro part hpart
  obtain ⟨filter, hfilter, rfl⟩ := List.mem_map.mp hpart
  exact (h.filters filter hfilter).closed_text mark quote equals colon

/-- Pads in brackets. -/
def brackets (pads : List String) : List Char := pads.flatMap fun pad => '[' :: (pad.toList ++ [']'])

/-- The filters of a stage with commas between them. -/
def body (stage : WrittenStage) : List Char := [','].intercalate (stage.filters.map (·.text.toList))

theorem toList_text (stage : WrittenStage) :
    stage.text.toList = brackets stage.inputs ++
      ((stage.body ++ '[' :: stage.output.toList) ++ [']']) := by
  have pad (pad : String) : (padText pad).toList = '[' :: (pad.toList ++ [']']) := by
    rw [padText, String.toList_append, String.toList_append]
    rfl
  rw [text, String.toList_append, String.toList_append, String.toList_join, List.flatMap_map,
    String.toList_intercalate, List.map_map, pad, List.append_assoc, List.append_assoc,
    List.cons_append]
  simp only [pad]
  rfl

/-- Every pad that a stage reads ends with a bracket. -/
theorem cut_pads {pads : List String} (closed : ∀ pad ∈ pads, Closed ']' false pad.toList)
    (rest : List Char) :
    cut ']' false (brackets pads ++ rest) =
      pads.map (fun pad => '[' :: pad.toList) ++ cut ']' false rest := by
  induction pads with
  | nil => rfl
  | cons pad pads ih =>
    obtain ⟨first, closed⟩ := List.forall_mem_cons.mp closed
    have opened : Closed ']' false ('[' :: pad.toList) := first.cons (by decide) (by decide)
    rw [brackets, List.flatMap_cons, List.append_assoc, List.cons_append, List.append_assoc,
      List.singleton_append, ← List.cons_append, cut_closed_append opened]
    exact congrArg _ (ih closed)

theorem closed_brackets {pads : List String} (closed : ∀ pad ∈ pads, Closed sep false pad.toList)
    (opening : '[' ≠ sep) (closing : ']' ≠ sep) : Closed sep false (brackets pads) := by
  induction pads with
  | nil => rfl
  | cons pad pads ih =>
    obtain ⟨first, closed⟩ := List.forall_mem_cons.mp closed
    have last : Closed sep false [']'] := closed_of_forall (by simpa using closing)
    exact ((first.append last).cons opening (by decide)).append (ih closed)

theorem Legible.closed_body (h : stage.Legible) (mark : sep ∈ marks) (quote : sep ≠ '\'')
    (equals : sep ≠ '=') (colon : sep ≠ ':') (comma : sep ≠ ',') : Closed sep false stage.body :=
  closed_intercalate (h.closed_filter mark quote equals colon) comma.symm (by decide)

/-- A stage is read as it was written. -/
theorem Legible.readStage_text (h : stage.Legible) : readStage stage.text.toList = stage := by
  have whole : Closed ']' false (stage.body ++ '[' :: stage.output.toList) :=
    (h.closed_body (by decide) (by decide) (by decide) (by decide) (by decide)).append
      ((h.output.closed (by decide)).cons (by decide) (by decide))
  have pieces : (cut ']' false stage.text.toList).dropLast =
      stage.inputs.map (fun pad => '[' :: pad.toList) ++
        [stage.body ++ '[' :: stage.output.toList] := by
    rw [toList_text, cut_pads (h.closed_input (by decide) (by decide)), cut_closed_append whole,
      List.dropLast_append_cons]
    rfl
  have halves : cut '[' false (stage.body ++ '[' :: stage.output.toList) =
      [stage.body, stage.output.toList] := by
    rw [cut_closed_append
      (h.closed_body (by decide) (by decide) (by decide) (by decide) (by decide)),
      cut_closed (h.output.closed (by decide))]
  have filters : (cut ',' false stage.body).map readFilter = stage.filters := by
    rw [body, cut_intercalate (mt List.map_eq_nil_iff.mp h.nonempty)
      (h.closed_filter (by decide) (by decide) (by decide) (by decide)), List.map_map]
    exact (List.map_congr_left fun filter hfilter => (h.filters filter hfilter).readFilter_text).trans
      (List.map_id' _)
  simp only [readStage, pieces, List.getLastD_concat, List.dropLast_concat, List.map_map, halves,
    List.headD_cons, filters]
  change WrittenStage.mk (stage.inputs.map fun pad => String.ofList pad.toList) stage.filters
    (String.ofList stage.output.toList) = stage
  simp only [String.ofList_toList, List.map_id_fun', id_eq]

theorem Legible.closed_text (h : stage.Legible) : Closed ';' false stage.text.toList := by
  have body : Closed ';' false stage.body :=
    h.closed_body (by decide) (by decide) (by decide) (by decide) (by decide)
  have output : Closed ';' false ('[' :: stage.output.toList) :=
    (h.output.closed (by decide)).cons (by decide) (by decide)
  rw [toList_text]
  exact (closed_brackets (h.closed_input (by decide) (by decide)) (by decide) (by decide)).append
    ((body.append output).append (closed_of_forall (by simp)))

end WrittenStage

/-- What was written is read back. -/
theorem readStages_text {stages : List WrittenStage} (legible : ∀ stage ∈ stages, stage.Legible) :
    readStages (";".intercalate (stages.map WrittenStage.text)).toList = stages := by
  have parts : (";".intercalate (stages.map WrittenStage.text)).toList =
      [';'].intercalate (stages.map (·.text.toList)) := by
    rw [String.toList_intercalate, List.map_map]
    rfl
  rw [parts, readStages]
  cases stages with
  | nil => rfl
  | cons stage rest =>
    have closed : ∀ part ∈ (stage :: rest).map (·.text.toList), Closed ';' false part := by
      intro part hpart
      obtain ⟨stage, hstage, rfl⟩ := List.mem_map.mp hpart
      exact (legible stage hstage).closed_text
    have cuts := cut_intercalate (by simp) closed
    have filled : [';'].intercalate ((stage :: rest).map (·.text.toList)) ≠ [] := by
      intro empty
      rw [empty] at cuts
      have first : [] = stage.text.toList := List.head_eq_of_cons_eq cuts
      rw [WrittenStage.toList_text] at first
      simp at first
    rw [if_neg (mt List.isEmpty_iff.mp filled), cuts, List.map_map]
    exact (List.map_congr_left fun stage hstage => (legible stage hstage).readStage_text).trans
      (List.map_id' _)

/-! ### Texts without marks -/

section Unmarked

variable {text text' : String} {τ : Type} [Scalar τ]

theorem Unmarked.append (h : Unmarked text) (h' : Unmarked text') : Unmarked (text ++ text') := by
  intro c hc
  rw [String.toList_append] at hc
  exact (List.mem_append.mp hc).elim (h c) (h' c)

theorem not_mem_marks_of_isDigit {c : Char} (digit : c.isDigit = true) : c ∉ marks := by
  have apart : marks.all (!·.isDigit) = true := by decide
  intro mark
  exact absurd digit (by simpa using List.all_eq_true.mp apart c mark)

theorem unmarked_of_numeric (h : Text.Numeric text.toList) : Unmarked text :=
  fun c hc => not_mem_marks_of_isDigit (h c hc)

theorem unmarked_nat (n : Nat) : Unmarked (toString n) :=
  unmarked_of_numeric (Text.toList_toString n ▸ Text.numeric_toDigits n)

theorem unmarked_int (n : Int) : Unmarked (toString n) := by
  cases n with
  | ofNat n => exact unmarked_nat n
  | negSucc n =>
    have sign : Unmarked "-" := by decide
    exact sign.append (unmarked_nat (n + 1))

theorem mem_of_mem_trimPlaces {c : Char} {cs : List Char} (h : c ∈ trimPlaces cs) : c ∈ cs := by
  have part {test : Char → Bool} {cs : List Char} (h : c ∈ Text.dropEndWhile test cs) : c ∈ cs :=
    List.mem_reverse.mp ((List.dropWhile_sublist _).subset (List.mem_reverse.mp h))
  exact part (part h)

theorem unmarked_sixPlaces {negative : Bool} {count : Nat} :
    ∀ c ∈ sixPlaces negative count, c ∉ marks := by
  have places : Text.Numeric (padSix (count % million)) :=
    (Text.numeric_zeros _).append (Text.toList_toString _ ▸ Text.numeric_toDigits _)
  intro c hc
  rcases List.mem_append.mp hc with front | behind
  · rcases List.mem_append.mp front with sign | digit
    · cases negative with
      | false => cases sign
      | true =>
        rw [List.mem_singleton.mp sign]
        decide
    · exact unmarked_nat _ c digit
  · rcases List.mem_cons.mp behind with rfl | digit
    · decide
    · exact not_mem_marks_of_isDigit (places c digit)

theorem unmarked_fixedText (negative : Bool) (count : Nat) :
    Unmarked (fixedText negative count) := by
  unfold fixedText
  dsimp only
  split
  · decide
  · intro c hc
    rw [String.toList_ofList] at hc
    exact unmarked_sixPlaces c (mem_of_mem_trimPlaces hc)

/-- A number has no marks. -/
theorem unmarked_fixed (x : τ) : Unmarked (Scalar.fixed x) := by
  unfold Scalar.fixed
  split
  · exact unmarked_fixedText _ _
  · decide
  · split <;> decide

theorem not_mem_gateExpression (start stop : τ) :
    '\'' ∉ (FilterValue.gateExpression start stop).toList := by
  have plain (x : τ) : '\'' ∉ (Scalar.fixed x).toList := fun h => unmarked_fixed x '\'' h (by decide)
  simp only [FilterValue.gateExpression, String.toList_append, List.mem_append, plain]
  decide

end Unmarked

/-! ### Graphs as they are written -/

section Written

variable {τ : Type} [Scalar τ]

/-- Nothing in a value holds what would end it: a word has no marks, an expression no quote. -/
def FilterValue.Legible : FilterValue τ → Prop
  | .text s => Unmarked s
  | .quoted expression => '\'' ∉ expression.toList
  | _ => True

structure Filter.Legible (filter : Filter τ) : Prop where
  name : Unmarked filter.name
  positional : ∀ value ∈ filter.positional, value.Legible
  options : ∀ option ∈ filter.options, Unmarked option.1 ∧ option.2.Legible

/-- Nothing in a stage holds what would end it; there may be colons in the pads that it reads. -/
structure FilterChain.Legible (stage : FilterChain τ) : Prop where
  inputs : ∀ pad ∈ stage.inputs, ∀ c ∈ pad.toList, c ∈ marks → c = ':'
  filters : ∀ filter ∈ stage.filters, filter.Legible
  output : Unmarked stage.output

/-- A filter with its values as text. -/
def Filter.written (filter : Filter τ) : Except NumberError WrittenFilter := do
  let positional ← filter.positional.mapM FilterValue.print
  let options ← filter.options.mapM fun (key, value) => do return (key, ← value.print)
  return ⟨filter.name, positional, options⟩

/-- A stage with its values as text. -/
def FilterChain.written (stage : FilterChain τ) : Except NumberError WrittenStage := do
  return ⟨stage.inputs, ← stage.filters.mapM Filter.written, stage.output⟩

namespace FilterGraph

/-- The stages of a graph with their values as text. -/
def written (graph : FilterGraph τ) : Except NumberError (List WrittenStage) :=
  graph.stages.mapM FilterChain.written

/-- No part of a graph holds what would end it. -/
def Legible (graph : FilterGraph τ) : Prop := ∀ stage ∈ graph.stages, stage.Legible

/-- A graph made of nothing by giving out labels and adding stages. -/
inductive Built : FilterGraph τ → Prop where
  | empty : Built {}
  | freshLabel {graph : FilterGraph τ} (stem : String) :
      Built graph → Built (graph.freshLabel stem).2
  | add {graph after : FilterGraph τ} {inputs : List String} {filters : List (Filter τ)}
      {output : String} :
      Built graph → graph.add inputs filters output = .ok after → Built after

omit [Scalar τ] in
/-- No stage is without filters. -/
theorem Built.filled {graph : FilterGraph τ} (built : graph.Built) :
    ∀ stage ∈ graph.stages, stage.filters ≠ [] := by
  induction built with
  | empty => simp
  | freshLabel _ _ ih => exact ih
  | @add graph after inputs filters output _ added ih =>
    have filled : filters ≠ [] := by
      rintro rfl
      exact absurd added (by simp [FilterGraph.add])
    intro stage hstage
    rw [(stages_of_add added).1] at hstage
    rcases List.mem_append.mp hstage with old | new
    · exact ih stage old
    · obtain rfl := List.mem_singleton.mp new
      exact filled

end FilterGraph

/-! ### Writing a graph -/

section MapM

variable {ε α β γ : Type} {xs : List α} {ys : List β} {f : α → Except ε β}

/-- What is made of the results can be made of each of them. -/
theorem mapM_map_result (f : α → Except ε β) (g : β → γ) (xs : List α) :
    xs.mapM (fun x => (f x).map g) = (xs.mapM f).map (List.map g) := by
  induction xs with
  | nil => rfl
  | cons x xs ih =>
    rw [List.mapM_cons, List.mapM_cons, ih]
    cases f x with
    | error _ => rfl
    | ok _ => cases xs.mapM f <;> rfl

/-- Every result is that of an item, and there are as many results as items. -/
theorem results_of_mapM (made : xs.mapM f = .ok ys) :
    ys.length = xs.length ∧ ∀ y ∈ ys, ∃ x ∈ xs, f x = .ok y := by
  induction xs generalizing ys with
  | nil =>
    obtain rfl := Except.ok.inj made
    exact ⟨rfl, by simp⟩
  | cons x xs ih =>
    rw [List.mapM_cons] at made
    obtain ⟨y, first, made⟩ := exists_of_bind_eq_ok made
    obtain ⟨others, rest, made⟩ := exists_of_bind_eq_ok made
    obtain rfl := Except.ok.inj made
    obtain ⟨length, each⟩ := ih rest
    refine ⟨congrArg (· + 1) length, fun z hz => ?_⟩
    rcases List.mem_cons.mp hz with rfl | hz
    · exact ⟨x, List.mem_cons_self, first⟩
    · obtain ⟨other, hother, same⟩ := each z hz
      exact ⟨other, List.mem_cons_of_mem _ hother, same⟩

end MapM

theorem FilterValue.Legible.isValueText {value : FilterValue τ} {text : String}
    (h : value.Legible) (printed : value.print = .ok text) : IsValueText text := by
  cases value with
  | none => exact .inl (Except.ok.inj printed ▸ by decide)
  | flag b => exact .inl (Except.ok.inj printed ▸ by cases b <;> decide)
  | int n =>
    change (Scalar.ofInt n : Except NumberError τ).map Scalar.fixed = .ok text at printed
    cases near : (Scalar.ofInt n : Except NumberError τ) with
    | error _ => exact nomatch near ▸ printed
    | ok x =>
      rw [near] at printed
      exact .inl (Except.ok.inj printed ▸ unmarked_fixed x)
  | number x => exact .inl (Except.ok.inj printed ▸ unmarked_fixed x)
  | text s => exact .inl (Except.ok.inj printed ▸ h)
  | quoted expression => exact .inr ⟨expression, (Except.ok.inj printed).symm, h⟩
  | gate start stop =>
    exact .inr ⟨_, (Except.ok.inj printed).symm, not_mem_gateExpression start stop⟩
  | shift offset =>
    exact .inl (Except.ok.inj printed ▸
      (Unmarked.append (by decide) (unmarked_fixed offset)).append (by decide))
  | delay n =>
    exact .inl (Except.ok.inj printed ▸
      ((unmarked_int n).append (by decide)).append (unmarked_int n))

theorem Filter.print_eq_written (filter : Filter τ) :
    filter.print = filter.written.map WrittenFilter.text := by
  have options : (filter.options.mapM fun ((key, value) : String × FilterValue τ) => do
        return key ++ "=" ++ (← value.print)) =
      (filter.options.mapM fun ((key, value) : String × FilterValue τ) => do
        return (key, ← value.print)).map (List.map fun (key, value) => key ++ "=" ++ value) := by
    rw [← mapM_map_result]
    refine congrFun (congrArg _ (funext ?_)) _
    rintro ⟨key, value⟩
    dsimp only
    cases value.print <;> rfl
  rw [print, printValues, options, written]
  cases filter.positional.mapM FilterValue.print with
  | error _ => rfl
  | ok _ =>
    cases filter.options.mapM fun ((key, value) : String × FilterValue τ) => do
      return (key, ← value.print)
    all_goals rfl

theorem FilterChain.print_eq_written (stage : FilterChain τ) :
    stage.print = stage.written.map WrittenStage.text := by
  have filters : stage.filters.mapM Filter.print =
      (stage.filters.mapM Filter.written).map (List.map WrittenFilter.text) := by
    rw [← mapM_map_result]
    exact congrFun (congrArg _ (funext Filter.print_eq_written)) _
  rw [print, filters, written]
  cases stage.filters.mapM Filter.written <;> rfl

theorem FilterGraph.print_eq_written (graph : FilterGraph τ) :
    graph.print = graph.written.map fun stages => ";".intercalate (stages.map WrittenStage.text) := by
  have stages : graph.stages.mapM FilterChain.print =
      (graph.stages.mapM FilterChain.written).map (List.map WrittenStage.text) := by
    rw [← mapM_map_result]
    exact congrFun (congrArg _ (funext FilterChain.print_eq_written)) _
  rw [print, stages, written]
  cases graph.stages.mapM FilterChain.written <;> rfl

theorem Filter.Legible.of_written {filter : Filter τ} {made : WrittenFilter} (h : filter.Legible)
    (written : filter.written = .ok made) : made.Legible := by
  obtain ⟨positional, values, written⟩ := exists_of_bind_eq_ok written
  obtain ⟨options, keyed, written⟩ := exists_of_bind_eq_ok written
  obtain rfl := Except.ok.inj written
  refine ⟨h.name, fun text htext => ?_, fun option hoption => ?_⟩
  · obtain ⟨value, hvalue, printed⟩ := (results_of_mapM values).2 text htext
    exact (h.positional value hvalue).isValueText printed
  · obtain ⟨⟨key, value⟩, hvalue, paired⟩ := (results_of_mapM keyed).2 option hoption
    obtain ⟨text, printed, same⟩ := exists_of_bind_eq_ok paired
    obtain rfl := Except.ok.inj same
    obtain ⟨plain, legible⟩ := h.options _ hvalue
    exact ⟨plain, legible.isValueText printed⟩

theorem FilterChain.Legible.of_written {stage : FilterChain τ} {made : WrittenStage}
    (h : stage.Legible) (filled : stage.filters ≠ []) (written : stage.written = .ok made) :
    made.Legible := by
  obtain ⟨filters, each, written⟩ := exists_of_bind_eq_ok written
  obtain rfl := Except.ok.inj written
  obtain ⟨length, each⟩ := results_of_mapM each
  refine ⟨h.inputs, ?_, fun filter hfilter => ?_, h.output⟩
  · rintro rfl
    exact filled (List.eq_nil_of_length_eq_zero length.symm)
  · obtain ⟨source, hsource, made⟩ := each filter hfilter
    exact (h.filters source hsource).of_written made

/-- What a graph was written as is read from its text. -/
theorem FilterGraph.readStages_print {graph : FilterGraph τ} {text : String} (built : graph.Built)
    (legible : graph.Legible) (printed : graph.print = .ok text) :
    graph.written = .ok (readStages text.toList) := by
  rw [print_eq_written] at printed
  cases written : graph.written with
  | error _ => exact nomatch written ▸ printed
  | ok stages =>
    rw [written] at printed
    obtain rfl := Except.ok.inj printed
    refine congrArg _ (readStages_text fun made hmade => ?_).symm
    obtain ⟨stage, hstage, made⟩ := (results_of_mapM written).2 made hmade
    exact (legible stage hstage).of_written (built.filled stage hstage) made

/-- Two graphs with the same text have the same stages with the same texts of values, and those are
what the text is read as. -/
theorem FilterGraph.print_unambiguous {graph graph' : FilterGraph τ} {text : String}
    (built : graph.Built) (built' : graph'.Built) (legible : graph.Legible)
    (legible' : graph'.Legible) (printed : graph.print = .ok text)
    (printed' : graph'.print = .ok text) :
    graph.written = graph'.written ∧ graph.written = .ok (readStages text.toList) := by
  have read := readStages_print built legible printed
  have read' := readStages_print built' legible' printed'
  exact ⟨read.trans read'.symm, read⟩

end Written

/-- A picture on its way. -/
def scaledStage : FilterChain Rat :=
  ⟨["0:v"], [.withOptions "scale" [("w", .int 640), ("h", .int 360)]], "clip0"⟩

/-- A picture laid over another one for some time. -/
def gatedStage (gate : FilterValue Rat) : FilterChain Rat :=
  ⟨["1:v", "clip0"], [.withOptions "overlay" [("x", .int 0), ("enable", gate)],
    .withValues "null" []], "vout"⟩

/-- A gate is read like the expression in quotes that it is written as, although there are commas in
it. -/
theorem gate_is_one_value :
    FilterGraph.written { stages := [scaledStage, gatedStage (.gate 1 3)] } =
      FilterGraph.written
        { stages := [scaledStage, gatedStage (.quoted (FilterValue.gateExpression (1 : Rat) 3))] } := by
  have built (gate : FilterValue Rat) :
      FilterGraph.Built { stages := [scaledStage, gatedStage gate] } := by
    have first : FilterGraph.add {} scaledStage.inputs scaledStage.filters scaledStage.output =
      .ok { stages := [scaledStage] } := rfl
    have second : FilterGraph.add { stages := [scaledStage] } (gatedStage gate).inputs
      (gatedStage gate).filters (gatedStage gate).output =
        .ok { stages := [scaledStage, gatedStage gate] } := rfl
    exact .add (.add .empty first) second
  have legible (gate : FilterValue Rat) (h : gate.Legible) :
      FilterGraph.Legible { stages := [scaledStage, gatedStage gate] } := by
    have size : Unmarked "w" ∧ Unmarked "h" := by decide
    have keys : Unmarked "x" ∧ Unmarked "enable" := by decide
    have words : Unmarked "overlay" ∧ Unmarked "vout" := by decide
    have pads : ["0:v", "1:v", "clip0"].all (fun pad => pad.toList.all fun c => c ∉ marks || c = ':') =
        true := by decide
    simp only [List.all_eq_true, Bool.or_eq_true, decide_eq_true_eq, ← imp_iff_not_or] at pads
    obtain ⟨film, others⟩ := List.forall_mem_cons.mp pads
    have scale : (Filter.withOptions "scale" [("w", .int 640), ("h", .int 360)] : Filter Rat).Legible :=
      ⟨by decide, List.forall_mem_nil _, by simp [Filter.withOptions, FilterValue.Legible, size]⟩
    have overlay : Filter.Legible (.withOptions "overlay" [("x", .int 0), ("enable", gate)]) :=
      ⟨words.1, List.forall_mem_nil _,
        by simpa [Filter.withOptions, FilterValue.Legible, keys] using h⟩
    have pass : Filter.Legible (.withValues "null" ([] : List (FilterValue Rat))) :=
      ⟨by decide, List.forall_mem_nil _, List.forall_mem_nil _⟩
    have scaled : scaledStage.Legible :=
      ⟨List.forall_mem_singleton.mpr film, List.forall_mem_singleton.mpr scale, by decide⟩
    have gated : (gatedStage gate).Legible :=
      ⟨others, List.forall_mem_cons.mpr ⟨overlay, List.forall_mem_singleton.mpr pass⟩, words.2⟩
    exact List.forall_mem_cons.mpr ⟨scaled, List.forall_mem_singleton.mpr gated⟩
  exact (FilterGraph.print_unambiguous (built _) (built _) (legible (.gate 1 3) trivial)
    (legible (.quoted _) (not_mem_gateExpression (1 : Rat) 3)) rfl rfl).1

end Montage
