import Mathlib.Data.List.Sort
import Montage.Proofs.Json.RoundTrip

/-!
# Compact texts tell values apart

Compact texts have no blanks, and their fields stand in the order of their names; so two values have
the same text if and only if they are the same but for the order in which their fields were given. Where
a value ends is seen from its text: a text ends at its quote, a list and an object at the bracket that
closes, and a number or a word at a character that neither goes on with.

## Main definitions

* `Json.sorted` — a value with all its fields in the order of their names
* `Json.Tells` — the text of an item tells it from all others, and where it ends

## Main results

* `tells_compact` — the compact text of a value tells it from all others
* `compact_eq_compact_iff` — the same text, the same value but for the order of fields
-/

namespace Montage.Json

open Text

section Order

variable {ν : Type} {α β : Type}

/-- Fields in the order of their names; those of one name keep their order. -/
def byName (fields : List (String × α)) : List (String × α) :=
  fields.insertionSort fun a b => a.1 ≤ b.1

mutual

/-- A value with all its fields in the order of their names. -/
def sorted : Json ν → Json ν
  | .list items => .list (sortedItems items)
  | .object fields => .object (byName (sortedFields fields))
  | value => value

def sortedItems : List (Json ν) → List (Json ν)
  | [] => []
  | item :: rest => sorted item :: sortedItems rest

def sortedFields : List (String × Json ν) → List (String × Json ν)
  | [] => []
  | (name, value) :: rest => (name, sorted value) :: sortedFields rest

end

theorem sortedItems_eq_map (items : List (Json ν)) : sortedItems items = items.map sorted := by
  induction items with
  | nil => rfl
  | cons item rest ih => rw [sortedItems, ih, List.map_cons]

theorem sortedFields_eq_map (fields : List (String × Json ν)) :
    sortedFields fields = fields.map (Prod.map id sorted) := by
  induction fields with
  | nil => rfl
  | cons field rest ih =>
    rw [sortedFields, ih, List.map_cons]
    rfl

theorem compactItems_eq_map (number : ν → String) (items : List (Json ν)) :
    compactItems number items = items.map (compact number) := by
  induction items with
  | nil => rfl
  | cons item rest ih => rw [compactItems, ih, List.map_cons]

theorem compactFields_eq_map (number : ν → String) (fields : List (String × Json ν)) :
    compactFields number fields = fields.map (Prod.map id (compact number)) := by
  induction fields with
  | nil => rfl
  | cons field rest ih =>
    rw [compactFields, ih, List.map_cons]
    rfl

/-- The order of fields does not depend on their values. -/
theorem byName_map (f : α → β) (fields : List (String × α)) :
    byName (fields.map (Prod.map id f)) = (byName fields).map (Prod.map id f) := by
  unfold byName
  exact (List.map_insertionSort _ _ (Prod.map id f) fields fun _ _ _ _ => Iff.rfl).symm

theorem sortFields_eq_byName (fields : List (String × String)) : sortFields fields = byName fields := by
  have insert (field : String × String) (sorted : List (String × String)) :
      sortField field sorted = sorted.orderedInsert (fun a b => a.1 ≤ b.1) field := by
    induction sorted with
    | nil => rfl
    | cons other rest ih => rw [sortField, List.orderedInsert_cons, ih]
  unfold sortFields byName
  induction fields with
  | nil => rfl
  | cons field rest ih => rw [List.foldr_cons, insert, ih, List.insertionSort_cons]

/-- What holds of a list and of an object as soon as it holds of the values in it holds of every value. -/
theorem of_parts {motive : Json ν → Prop} (null : motive .null) (bool : ∀ b, motive (.bool b))
    (int : ∀ n, motive (.int n)) (real : ∀ x, motive (.real x)) (text : ∀ s, motive (.text s))
    (list : ∀ items, (∀ item ∈ items, motive item) → motive (.list items))
    (object : ∀ fields, (∀ field ∈ fields, motive field.2) → motive (.object fields))
    (value : Json ν) : motive value := by
  refine @Json.rec ν motive (fun items => ∀ item ∈ items, motive item)
    (fun fields => ∀ field ∈ fields, motive field.2) (fun field => motive field.2)
    null bool int real text list object ?noItem ?item ?noField ?field ?named value
  case noItem => exact fun _ h => absurd h List.not_mem_nil
  case item => exact fun _ _ first others => List.forall_mem_cons.mpr ⟨first, others⟩
  case noField => exact fun _ h => absurd h List.not_mem_nil
  case field => exact fun _ _ first others => List.forall_mem_cons.mpr ⟨first, others⟩
  case named => exact fun _ _ holds => holds

theorem byName_byName (fields : List (String × α)) : byName (byName fields) = byName fields := by
  have total : Std.Total fun a b : String × α => a.1 ≤ b.1 := ⟨fun a b => String.le_total a.1 b.1⟩
  have trans : IsTrans (String × α) fun a b => a.1 ≤ b.1 := ⟨fun _ _ _ => String.le_trans⟩
  exact (List.pairwise_insertionSort _ fields).insertionSort_eq

/-- The order in which fields were given is not seen in the compact text. -/
theorem compact_sorted (number : ν → String) (value : Json ν) :
    value.sorted.compact number = value.compact number := by
  induction value using of_parts with
  | list items same =>
    rw [sorted, compact, compact, compactItems_eq_map, compactItems_eq_map, sortedItems_eq_map,
      List.map_map]
    exact congrArg (fun texts => "[" ++ commaJoined texts ++ "]") (List.map_congr_left same)
  | object fields same =>
    have parts : compactFields number (sortedFields fields) = compactFields number fields := by
      rw [compactFields_eq_map, compactFields_eq_map, sortedFields_eq_map, List.map_map]
      exact List.map_congr_left fun field hfield => Prod.ext rfl (same field hfield)
    rw [sorted, compact, compact, ← parts, compactFields_eq_map, compactFields_eq_map,
      sortFields_eq_byName, sortFields_eq_byName, byName_map, byName_map, byName_byName]
  | _ => rfl

end Order

variable {α β : Type} {rest rest' : List Char} {a b : Json Double}

/-- The compact text of a value as characters. -/
def chars (value : Json Double) : List Char := (value.compact Scalar.jsonText).toList

/-- The text of an item tells it from all others as far as `key` does, and where it ends. -/
def Tells (text : α → List Char) (key : α → β) (item : α) : Prop :=
  ∀ ⦃other rest rest'⦄, Ends rest → Ends rest' → text item ++ rest = text other ++ rest' →
    key item = key other ∧ rest = rest'

/-! ### Words and numbers -/

/-- What a value looks like from its first character. -/
inductive Shape where
  | atom
  | text
  | list
  | object
  deriving DecidableEq

def Shape.ofHead (c : Char) : Shape :=
  if c = '"' then .text else if c = '[' then .list else if c = '\x7b' then .object else .atom

def shape {ν : Type} : Json ν → Shape
  | .text _ => .text
  | .list _ => .list
  | .object _ => .object
  | _ => .atom

/-- A whole number among the values has not too many digits to be read. -/
def Few (value : Json Double) : Prop :=
  ∀ n, value = .int n → (Nat.toDigits 10 n.natAbs).length ≤ maxWholeDigits

theorem jsonText_finite {x : Double} (finite : x.isFinite = true) :
    Scalar.jsonText x = plainLayout.text x := by
  cases x with
  | nan => exact absurd finite (by decide)
  | infinite _ => exact absurd finite Bool.false_ne_true
  | finite => rfl

theorem jsonText_infinite (negative : Bool) :
    Scalar.jsonText (Double.infinite negative) = if negative then "-Infinity" else "Infinity" := by
  have spelled : Scalar.jsonText (Double.infinite negative) =
      if Double.infinite negative < Scalar.zero then "-Infinity" else "Infinity" := rfl
  rw [spelled]
  cases negative with
  | true =>
    have below : (-Double.limit : ℤ) < 0 := by
      have := Double.limit_pos
      omega
    rw [if_pos (Iff.mpr Double.lt_iff ⟨_, 0, rfl, Double.position?_zero, below⟩)]
    rfl
  | false =>
    rw [if_neg (Double.not_lt_of_position? rfl Double.position?_zero (Int.natCast_nonneg _))]
    rfl

/-- A word or a number is read as it was. -/
theorem readAtom_chars (atom : a.shape = .atom) (few : Few a) (ends : Ends rest) :
    readAtom (chars a ++ rest) = .ok (a, rest) := by
  unfold chars
  cases a with
  | null => exact readAtom_word .null "null" (by simp)
  | bool b =>
    cases b with
    | true => exact readAtom_word (.bool true) "true" (by simp)
    | false => exact readAtom_word (.bool false) "false" (by simp)
  | int n => exact readAtom_int (few n rfl) ends
  | real x =>
    rw [compact]
    by_cases finite : x.isFinite = true
    · rw [jsonText_finite finite]
      exact readAtom_double plainLayout finite ends
    · cases x with
      | nan => rfl
      | infinite negative =>
        rw [jsonText_infinite]
        cases negative <;> rfl
      | finite => exact absurd rfl finite
  | text s => exact absurd atom Shape.noConfusion
  | list items => exact absurd atom Shape.noConfusion
  | object fields => exact absurd atom Shape.noConfusion

theorem few_of_readAtom_chars (ends : Ends rest) {result : Json Double × List Char}
    (h : readAtom (chars a ++ rest) = .ok result) : Few a := by
  rintro n rfl
  exact few_of_readAtom ends h

/-- The digits of a whole number end where no digit follows. -/
theorem toDigits_append_inj {m n : Nat} (stops : NoDigit rest) (stops' : NoDigit rest')
    (h : Nat.toDigits 10 m ++ rest = Nat.toDigits 10 n ++ rest') : m = n ∧ rest = rest' := by
  have spans := congrArg spanDigits h
  rw [spanDigits_append (numeric_toDigits m) stops, spanDigits_append (numeric_toDigits n) stops',
    Prod.mk.injEq] at spans
  have same := congrArg ofDigits spans.1
  rw [ofDigits_toDigits, ofDigits_toDigits] at same
  exact ⟨same, spans.2⟩

theorem toString_int_append_inj {m n : Int} (stops : NoDigit rest) (stops' : NoDigit rest')
    (h : (toString m).toList ++ rest = (toString n).toList ++ rest') : m = n ∧ rest = rest' := by
  have apart (k : Nat) (cs cs' : List Char) : '-' :: cs ≠ Nat.toDigits 10 k ++ cs' := by
    intro same
    obtain ⟨c, ds, digits⟩ := List.exists_cons_of_ne_nil (Nat.toDigits_ne_nil (b := 10) (n := k))
    have digit := numeric_toDigits k c (by simp [digits])
    rw [digits, List.cons_append, List.cons.injEq] at same
    exact absurd (same.1 ▸ digit) (by decide)
  rw [toList_toString_int, toList_toString_int, List.append_assoc, List.append_assoc] at h
  by_cases negative : m < 0 <;> by_cases negative' : n < 0
  · rw [decide_eq_true negative, decide_eq_true negative'] at h
    obtain ⟨same, same'⟩ := toDigits_append_inj stops stops' (List.cons.inj h).2
    exact ⟨by omega, same'⟩
  · rw [decide_eq_true negative, decide_eq_false negative'] at h
    exact absurd h (apart _ _ _)
  · rw [decide_eq_false negative, decide_eq_true negative'] at h
    exact absurd h.symm (apart _ _ _)
  · rw [decide_eq_false negative, decide_eq_false negative'] at h
    obtain ⟨same, same'⟩ := toDigits_append_inj stops stops' h
    exact ⟨by omega, same'⟩

theorem exists_int_of_not_few (many : ¬ Few a) : ∃ n, a = .int n := by
  by_contra none
  exact many fun n whole => absurd ⟨n, whole⟩ none

/-- Words and numbers are told apart; whole numbers also where they are too long to be read. -/
theorem atom_append_inj (atom : a.shape = .atom) (atom' : b.shape = .atom) (ends : Ends rest)
    (ends' : Ends rest') (h : chars a ++ rest = chars b ++ rest') : a = b ∧ rest = rest' := by
  cases read : readAtom (chars a ++ rest) with
  | ok result =>
    have first := readAtom_chars atom (few_of_readAtom_chars ends read) ends
    have second := readAtom_chars atom' (few_of_readAtom_chars ends' (h ▸ read)) ends'
    rw [h, second, Except.ok.injEq, Prod.mk.injEq] at first
    exact ⟨first.1.symm, first.2.symm⟩
  | error cause =>
    -- Only whole numbers of too many digits are not read; they are told apart by their digits.
    obtain ⟨m, rfl⟩ : ∃ m, a = .int m := exists_int_of_not_few fun few => by
      rw [readAtom_chars atom few ends] at read
      exact absurd read (by simp)
    obtain ⟨n, rfl⟩ : ∃ n, b = .int n := exists_int_of_not_few fun few => by
      rw [h, readAtom_chars atom' few ends'] at read
      exact absurd read (by simp)
    obtain ⟨same, same'⟩ := toString_int_append_inj ends.noDigit ends'.noDigit h
    exact ⟨congrArg Json.int same, same'⟩

theorem shape_of_atom_head {c : Char} (h : c.isDigit = true ∨ c ∈ ['-', 'n', 't', 'f', 'N', 'I']) :
    Shape.ofHead c = .atom ∧ c ≠ ']' := by
  refine ⟨?_, ne_of_head h (by decide)⟩
  rw [Shape.ofHead, if_neg (ne_of_head h (by decide)), if_neg (ne_of_head h (by decide)),
    if_neg (ne_of_head h (by decide))]

/-- The shape of a value is seen from the first character of its text. -/
theorem head_chars (value : Json Double) :
    ∃ c tail, chars value = c :: tail ∧ Shape.ofHead c = value.shape ∧ c ≠ ']' := by
  have atom {value : Json Double} (atom : value.shape = .atom) (few : Few value) :
      ∃ c tail, chars value = c :: tail ∧ Shape.ofHead c = value.shape ∧ c ≠ ']' := by
    have read := readAtom_chars atom few ends_nil
    rw [List.append_nil] at read
    obtain ⟨c, tail, begins, first⟩ := head_of_readAtom read
    exact ⟨c, tail, begins, (shape_of_atom_head first).1.trans atom.symm, (shape_of_atom_head first).2⟩
  unfold chars at atom ⊢
  cases value with
  | null => exact atom rfl (by simp [Few])
  | bool b => exact atom rfl (by simp [Few])
  | real x => exact atom rfl (by simp [Few])
  | int n =>
    obtain ⟨c, ds, digit, begins, -⟩ := toList_toString_int_cons n
    rw [compact, begins]
    by_cases negative : n < 0
    · rw [decide_eq_true negative]
      exact ⟨'-', c :: ds, rfl, rfl, by decide⟩
    · rw [decide_eq_false negative]
      exact ⟨c, ds, rfl, shape_of_atom_head (.inl digit)⟩
  | text s =>
    rw [compact, toList_quote]
    exact ⟨'"', _, rfl, rfl, by decide⟩
  | list items =>
    rw [compact, String.append_assoc, String.toList_append]
    exact ⟨'[', _, rfl, rfl, by decide⟩
  | object fields =>
    rw [compact, String.append_assoc, String.toList_append]
    exact ⟨'\x7b', _, rfl, rfl, by decide⟩

theorem shape_eq_of_append (h : chars a ++ rest = chars b ++ rest') : a.shape = b.shape := by
  obtain ⟨c, tail, begins, known, -⟩ := head_chars a
  obtain ⟨c', tail', begins', known', -⟩ := head_chars b
  rw [begins, begins', List.cons_append, List.cons_append, List.cons.injEq] at h
  rw [← known, ← known', h.1]

/-! ### Texts -/

theorem quote_append_inj {s s' : String}
    (h : (quote true s).toList ++ rest = (quote true s').toList ++ rest') : s = s' ∧ rest = rest' := by
  obtain ⟨quoted, begins, read⟩ := readText_quote ⟨false, 0⟩ true s rest
  obtain ⟨quoted', begins', read'⟩ := readText_quote ⟨false, 0⟩ true s' rest'
  obtain rfl : quoted = quoted' := by
    rw [begins, begins', List.cons.injEq] at h
    exact h.2
  rw [read, Except.ok.injEq, Prod.mk.injEq] at read'
  exact read'

/-! ### Lists and objects -/

/-- What stands behind an item, up to the bracket that closes. -/
def behindItem (text : α → List Char) (closing : Char) (rest : List Char) : List α → List Char
  | [] => closing :: rest
  | item :: items => ',' :: (text item ++ behindItem text closing rest items)

/-- What stands behind the bracket that opens. -/
def withinBrackets (text : α → List Char) (closing : Char) (rest : List Char) : List α → List Char
  | [] => closing :: rest
  | item :: items => text item ++ behindItem text closing rest items

theorem toList_commaJoined (text : α → String) (closing : Char) (items : List α) :
    (commaJoined (items.map text)).toList ++ closing :: rest =
      withinBrackets (fun item => (text item).toList) closing rest items := by
  have joined (item : α) (items : List α) :
      (commaJoined ((item :: items).map text)).toList ++ closing :: rest =
        (text item).toList ++ behindItem (fun item => (text item).toList) closing rest items := by
    induction items generalizing item with
    | nil => simp [commaJoined, behindItem]
    | cons next items ih =>
      rw [behindItem, ← ih next, List.map_cons, List.map_cons, commaJoined,
        String.intercalate_cons_cons]
      simp [commaJoined]
  cases items with
  | nil => rfl
  | cons item items => exact joined item items

section Items

variable {text : α → List Char} {key : α → β} {closing : Char} {items items' : List α}

theorem ends_behindItem (brackets : closing = ']' ∨ closing = '\x7d') (items : List α) :
    Ends (behindItem text closing rest items) := by
  cases items with
  | nil => rcases brackets with rfl | rfl <;> exact ends_cons (by decide)
  | cons item items => exact ends_cons (by decide)

theorem behindItem_inj (brackets : closing = ']' ∨ closing = '\x7d')
    (told : ∀ item ∈ items, Tells text key item)
    (h : behindItem text closing rest items = behindItem text closing rest' items') :
    items.map key = items'.map key ∧ rest = rest' := by
  have apart : closing ≠ ',' := by rcases brackets with rfl | rfl <;> decide
  induction items generalizing items' with
  | nil =>
    cases items' with
    | nil => exact ⟨rfl, (List.cons.inj h).2⟩
    | cons item' items' => exact absurd (List.cons.inj h).1 apart
  | cons item items ih =>
    cases items' with
    | nil => exact absurd (List.cons.inj h).1.symm apart
    | cons item' items' =>
      obtain ⟨first, more⟩ := List.forall_mem_cons.mp told
      obtain ⟨same, h⟩ := first (ends_behindItem brackets items) (ends_behindItem brackets items')
        (List.cons.inj h).2
      obtain ⟨others, same'⟩ := ih more h
      exact ⟨by rw [List.map_cons, List.map_cons, same, others], same'⟩

/-- Where the text of each item tells it from all others, so does the text of all of them. -/
theorem withinBrackets_inj (brackets : closing = ']' ∨ closing = '\x7d')
    (opens : ∀ item, ∃ c tail, text item = c :: tail ∧ c ≠ closing)
    (told : ∀ item ∈ items, Tells text key item)
    (h : withinBrackets text closing rest items = withinBrackets text closing rest' items') :
    items.map key = items'.map key ∧ rest = rest' := by
  have apart (item : α) (cs cs' : List Char) : text item ++ cs ≠ closing :: cs' := by
    obtain ⟨c, tail, begins, other⟩ := opens item
    rw [begins]
    exact fun same => other (List.cons.inj same).1
  cases items with
  | nil =>
    cases items' with
    | nil => exact ⟨rfl, (List.cons.inj h).2⟩
    | cons item' items' => exact absurd h.symm (apart _ _ _)
  | cons item items =>
    cases items' with
    | nil => exact absurd h (apart _ _ _)
    | cons item' items' =>
      exact behindItem_inj brackets told (congrArg (List.cons ',') h)

end Items

/-- A field in the compact text of an object. -/
def fieldChars (field : String × Json Double) : List Char :=
  (quote true field.1).toList ++ ':' :: chars field.2

theorem chars_list_append (items : List (Json Double)) :
    chars (.list items) ++ rest = '[' :: withinBrackets chars ']' rest items := by
  unfold chars
  rw [compact, compactItems_eq_map, String.append_assoc, String.toList_append, String.toList_append,
    List.append_assoc, List.append_assoc]
  exact congrArg (List.cons '[') (toList_commaJoined (compact Scalar.jsonText) ']' items)

theorem chars_object_append (fields : List (String × Json Double)) :
    chars (.object fields) ++ rest = '\x7b' :: withinBrackets fieldChars '\x7d' rest (byName fields) := by
  unfold chars
  rw [compact, compactFields_eq_map, sortFields_eq_byName, byName_map, List.map_map,
    String.append_assoc, String.toList_append, String.toList_append, List.append_assoc,
    List.append_assoc]
  have written : fieldChars = fun field =>
      (((fun (name, value) => quote true name ++ ":" ++ value) ∘
        Prod.map id (compact Scalar.jsonText)) field).toList := by
    funext field
    simp [fieldChars, chars]
  rw [written]
  exact congrArg (List.cons '\x7b') (toList_commaJoined _ '\x7d' (byName fields))

/-- The text of a field tells it from all others if the text of its value does. -/
theorem tells_fieldChars {field : String × Json Double} (told : Tells chars sorted field.2) :
    Tells fieldChars (Prod.map id sorted) field := by
  intro other rest rest' ends ends' h
  unfold fieldChars at h
  rw [List.append_assoc, List.append_assoc] at h
  obtain ⟨name, h⟩ := quote_append_inj h
  obtain ⟨value, same⟩ := told ends ends' (List.cons.inj h).2
  exact ⟨Prod.ext name value, same⟩

/-- The compact text of a value tells it from all others but for the order of fields. -/
theorem tells_compact (value : Json Double) : Tells chars sorted value := by
  have atom {value : Json Double} (atom : value.shape = .atom) : Tells chars sorted value := by
    intro other rest rest' ends ends' h
    obtain ⟨same, same'⟩ := atom_append_inj atom ((shape_eq_of_append h).symm.trans atom) ends ends' h
    exact ⟨congrArg sorted same, same'⟩
  -- The other value has the same shape, since their texts begin alike.
  induction value using of_parts with
  | text s =>
    intro other rest rest' ends ends' h
    cases other with
    | text s' =>
      obtain ⟨same, same'⟩ := quote_append_inj h
      exact ⟨by rw [same], same'⟩
    | _ => exact absurd (shape_eq_of_append h) Shape.noConfusion
  | list items told =>
    intro other rest rest' ends ends' h
    cases other with
    | list items' =>
      rw [chars_list_append, chars_list_append, List.cons.injEq] at h
      have opens (item : Json Double) : ∃ c tail, chars item = c :: tail ∧ c ≠ ']' := by
        obtain ⟨c, tail, begins, -, other⟩ := head_chars item
        exact ⟨c, tail, begins, other⟩
      obtain ⟨same, same'⟩ := withinBrackets_inj (.inl rfl) opens told h.2
      rw [sorted, sorted, sortedItems_eq_map, sortedItems_eq_map, same]
      exact ⟨rfl, same'⟩
    | _ => exact absurd (shape_eq_of_append h) Shape.noConfusion
  | object fields told =>
    intro other rest rest' ends ends' h
    cases other with
    | object fields' =>
      rw [chars_object_append, chars_object_append, List.cons.injEq] at h
      have opens (field : String × Json Double) :
          ∃ c tail, fieldChars field = c :: tail ∧ c ≠ '\x7d' := by
        rw [fieldChars, toList_quote, List.cons_append]
        exact ⟨'"', _, rfl, by decide⟩
      -- The fields stand in the order of their names, in which they are compared.
      have told : ∀ field ∈ byName fields, Tells fieldChars (Prod.map id sorted) field :=
        fun field hfield => tells_fieldChars (told field ((List.mem_insertionSort _).mp hfield))
      obtain ⟨same, same'⟩ := withinBrackets_inj (.inr rfl) opens told h.2
      rw [sorted, sorted, sortedFields_eq_map, sortedFields_eq_map, byName_map, byName_map, same]
      exact ⟨rfl, same'⟩
    | _ => exact absurd (shape_eq_of_append h) Shape.noConfusion
  | _ => exact atom rfl

/-- Two values have the same compact text if and only if they are the same but for the order of fields. -/
theorem compact_eq_compact_iff :
    a.compact Scalar.jsonText = b.compact Scalar.jsonText ↔ a.sorted = b.sorted := by
  refine ⟨fun same => ?_, fun same => ?_⟩
  · refine (tells_compact a ends_nil ends_nil ?_).1
    rw [chars, chars, same]
  · rw [← compact_sorted, same, compact_sorted]

end Montage.Json
