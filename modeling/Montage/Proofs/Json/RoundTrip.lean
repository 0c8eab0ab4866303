import Montage.Proofs.Json.Quote

/-!
# What is written in JSON is read back

A value whose numbers are finite, whose names differ within each object and that is not nested too
deeply is read back from its indented form as it was: the quotes of a text are found again behind its
escapes, and the blanks between the items are passed over.

## Main definitions

* `Json.Legible` — a value whose text is read back
* `Json.Spelled` — a value that is legible but for numbers that may be too long

## Main results

* `read_indented` — a legible value is read as it was
* `eq_of_read_indented` — what is read of the text of a value is that value
-/

namespace Montage.Json

open Text

variable {dialect : Dialect} {fuel depth : Nat} {done cs rest : List Char} {c : Char}

/-! ### Values -/

mutual

/-- A value that is read back where values may be nested so deeply: its numbers are finite and have
not too many digits, and the names of an object differ. -/
def Legible (depth : Nat) : Json Double → Prop
  | .int n => (Nat.toDigits 10 n.natAbs).length ≤ maxWholeDigits
  | .real x => x.isFinite = true
  | .list items => 0 < depth ∧ LegibleItems (depth - 1) items
  | .object fields => 0 < depth ∧ (fields.map Prod.fst).Nodup ∧ LegibleFields (depth - 1) fields
  | _ => True

def LegibleItems (depth : Nat) : List (Json Double) → Prop
  | [] => True
  | item :: rest => Legible depth item ∧ LegibleItems depth rest

def LegibleFields (depth : Nat) : List (String × Json Double) → Prop
  | [] => True
  | (_, value) :: rest => Legible depth value ∧ LegibleFields depth rest

end

mutual

/-- A value that is read back if it is read at all, where values may be nested so deeply: its numbers
are finite, but may have too many digits, and the names of an object differ. -/
def Spelled (depth : Nat) : Json Double → Prop
  | .real x => x.isFinite = true
  | .list items => 0 < depth ∧ SpelledItems (depth - 1) items
  | .object fields => 0 < depth ∧ (fields.map Prod.fst).Nodup ∧ SpelledFields (depth - 1) fields
  | _ => True

def SpelledItems (depth : Nat) : List (Json Double) → Prop
  | [] => True
  | item :: rest => Spelled depth item ∧ SpelledItems depth rest

def SpelledFields (depth : Nat) : List (String × Json Double) → Prop
  | [] => True
  | (_, value) :: rest => Spelled depth value ∧ SpelledFields depth rest

end

/-- A word or a number begins with one of its characters. -/
theorem head_of_readAtom {result : Json Double × List Char} (h : readAtom cs = .ok result) :
    ∃ c tail, cs = c :: tail ∧ (c.isDigit = true ∨ c ∈ ['-', 'n', 't', 'f', 'N', 'I']) := by
  unfold readAtom at h
  dsimp only at h
  split at h
  · next found hfound =>
    obtain ⟨entry, hentry, reads⟩ := List.exists_of_findSome?_eq_some hfound
    obtain ⟨_, after, -⟩ := Option.map_eq_some_iff.mp reads
    have isPrefix : entry.1.toList <+: cs := by
      by_contra other
      rw [afterWord?_eq_none other] at after
      exact absurd after (by simp)
    obtain ⟨tail, rfl⟩ := isPrefix
    simp only [List.mem_cons, List.not_mem_nil, or_false] at hentry
    rcases hentry with rfl | rfl | rfl | rfl | rfl | rfl <;> exact ⟨_, _, rfl, .inr (by decide)⟩
  · split at h
    · exact ⟨_, _, rfl, .inr (by decide)⟩
    · obtain ⟨c, tail, rfl, digit⟩ := exists_digit_of_readNumber h
      exact ⟨c, tail, rfl, .inl digit⟩

theorem ne_of_head {c d : Char} (h : c.isDigit = true ∨ c ∈ ['-', 'n', 't', 'f', 'N', 'I'])
    (other : ¬ (d.isDigit = true ∨ d ∈ ['-', 'n', 't', 'f', 'N', 'I'])) : c ≠ d :=
  fun same => other (same ▸ h)

theorem readValue_eq_readAtom {c : Char} (first : c.isDigit = true ∨ c ∈ ['-', 'n', 't', 'f', 'N', 'I']) :
    readValue dialect (fuel + 1) depth (c :: cs) = readAtom (c :: cs) := by
  rw [readValue]
  · exact fun _ heq => ne_of_head first (by decide) (List.cons.inj heq).1
  · exact fun _ heq => ne_of_head first (by decide) (List.cons.inj heq).1
  · exact fun _ heq => ne_of_head first (by decide) (List.cons.inj heq).1

theorem readValue_atom {result : Json Double × List Char} (h : readAtom cs = .ok result)
    (fuelled : 0 < fuel) : readValue dialect fuel depth cs = .ok result := by
  obtain ⟨c, tail, rfl, first⟩ := head_of_readAtom h
  obtain ⟨fuel, rfl⟩ : ∃ n, fuel = n + 1 := Nat.exists_eq_succ_of_ne_zero (by omega)
  exact (readValue_eq_readAtom first).trans h

/-- What is read as a value begins neither with a blank nor with a bracket that closes. -/
theorem head_of_readValue {result : Json Double × List Char}
    (h : readValue dialect fuel depth cs = .ok result) :
    ∃ c tail, cs = c :: tail ∧ isSpace c = false ∧ c ≠ ']' := by
  cases fuel with
  | zero => exact absurd h (by simp [readValue])
  | succ fuel =>
    unfold readValue at h
    split at h
    · exact ⟨_, _, rfl, by decide, by decide⟩
    · exact ⟨_, _, rfl, by decide, by decide⟩
    · exact ⟨_, _, rfl, by decide, by decide⟩
    · obtain ⟨c, tail, rfl, first⟩ := head_of_readAtom h
      refine ⟨c, tail, rfl, ?_, ne_of_head first (by decide)⟩
      have blanks : c ≠ ' ' ∧ c ≠ '\t' ∧ c ≠ '\n' ∧ c ≠ '\r' :=
        ⟨ne_of_head first (by decide), ne_of_head first (by decide), ne_of_head first (by decide),
          ne_of_head first (by decide)⟩
      simp [isSpace, blanks]

/-! ### Lists and objects on lines -/

theorem skipSpace_cons {c : Char} (h : isSpace c = false) : skipSpace (c :: cs) = c :: cs := by
  simp [skipSpace, h]

theorem skipSpace_newLine (indent : Nat) (cs : List Char) :
    skipSpace ((newLine indent).toList ++ cs) = skipSpace cs := by
  have blank : ∀ c ∈ (newLine indent).toList, isSpace c = true := by
    intro c hc
    rw [newLine, String.toList_append, String.toList_ofList, String.toList_ofList] at hc
    rcases List.mem_append.mp hc with line | space
    · obtain rfl : c = '\n' := by simpa using line
      decide
    · rw [List.eq_of_mem_replicate space]
      decide
  exact List.dropWhile_append_of_pos blank

/-- What stands behind an item on a line of its own, up to the bracket that closes. -/
def behind (indent : Nat) (closing : Char) (rest : List Char) : List String → List Char
  | [] => (newLine indent).toList ++ closing :: rest
  | item :: items => ',' ::
      ((newLine (indent + 1)).toList ++ (item.toList ++ behind indent closing rest items))

theorem ends_behind {indent : Nat} {closing : Char} (items : List String) :
    Ends (behind indent closing rest items) := by
  cases items with
  | nil =>
    rw [behind, newLine, String.toList_append]
    exact ends_cons (by decide)
  | cons item items => exact ends_cons (by decide)

theorem toList_bracketed (opening closing : Char) (indent : Nat) (item : String)
    (items : List String) (rest : List Char) :
    (bracketed (String.singleton opening) (String.singleton closing) indent (item :: items)).toList ++
        rest =
      opening ::
        ((newLine (indent + 1)).toList ++ (item.toList ++ behind indent closing rest items)) := by
  have joined (item : String) (items : List String) :
      (commaJoined ((item :: items).map (newLine (indent + 1) ++ ·))).toList ++
        ((newLine indent).toList ++ closing :: rest) =
      (newLine (indent + 1)).toList ++ (item.toList ++ behind indent closing rest items) := by
    induction items generalizing item with
    | nil => simp [commaJoined, behind]
    | cons next items ih =>
      rw [behind, ← ih next, List.map_cons, List.map_cons, commaJoined, String.intercalate_cons_cons]
      simp [commaJoined]
  rw [bracketed, if_neg (by simp)]
  simp only [String.toList_append, String.toList_singleton, List.append_assoc, List.singleton_append]
  rw [← joined]
  simp

theorem length_bracketed (opening closing : Char) (indent : Nat) (item : String)
    (items : List String) : item.toList.length + (behind indent closing [] items).length + 2 ≤
      (bracketed (String.singleton opening) (String.singleton closing) indent
        (item :: items)).toList.length := by
  have whole := congrArg List.length (toList_bracketed opening closing indent item items [])
  have line : 0 < (newLine (indent + 1)).toList.length := by
    rw [newLine, String.toList_append, List.length_append]
    exact Nat.lt_add_right _ Nat.one_pos
  rw [List.append_nil, List.length_cons, List.length_append, List.length_append] at whole
  omega

/-- The rest of a list behind an item. -/
def afterItem (dialect : Dialect) (fuel depth : Nat) (done : List (Json Double)) (cs : List Char) :
    ReadResult (Json Double) :=
  match skipSpace cs with
  | ',' :: rest => readItems dialect fuel depth done (skipSpace rest)
  | ']' :: rest => .ok (.list done.reverse, rest)
  | _ => .error .malformed

/-- The rest of an object behind a field. -/
def afterField (dialect : Dialect) (fuel depth : Nat) (done : List (String × Json Double))
    (cs : List Char) : ReadResult (Json Double) :=
  match skipSpace cs with
  | ',' :: rest => readFields dialect fuel depth done (skipSpace rest)
  | '\x7d' :: rest => .ok (.object done, rest)
  | _ => .error .malformed

theorem readItems_of_readValue {done : List (Json Double)} {item : Json Double}
    (h : readValue dialect fuel depth cs = .ok (item, rest)) :
    readItems dialect (fuel + 1) depth done cs = afterItem dialect fuel depth (item :: done) rest := by
  rw [readItems, h]
  rfl

theorem readFields_of_readValue (done : List (String × Json Double)) {value : Json Double}
    (name : String) (h : readValue dialect fuel depth cs = .ok (value, rest)) :
    readFields dialect (fuel + 1) depth done ((quote false name ++ ": ").toList ++ cs) =
      afterField dialect fuel depth (insertField name value done) rest := by
  obtain ⟨c, tail, rfl, solid, -⟩ := head_of_readValue h
  obtain ⟨quoted, begins, read⟩ := readText_quote dialect false name (':' :: ' ' :: c :: tail)
  have whole : (quote false name ++ ": ").toList ++ c :: tail = '"' :: quoted := by
    rw [← begins, String.toList_append, List.append_assoc]
    rfl
  have colon : skipSpace (':' :: ' ' :: c :: tail) = ':' :: ' ' :: c :: tail := rfl
  have blank : skipSpace (' ' :: c :: tail) = c :: tail := by
    simp [skipSpace, solid, show isSpace ' ' = true from rfl]
  rw [whole, readFields, read]
  simp only [colon, blank, h]
  rfl

theorem afterItem_end (indent : Nat) {done : List (Json Double)} :
    afterItem dialect fuel depth done (behind indent ']' rest []) = .ok (.list done.reverse, rest) := by
  rw [afterItem, behind, skipSpace_newLine]
  rfl

theorem afterItem_next (indent : Nat) {done : List (Json Double)} {item : String}
    {items : List String} {value : Json Double}
    (h : readValue dialect fuel depth (item.toList ++ behind indent ']' rest items) =
      .ok (value, behind indent ']' rest items)) :
    afterItem dialect (fuel + 1) depth done (behind indent ']' rest (item :: items)) =
      afterItem dialect fuel depth (value :: done) (behind indent ']' rest items) := by
  obtain ⟨c, tail, begins, solid, -⟩ := head_of_readValue h
  rw [← readItems_of_readValue h, afterItem, behind, skipSpace_cons (by decide)]
  simp only [skipSpace_newLine, begins, skipSpace_cons solid]

theorem insertField_of_fresh {name : String} {value : Json Double}
    {fields : List (String × Json Double)} (fresh : name ∉ fields.map Prod.fst) :
    insertField name value fields = fields ++ [(name, value)] := by
  induction fields with
  | nil => rfl
  | cons field fields ih =>
    rw [List.map_cons, List.mem_cons, not_or] at fresh
    rw [insertField, if_neg (Ne.symm fresh.1), ih fresh.2, List.cons_append]

theorem afterField_end (indent : Nat) {done : List (String × Json Double)} :
    afterField dialect fuel depth done (behind indent '\x7d' rest []) = .ok (.object done, rest) := by
  rw [afterField, behind, skipSpace_newLine]
  rfl

theorem skipSpace_quote (name : String) (cs : List Char) :
    skipSpace ((quote false name ++ ": ").toList ++ cs) = (quote false name ++ ": ").toList ++ cs := by
  rw [String.toList_append, toList_quote, List.cons_append, List.cons_append]
  exact skipSpace_cons (by decide)

theorem afterField_next (indent : Nat) {done : List (String × Json Double)} {name item : String}
    {items : List String} {value : Json Double}
    (h : readValue dialect fuel depth (item.toList ++ behind indent '\x7d' rest items) =
      .ok (value, behind indent '\x7d' rest items)) :
    afterField dialect (fuel + 1) depth done
        (behind indent '\x7d' rest ((quote false name ++ ": " ++ item) :: items)) =
      afterField dialect fuel depth (insertField name value done)
        (behind indent '\x7d' rest items) := by
  rw [← readFields_of_readValue done name h, afterField, behind, skipSpace_cons (by decide)]
  simp only [skipSpace_newLine]
  rw [String.toList_append, List.append_assoc, skipSpace_quote]

/-- A list that is not empty is read from its first item on. -/
theorem readValue_list {indent : Nat} {item : String} {items : List String} {value : Json Double}
    (deep : 0 < depth)
    (h : readValue dialect fuel (depth - 1) (item.toList ++ behind indent ']' rest items) =
      .ok (value, behind indent ']' rest items)) :
    readValue dialect (fuel + 2) depth ((bracketed "[" "]" indent (item :: items)).toList ++ rest) =
      afterItem dialect fuel (depth - 1) [value] (behind indent ']' rest items) := by
  obtain ⟨c, tail, begins, solid, opens⟩ := head_of_readValue h
  have whole := toList_bracketed '[' ']' indent item items rest
  rw [show String.singleton '[' = "[" from rfl, show String.singleton ']' = "]" from rfl] at whole
  rw [whole, ← readItems_of_readValue h, readValue, if_neg (Nat.ne_of_gt deep), skipSpace_newLine,
    begins, skipSpace_cons solid]
  split
  · next heq => exact absurd (List.cons.inj heq).1 opens
  · rfl

/-- An object that is not empty is read from its first field on. -/
theorem readValue_object {indent : Nat} {name item : String} {items : List String}
    {value : Json Double} (deep : 0 < depth)
    (h : readValue dialect fuel (depth - 1) (item.toList ++ behind indent '\x7d' rest items) =
      .ok (value, behind indent '\x7d' rest items)) :
    readValue dialect (fuel + 2) depth
        ((bracketed "\x7b" "\x7d" indent ((quote false name ++ ": " ++ item) :: items)).toList ++ rest) =
      afterField dialect fuel (depth - 1) [(name, value)] (behind indent '\x7d' rest items) := by
  have whole :=
    toList_bracketed '\x7b' '\x7d' indent (quote false name ++ ": " ++ item) items rest
  rw [show String.singleton '\x7b' = "\x7b" from rfl, show String.singleton '\x7d' = "\x7d" from rfl,
    String.toList_append, List.append_assoc] at whole
  have begins := readFields_of_readValue [] name h
  rw [insertField] at begins
  rw [whole, ← begins, readValue, if_neg (Nat.ne_of_gt deep), skipSpace_newLine, skipSpace_quote]
  split
  · next heq =>
    rw [String.toList_append, toList_quote] at heq
    exact absurd (List.cons.inj heq).1 (by decide)
  · rfl

/-! ### Every legible value -/

theorem readAtom_word (value : Json Double) (word : String)
    (h : (word, value) ∈ [("null", .null), ("true", .bool true), ("false", .bool false)]) :
    readAtom (word.toList ++ rest) = .ok (value, rest) := by
  simp only [List.mem_cons, List.not_mem_nil, or_false, Prod.mk.injEq] at h
  rcases h with ⟨rfl, rfl⟩ | ⟨rfl, rfl⟩ | ⟨rfl, rfl⟩ <;> rfl

theorem readValue_quote (s : String) (fuelled : 0 < fuel) :
    readValue dialect fuel depth ((quote false s).toList ++ rest) = .ok (.text s, rest) := by
  obtain ⟨fuel, rfl⟩ : ∃ n, fuel = n + 1 := Nat.exists_eq_succ_of_ne_zero (by omega)
  obtain ⟨quoted, begins, read⟩ := readText_quote dialect false s rest
  rw [begins, readValue, read]

theorem readValue_empty (deep : 0 < depth) (fuelled : 0 < fuel) :
    readValue dialect fuel depth ("[]".toList ++ rest) = .ok (.list [], rest) ∧
      readValue dialect fuel depth ("\x7b\x7d".toList ++ rest) = .ok (.object [], rest) := by
  obtain ⟨fuel, rfl⟩ : ∃ n, fuel = n + 1 := Nat.exists_eq_succ_of_ne_zero (by omega)
  obtain ⟨depth, rfl⟩ : ∃ n, depth = n + 1 := Nat.exists_eq_succ_of_ne_zero (by omega)
  exact ⟨rfl, rfl⟩

section Reading

/-- A finite number is written in a layout. -/
def WritesFinite (number : Double → String) (layout : DoubleLayout) : Prop :=
  ∀ x, x.isFinite = true → number x = layout.text x

variable {layout : DoubleLayout} {number : Double → String}

mutual

/-- A legible value is read as it was, whatever stands behind it. -/
theorem readValue_indented (written : WritesFinite number layout) (value : Json Double)
    (indent fuel depth : Nat) (rest : List Char) (legible : Legible depth value) (ends : Ends rest)
    (room : 2 * (value.indented number indent).toList.length < fuel) :
    readValue dialect fuel depth ((value.indented number indent).toList ++ rest) =
      .ok (value, rest) := by
  have fuelled : 0 < fuel := by omega
  match value with
  | .null => exact readValue_atom (readAtom_word .null "null" (by simp)) fuelled
  | .bool true => exact readValue_atom (readAtom_word (.bool true) "true" (by simp)) fuelled
  | .bool false => exact readValue_atom (readAtom_word (.bool false) "false" (by simp)) fuelled
  | .int n => exact readValue_atom (readAtom_int legible ends) fuelled
  | .real x =>
    rw [indented, written x legible]
    exact readValue_atom (readAtom_double layout legible ends) fuelled
  | .text s => exact readValue_quote s fuelled
  | .list [] => exact (readValue_empty legible.1 fuelled).1
  | .list (item :: items) =>
    obtain ⟨deep, legible, legible'⟩ := legible
    rw [indented, indentedItems] at room ⊢
    have size := length_bracketed '[' ']' indent (item.indented number (indent + 1))
      (indentedItems number (indent + 1) items)
    rw [show String.singleton '[' = "[" from rfl, show String.singleton ']' = "]" from rfl] at size
    obtain ⟨fuel, rfl⟩ : ∃ n, fuel = n + 2 := Nat.exists_eq_add_of_le' (by omega)
    rw [readValue_list deep
        (readValue_indented written item (indent + 1) fuel _ _ legible (ends_behind _) (by omega)),
      afterItem_indented written items indent fuel _ rest _ legible' (by omega)]
    rfl
  | .object [] => exact (readValue_empty legible.1 fuelled).2
  | .object ((name, value) :: fields) =>
    obtain ⟨deep, distinct, legible, legible'⟩ := legible
    rw [indented, indentedFields] at room ⊢
    have size := length_bracketed '\x7b' '\x7d' indent
      (quote false name ++ ": " ++ value.indented number (indent + 1))
      (indentedFields number (indent + 1) fields)
    rw [String.toList_append, List.length_append, show String.singleton '\x7b' = "\x7b" from rfl,
      show String.singleton '\x7d' = "\x7d" from rfl] at size
    obtain ⟨fuel, rfl⟩ : ∃ n, fuel = n + 2 := Nat.exists_eq_add_of_le' (by omega)
    rw [readValue_object deep
        (readValue_indented written value (indent + 1) fuel _ _ legible (ends_behind _) (by omega)),
      afterField_indented written fields indent fuel _ rest _ legible' distinct (by omega)]
    rfl

theorem afterItem_indented (written : WritesFinite number layout) (items : List (Json Double))
    (indent fuel depth : Nat) (rest : List Char) (done : List (Json Double))
    (legible : LegibleItems depth items)
    (room : 2 * (behind indent ']' [] (indentedItems number (indent + 1) items)).length < fuel) :
    afterItem dialect fuel depth done
        (behind indent ']' rest (indentedItems number (indent + 1) items)) =
      .ok (.list (done.reverse ++ items), rest) := by
  match items with
  | [] => exact (afterItem_end indent).trans (by rw [List.append_nil])
  | item :: items =>
    obtain ⟨legible, legible'⟩ := legible
    obtain ⟨fuel, rfl⟩ : ∃ n, fuel = n + 1 := Nat.exists_eq_succ_of_ne_zero (by omega)
    rw [indentedItems, behind, List.length_cons, List.length_append, List.length_append] at room
    rw [indentedItems, afterItem_next indent
      (readValue_indented written item (indent + 1) fuel depth _ legible (ends_behind _) (by omega)),
      afterItem_indented written items indent fuel depth rest _ legible' (by omega)]
    simp

theorem afterField_indented (written : WritesFinite number layout)
    (fields : List (String × Json Double)) (indent fuel depth : Nat) (rest : List Char)
    (done : List (String × Json Double)) (legible : LegibleFields depth fields)
    (distinct : ((done ++ fields).map Prod.fst).Nodup)
    (room : 2 * (behind indent '\x7d' [] (indentedFields number (indent + 1) fields)).length < fuel) :
    afterField dialect fuel depth done
        (behind indent '\x7d' rest (indentedFields number (indent + 1) fields)) =
      .ok (.object (done ++ fields), rest) := by
  match fields with
  | [] => exact (afterField_end indent).trans (by rw [List.append_nil])
  | (name, value) :: fields =>
    obtain ⟨legible, legible'⟩ := legible
    obtain ⟨fuel, rfl⟩ : ∃ n, fuel = n + 1 := Nat.exists_eq_succ_of_ne_zero (by omega)
    have fresh : name ∉ done.map Prod.fst := by
      rw [List.map_append, List.nodup_append] at distinct
      exact fun h => distinct.2.2 name h name (by simp) rfl
    rw [indentedFields, behind, List.length_cons, List.length_append, List.length_append,
      String.toList_append, List.length_append] at room
    rw [indentedFields, afterField_next indent
        (readValue_indented written value (indent + 1) fuel depth _ legible (ends_behind _) (by omega)),
      insertField_of_fresh fresh,
      afterField_indented written fields indent fuel depth rest _ legible' (by simpa using distinct)
        (by omega)]
    simp

end

/-! ### Values with numbers that may be too long -/

theorem toList_bracketed_cons (opening : Char) (closing : String) (indent : Nat)
    (items : List String) :
    ∃ tail, (bracketed (String.singleton opening) closing indent items).toList = opening :: tail := by
  unfold bracketed
  split
  · exact ⟨_, by rw [String.toList_append, String.toList_singleton, List.singleton_append]⟩
  · exact ⟨_, by rw [String.append_assoc, String.append_assoc, String.toList_append,
      String.toList_singleton, List.singleton_append]⟩

/-- The text of a value begins neither with a blank nor with a bracket that closes. -/
theorem head_of_indented (written : WritesFinite number layout) {value : Json Double}
    (spelled : Spelled depth value) (indent : Nat) :
    ∃ c tail, (value.indented number indent).toList = c :: tail ∧ isSpace c = false ∧ c ≠ ']' := by
  have atom {cs : List Char} {result : Json Double × List Char} (h : readAtom cs = .ok result) :
      ∃ c tail, cs = c :: tail ∧ isSpace c = false ∧ c ≠ ']' :=
    have read : readValue ⟨false, 0⟩ 1 0 cs = .ok result := readValue_atom h Nat.one_pos
    head_of_readValue read
  cases value with
  | null =>
    rw [indented]
    exact ⟨'n', ['u', 'l', 'l'], rfl, by decide, by decide⟩
  | bool b =>
    rw [indented]
    cases b with
    | false => exact ⟨'f', ['a', 'l', 's', 'e'], rfl, by decide, by decide⟩
    | true => exact ⟨'t', ['r', 'u', 'e'], rfl, by decide, by decide⟩
  | int n =>
    obtain ⟨c, ds, digit, digits, -⟩ := toList_toString_int_cons n
    rw [indented, digits]
    by_cases negative : n < 0
    · rw [decide_eq_true negative]
      exact ⟨'-', c :: ds, rfl, by decide, by decide⟩
    · rw [decide_eq_false negative]
      have blanks : c ≠ ' ' ∧ c ≠ '\t' ∧ c ≠ '\n' ∧ c ≠ '\r' :=
        ⟨ne_of_head (.inl digit) (by decide), ne_of_head (.inl digit) (by decide),
          ne_of_head (.inl digit) (by decide), ne_of_head (.inl digit) (by decide)⟩
      exact ⟨c, ds, rfl, by simp [isSpace, blanks], ne_of_head (.inl digit) (by decide)⟩
  | real x =>
    have read := readAtom_double layout spelled ends_nil
    rw [List.append_nil] at read
    rw [indented, written x spelled]
    exact atom read
  | text s =>
    rw [indented, toList_quote]
    exact ⟨'"', _, rfl, by decide, by decide⟩
  | list items =>
    rw [indented]
    obtain ⟨tail, begins⟩ := toList_bracketed_cons '[' "]" indent (indentedItems number (indent + 1) items)
    exact ⟨'[', tail, begins, by decide, by decide⟩
  | object fields =>
    rw [indented]
    obtain ⟨tail, begins⟩ :=
      toList_bracketed_cons '\x7b' "\x7d" indent (indentedFields number (indent + 1) fields)
    exact ⟨'\x7b', tail, begins, by decide, by decide⟩

/-- A list that is read goes on behind its next item. -/
theorem readItems_eq_ok (written : WritesFinite number layout) {item : Json Double}
    {items : List String} {indent : Nat} {done : List (Json Double)} {result : Json Double × List Char}
    (legible : ∀ result, readValue dialect fuel depth ((item.indented number (indent + 1)).toList ++
      behind indent ']' rest items) = .ok result → Legible depth item)
    (room : 2 * (item.indented number (indent + 1)).toList.length < fuel)
    (h : readItems dialect (fuel + 1) depth done ((item.indented number (indent + 1)).toList ++
      behind indent ']' rest items) = .ok result) :
    Legible depth item ∧
      afterItem dialect fuel depth (item :: done) (behind indent ']' rest items) = .ok result := by
  cases first : readValue dialect fuel depth ((item.indented number (indent + 1)).toList ++
      behind indent ']' rest items) with
  | error cause =>
    rw [readItems, first] at h
    exact absurd h (by simp)
  | ok read =>
    have known : readValue dialect fuel depth ((item.indented number (indent + 1)).toList ++
        behind indent ']' rest items) = .ok (item, behind indent ']' rest items) :=
      readValue_indented written item (indent + 1) fuel depth _ (legible _ first) (ends_behind _) room
    exact ⟨legible _ first, (readItems_of_readValue known).symm.trans h⟩

/-- An object that is read goes on behind its next field. -/
theorem readFields_eq_ok (written : WritesFinite number layout) (name : String) {value : Json Double}
    {items : List String} {indent : Nat} {done : List (String × Json Double)}
    {result : Json Double × List Char} (spelled : Spelled depth value)
    (legible : ∀ result, readValue dialect fuel depth ((value.indented number (indent + 1)).toList ++
      behind indent '\x7d' rest items) = .ok result → Legible depth value)
    (room : 2 * (value.indented number (indent + 1)).toList.length < fuel)
    (h : readFields dialect (fuel + 1) depth done ((quote false name ++ ": ").toList ++
      ((value.indented number (indent + 1)).toList ++ behind indent '\x7d' rest items)) = .ok result) :
    Legible depth value ∧ afterField dialect fuel depth (insertField name value done)
      (behind indent '\x7d' rest items) = .ok result := by
  set cs := (value.indented number (indent + 1)).toList ++ behind indent '\x7d' rest items with hcs
  cases first : readValue dialect fuel depth cs with
  | ok read =>
    have known : readValue dialect fuel depth cs = .ok (value, behind indent '\x7d' rest items) :=
      readValue_indented written value (indent + 1) fuel depth _ (legible _ first) (ends_behind _) room
    exact ⟨legible _ first, (readFields_of_readValue done name known).symm.trans h⟩
  | error cause =>
    obtain ⟨c, tail, begins, solid, -⟩ := head_of_indented written spelled (indent + 1)
    obtain ⟨quoted, whole, read⟩ := readText_quote dialect false name (':' :: ' ' :: cs)
    have text : (quote false name ++ ": ").toList ++ cs = '"' :: quoted := by
      rw [← whole, String.toList_append, List.append_assoc]
      rfl
    have colon : skipSpace (':' :: ' ' :: cs) = ':' :: ' ' :: cs := rfl
    have blank : skipSpace (' ' :: cs) = cs := by
      rw [hcs, begins]
      simp [skipSpace, solid, show isSpace ' ' = true from rfl]
    rw [text, readFields, read] at h
    simp only [colon, blank, first] at h
    exact absurd h (by simp)

mutual

/-- What is read has no number that is too long. -/
theorem legible_of_readValue (written : WritesFinite number layout) (value : Json Double)
    (indent fuel depth : Nat) (rest : List Char) {result : Json Double × List Char}
    (spelled : Spelled depth value) (ends : Ends rest)
    (room : 2 * (value.indented number indent).toList.length < fuel)
    (h : readValue dialect fuel depth ((value.indented number indent).toList ++ rest) = .ok result) :
    Legible depth value := by
  obtain ⟨fuel, rfl⟩ : ∃ n, fuel = n + 1 := Nat.exists_eq_succ_of_ne_zero (by omega)
  match value with
  | .null => exact trivial
  | .bool _ => exact trivial
  | .text _ => exact trivial
  | .real x => exact spelled
  | .int n =>
    rw [indented] at h
    refine few_of_readAtom ends (.trans ?_ h)
    obtain ⟨c, ds, digit, digits, -⟩ := toList_toString_int_cons n
    rw [digits]
    by_cases negative : n < 0
    · rw [decide_eq_true negative]
      exact (readValue_eq_readAtom (.inr (by decide))).symm
    · rw [decide_eq_false negative]
      exact (readValue_eq_readAtom (.inl digit)).symm
  | .list [] => exact ⟨spelled.1, trivial⟩
  | .list (item :: items) =>
    obtain ⟨deep, spelled, spelled'⟩ := spelled
    obtain ⟨c, tail, begins, solid, opens⟩ := head_of_indented written spelled (indent + 1)
    rw [indented, indentedItems] at room h
    have size := length_bracketed '[' ']' indent (item.indented number (indent + 1))
      (indentedItems number (indent + 1) items)
    have whole := toList_bracketed '[' ']' indent (item.indented number (indent + 1))
      (indentedItems number (indent + 1) items) rest
    rw [show String.singleton '[' = "[" from rfl, show String.singleton ']' = "]" from rfl] at size whole
    obtain ⟨fuel, rfl⟩ : ∃ n, fuel = n + 1 := Nat.exists_eq_succ_of_ne_zero (by omega)
    rw [whole, readValue, if_neg (Nat.ne_of_gt deep), skipSpace_newLine, begins, List.cons_append,
      skipSpace_cons solid] at h
    have listed : readItems dialect (fuel + 1) (depth - 1) []
        ((item.indented number (indent + 1)).toList ++
          behind indent ']' rest (indentedItems number (indent + 1) items)) = .ok result := by
      rw [begins, List.cons_append]
      split at h
      · next heq => exact absurd (List.cons.inj heq).1 opens
      · exact h
    obtain ⟨legible, others⟩ := readItems_eq_ok written (fun _ read =>
      legible_of_readValue written item (indent + 1) fuel (depth - 1) _ spelled (ends_behind _)
        (by omega) read) (by omega) listed
    exact ⟨deep, legible, legible_of_afterItem written items indent fuel (depth - 1) rest _ spelled'
      (by omega) others⟩
  | .object [] => exact ⟨spelled.1, List.nodup_nil, trivial⟩
  | .object ((name, value) :: fields) =>
    obtain ⟨deep, distinct, spelled, spelled'⟩ := spelled
    rw [indented, indentedFields] at room h
    have size := length_bracketed '\x7b' '\x7d' indent
      (quote false name ++ ": " ++ value.indented number (indent + 1))
      (indentedFields number (indent + 1) fields)
    have whole := toList_bracketed '\x7b' '\x7d' indent
      (quote false name ++ ": " ++ value.indented number (indent + 1))
      (indentedFields number (indent + 1) fields) rest
    rw [String.toList_append, List.length_append, show String.singleton '\x7b' = "\x7b" from rfl,
      show String.singleton '\x7d' = "\x7d" from rfl] at size
    rw [show String.singleton '\x7b' = "\x7b" from rfl, show String.singleton '\x7d' = "\x7d" from rfl,
      String.toList_append, List.append_assoc] at whole
    obtain ⟨fuel, rfl⟩ : ∃ n, fuel = n + 1 := Nat.exists_eq_succ_of_ne_zero (by omega)
    rw [whole, readValue, if_neg (Nat.ne_of_gt deep), skipSpace_newLine, skipSpace_quote] at h
    have listed : readFields dialect (fuel + 1) (depth - 1) [] ((quote false name ++ ": ").toList ++
        ((value.indented number (indent + 1)).toList ++
          behind indent '\x7d' rest (indentedFields number (indent + 1) fields))) = .ok result := by
      split at h
      · next heq =>
        rw [String.toList_append, toList_quote] at heq
        exact absurd (List.cons.inj heq).1 (by decide)
      · exact h
    obtain ⟨legible, others⟩ := readFields_eq_ok written name spelled (fun _ read =>
      legible_of_readValue written value (indent + 1) fuel (depth - 1) _ spelled (ends_behind _)
        (by omega) read) (by omega) listed
    exact ⟨deep, distinct, legible, legible_of_afterField written fields indent fuel (depth - 1) rest _
      spelled' (by omega) others⟩

theorem legible_of_afterItem (written : WritesFinite number layout) (items : List (Json Double))
    (indent fuel depth : Nat) (rest : List Char) (done : List (Json Double))
    {result : Json Double × List Char} (spelled : SpelledItems depth items)
    (room : 2 * (behind indent ']' [] (indentedItems number (indent + 1) items)).length < fuel)
    (h : afterItem dialect fuel depth done
      (behind indent ']' rest (indentedItems number (indent + 1) items)) = .ok result) :
    LegibleItems depth items := by
  match items with
  | [] => exact trivial
  | item :: items =>
    obtain ⟨spelled, spelled'⟩ := spelled
    obtain ⟨c, tail, begins, solid, -⟩ := head_of_indented written spelled (indent + 1)
    rw [indentedItems, behind, List.length_cons, List.length_append, List.length_append] at room
    obtain ⟨fuel, rfl⟩ : ∃ n, fuel = n + 1 := Nat.exists_eq_succ_of_ne_zero (by omega)
    rw [indentedItems, afterItem, behind, skipSpace_cons (by decide)] at h
    simp only [skipSpace_newLine, begins, List.cons_append, skipSpace_cons solid] at h
    rw [← List.cons_append, ← begins] at h
    obtain ⟨legible, others⟩ := readItems_eq_ok written (fun _ read =>
      legible_of_readValue written item (indent + 1) fuel depth _ spelled (ends_behind _) (by omega)
        read) (by omega) h
    exact ⟨legible, legible_of_afterItem written items indent fuel depth rest _ spelled' (by omega)
      others⟩

theorem legible_of_afterField (written : WritesFinite number layout)
    (fields : List (String × Json Double)) (indent fuel depth : Nat) (rest : List Char)
    (done : List (String × Json Double)) {result : Json Double × List Char}
    (spelled : SpelledFields depth fields)
    (room : 2 * (behind indent '\x7d' [] (indentedFields number (indent + 1) fields)).length < fuel)
    (h : afterField dialect fuel depth done
      (behind indent '\x7d' rest (indentedFields number (indent + 1) fields)) = .ok result) :
    LegibleFields depth fields := by
  match fields with
  | [] => exact trivial
  | (name, value) :: fields =>
    obtain ⟨spelled, spelled'⟩ := spelled
    rw [indentedFields, behind, List.length_cons, List.length_append, List.length_append,
      String.toList_append, List.length_append] at room
    obtain ⟨fuel, rfl⟩ : ∃ n, fuel = n + 1 := Nat.exists_eq_succ_of_ne_zero (by omega)
    rw [indentedFields, afterField, behind, skipSpace_cons (by decide)] at h
    simp only [skipSpace_newLine] at h
    rw [String.toList_append, List.append_assoc, skipSpace_quote] at h
    obtain ⟨legible, others⟩ := readFields_eq_ok written name spelled (fun _ read =>
      legible_of_readValue written value (indent + 1) fuel depth _ spelled (ends_behind _) (by omega)
        read) (by omega) h
    exact ⟨legible, legible_of_afterField written fields indent fuel depth rest _ spelled' (by omega)
      others⟩

end

/-- A legible value is read as it was. -/
theorem read_indented (written : WritesFinite number layout) {value : Json Double}
    (legible : Legible dialect.maxDepth value) :
    read dialect (value.indented number 0) = .ok value := by
  have whole : readValue dialect (2 * (value.indented number 0).toList.length + 2) dialect.maxDepth
      ((value.indented number 0).toList ++ []) = .ok (value, []) :=
    readValue_indented written value 0 _ _ [] legible ends_nil (by omega)
  rw [List.append_nil] at whole
  obtain ⟨c, tail, begins, solid, -⟩ := head_of_readValue whole
  have start : skipSpace (value.indented number 0).toList = (value.indented number 0).toList := by
    rw [begins, skipSpace_cons solid]
  unfold read
  dsimp only
  rw [start, whole]
  rfl

/-- A value that is read at all is read as it was. -/
theorem eq_of_read_indented (written : WritesFinite number layout) {value other : Json Double}
    (spelled : Spelled dialect.maxDepth value)
    (h : read dialect (value.indented number 0) = .ok other) : other = value := by
  obtain ⟨c, tail, begins, solid, -⟩ := head_of_indented written spelled 0
  have start : skipSpace (value.indented number 0).toList = (value.indented number 0).toList := by
    rw [begins, skipSpace_cons solid]
  have legible : Legible dialect.maxDepth value := by
    unfold read at h
    dsimp only at h
    rw [start] at h
    cases first : readValue dialect (2 * (value.indented number 0).toList.length + 2) dialect.maxDepth
        (value.indented number 0).toList with
    | error cause =>
      rw [first] at h
      exact absurd h (by simp [bind, Except.bind])
    | ok result =>
      rw [← List.append_nil (value.indented number 0).toList] at first
      exact legible_of_readValue written value 0 _ _ [] spelled ends_nil (by simp) first
  exact (Except.ok.inj ((read_indented written legible).symm.trans h)).symm

end Reading

end Montage.Json
