import Montage.Proofs.Text.Utf8
import Montage.Run.Lines

/-!
# Lines of a stream that is read in pieces

The end of a line is kept until its break is read, so that breaks may fall on any read. The bytes of
a character are not kept: each read is decoded on its own. So the lines are those of the whole
stream exactly if no read ends inside a character.

## Main definitions

* `Lines.ofText` — the lines of a whole text
* `Lines.CutsCharacter` — some read ends inside a character

## Main results

* `read_eq_ofText` — the lines are those of the texts of all reads, one behind the other
* `read_eq_whole_iff` — when they are those of the whole stream
-/

namespace Montage

namespace Lines

variable {cs front back : List Char} {reads : List (List UInt8)}

/-- The lines of a whole text: what stands between its breaks, as far as it is not empty. -/
def ofText (cs : List Char) : List String :=
  ((cs.splitOnP isBreak).filter (!·.isEmpty)).map String.ofList

/-- The texts of all reads, one behind the other. -/
def decoded (reads : List (List UInt8)) : List Char :=
  reads.flatMap fun bytes => (Text.Utf8.decodeLossy bytes).toList

/-- Whether a read ends inside a character that the reads behind it go on with. -/
def CutsCharacter (reads : List (List UInt8)) : Prop :=
  ∃ front back, reads = front ++ back ∧ Text.Utf8.CutsCharacter front.flatten back.flatten

/-! ### Pieces between breaks -/

theorem pieces_eq (cs : List Char) : (pieces cs).1 :: (pieces cs).2 = cs.splitOnP isBreak := by
  induction cs with
  | nil => rfl
  | cons c cs ih =>
    rw [List.splitOnP_cons_eq_if_modifyHead, ← ih, pieces]
    by_cases breaks : isBreak c = true
    · simp only [breaks, if_true]
    · simp only [breaks, Bool.false_eq_true, if_false, List.modifyHead_cons]

/-- A text that grows keeps all its pieces but the last, which grows with it. -/
theorem splitOnP_append (front back : List Char) : (front ++ back).splitOnP isBreak =
    (front.splitOnP isBreak).dropLast ++
      ((front.splitOnP isBreak).getLast (List.splitOnP_ne_nil _ _) ++ back).splitOnP isBreak := by
  induction front with
  | nil => rfl
  | cons c front ih =>
    rw [List.cons_append, List.splitOnP_cons_eq_if_modifyHead]
    by_cases breaks : isBreak c = true
    · have here : (c :: front).splitOnP isBreak = [] :: front.splitOnP isBreak := by
        rw [List.splitOnP_cons_eq_if_modifyHead, if_pos breaks]
      simp only [here, if_pos breaks, List.getLast_cons (List.splitOnP_ne_nil _ _),
        List.dropLast_cons_of_ne_nil (List.splitOnP_ne_nil _ _), ih, List.cons_append]
    · -- The character belongs to the first piece, which may also be the last one.
      obtain ⟨piece, others, known⟩ := List.exists_cons_of_ne_nil (List.splitOnP_ne_nil isBreak front)
      have here : (c :: front).splitOnP isBreak = (c :: piece) :: others := by
        rw [List.splitOnP_cons_eq_if_modifyHead, if_neg breaks, known, List.modifyHead_cons]
      simp only [known] at ih
      simp only [here, if_neg breaks, ih]
      cases others with
      | nil =>
        simp only [List.dropLast_singleton, List.getLast_singleton, List.nil_append,
          List.cons_append]
        rw [List.splitOnP_cons_eq_if_modifyHead, if_neg breaks]
      | cons next others =>
        simp only [List.dropLast_cons_cons, List.getLast_cons_cons, List.cons_append,
          List.modifyHead_cons]

theorem not_isBreak_of_mem_splitOnP {piece : List Char} (h : piece ∈ cs.splitOnP isBreak) :
    ∀ c ∈ piece, isBreak c = false := by
  induction cs generalizing piece with
  | nil =>
    rw [List.splitOnP_nil, List.mem_singleton] at h
    subst h
    exact fun _ inside => nomatch inside
  | cons c cs ih =>
    rw [List.splitOnP_cons_eq_if_modifyHead] at h
    by_cases breaks : isBreak c = true
    · rw [if_pos breaks, List.mem_cons] at h
      obtain rfl | later := h
      · exact fun _ inside => nomatch inside
      · exact ih later
    · obtain ⟨first, others, known⟩ := List.exists_cons_of_ne_nil (List.splitOnP_ne_nil isBreak cs)
      rw [if_neg breaks, known, List.modifyHead_cons, List.mem_cons] at h
      obtain rfl | later := h
      · intro d inside
        obtain rfl | inside := List.mem_cons.mp inside
        · exact eq_false_of_ne_true breaks
        · exact ih (known ▸ List.mem_cons_self) d inside
      · exact ih (known ▸ List.mem_cons_of_mem _ later)

/-- The lines of a text hold all that is no break, in order. -/
theorem flatten_splitOnP (cs : List Char) :
    (cs.splitOnP isBreak).flatten = cs.filter (!isBreak ·) := by
  induction cs with
  | nil => rfl
  | cons c cs ih =>
    obtain ⟨first, others, known⟩ := List.exists_cons_of_ne_nil (List.splitOnP_ne_nil isBreak cs)
    rw [List.splitOnP_cons_eq_if_modifyHead, List.filter_cons, ← ih]
    by_cases breaks : isBreak c = true
    · simp only [breaks, if_true, Bool.not_true, Bool.false_eq_true, if_false, List.flatten_cons,
        List.nil_append]
    · simp only [breaks, Bool.not_false, if_true, Bool.false_eq_true, if_false, known,
        List.modifyHead_cons, List.flatten_cons, List.cons_append]

theorem flatMap_ofText (cs : List Char) :
    (ofText cs).flatMap String.toList = cs.filter (!isBreak ·) := by
  have asLists : (String.toList ∘ String.ofList) = id := by
    funext cs
    exact String.toList_ofList
  rw [ofText, List.flatMap_def, List.map_map, asLists, List.map_id, List.flatten_filter_not_isEmpty,
    flatten_splitOnP]

/-! ### Reading on -/

/-- What is left over when a text has been read: its last piece. -/
theorem ofText_append (pending text more : List Char) :
    ofText (pending ++ text ++ more) = (feed pending text).1 ++ ofText ((feed pending text).2 ++ more) := by
  have known := pieces_eq (pending ++ text)
  have some := List.splitOnP_ne_nil isBreak (pending ++ text)
  have left : (feed pending text).2 = ((pending ++ text).splitOnP isBreak).getLast some := by
    unfold feed
    dsimp only
    rw [known, List.getLast?_eq_some_getLast some, Option.getD_some]
  rw [ofText, splitOnP_append, left, ofText, List.filter_append, List.map_append]
  congr 1
  unfold feed
  dsimp only
  rw [known]

theorem not_isBreak_feed (pending text : List Char) :
    ∀ c ∈ (feed pending text).2, isBreak c = false := by
  have some := List.splitOnP_ne_nil isBreak (pending ++ text)
  unfold feed
  dsimp only
  rw [pieces_eq, List.getLast?_eq_some_getLast some, Option.getD_some]
  exact not_isBreak_of_mem_splitOnP (List.getLast_mem some)

theorem finish_eq (h : ∀ c ∈ cs, isBreak c = false) : finish cs = ofText cs := by
  rw [ofText, List.splitOnP_eq_singleton h]
  cases cs with
  | nil => rfl
  | cons c cs => rfl

theorem readFrom_eq_ofText (pending : List Char) (unbroken : ∀ c ∈ pending, isBreak c = false)
    (full : ∀ bytes ∈ reads, bytes ≠ []) :
    readFrom pending reads = ofText (pending ++ decoded reads) := by
  induction reads generalizing pending with
  | nil =>
    rw [readFrom, decoded, List.flatMap_nil, List.append_nil]
    exact finish_eq unbroken
  | cons bytes reads ih =>
    have some : bytes.isEmpty = false := List.isEmpty_eq_false_iff.mpr (full bytes List.mem_cons_self)
    have later := ih _ (not_isBreak_feed pending (Text.Utf8.decodeLossy bytes).toList)
      fun other inside => full other (List.mem_cons_of_mem _ inside)
    rw [readFrom, some, decoded, List.flatMap_cons, ← List.append_assoc, ofText_append]
    exact congrArg (_ ++ ·) later

/-- The lines of a stream are those of the texts of its reads. -/
theorem read_eq_ofText (full : ∀ bytes ∈ reads, bytes ≠ []) : read reads = ofText (decoded reads) :=
  readFrom_eq_ofText [] (fun _ inside => nomatch inside) full

/-! ### The whole stream -/

/-- What counts of a text that was read with its faults: all that is no break. -/
def counts (c : Option Char) : Bool := !isBreak (c.getD '\uFFFD')

theorem toList_decodeLossy (bytes : List UInt8) : (Text.Utf8.decodeLossy bytes).toList =
    (Text.Utf8.scan none bytes).map (·.getD '\uFFFD') := String.toList_ofList

theorem countP_decodeLossy (bytes : List UInt8) :
    (Text.Utf8.decodeLossy bytes).toList.countP (!isBreak ·) =
      (Text.Utf8.scan none bytes).countP counts := by
  rw [toList_decodeLossy, List.countP_map]
  rfl

theorem decoded_cons (bytes : List UInt8) (reads : List (List UInt8)) :
    decoded (bytes :: reads) = (Text.Utf8.decodeLossy bytes).toList ++ decoded reads :=
  List.flatMap_cons

/-- Behind a read that ends with its last character, the reads stand on their own. -/
theorem cutsCharacter_cons {bytes : List UInt8}
    (first : ¬ Text.Utf8.CutsCharacter bytes reads.flatten) :
    CutsCharacter (bytes :: reads) ↔ CutsCharacter reads := by
  constructor
  · rintro ⟨front, back, whole, cuts⟩
    cases front with
    | nil =>
      obtain ⟨p, b, rest, ending, -, -⟩ := cuts
      cases ending
    | cons bytes' front =>
      rw [List.cons_append] at whole
      obtain ⟨rfl, rfl⟩ := List.cons.inj whole
      obtain empty | some := Decidable.em (front.flatten = [])
      · rw [List.flatten_append, empty, List.nil_append] at first
        rw [List.flatten_cons, empty, List.append_nil] at cuts
        exact absurd cuts first
      · obtain ⟨p, b, rest, ending, behind, takes⟩ := cuts
        rw [List.flatten_cons, Text.Utf8.unfinished_append_of_not_cuts first
          (List.flatten_append ▸ List.prefix_append ..) some] at ending
        exact ⟨front, back, rfl, p, b, rest, ending, behind, takes⟩
  · rintro ⟨front, back, rfl, p, b, rest, ending, behind, takes⟩
    have some : front.flatten ≠ [] := by
      intro empty
      rw [empty] at ending
      cases ending
    refine ⟨bytes :: front, back, rfl, p, b, rest, ?_, behind, takes⟩
    rw [List.flatten_cons, Text.Utf8.unfinished_append_of_not_cuts first
      (List.flatten_append ▸ List.prefix_append ..) some]
    exact ending

/-- Reads that leave all characters whole hold the text of the stream. -/
theorem decoded_of_not_cutsCharacter (h : ¬ CutsCharacter reads) :
    decoded reads = (Text.Utf8.decodeLossy reads.flatten).toList := by
  induction reads with
  | nil => exact (toList_decodeLossy []).symm
  | cons bytes reads ih =>
    have first : ¬ Text.Utf8.CutsCharacter bytes reads.flatten := fun cuts =>
      h ⟨[bytes], reads, rfl, by rwa [List.flatten_singleton]⟩
    rw [decoded_cons, ih fun later => h ((cutsCharacter_cons first).mpr later), List.flatten_cons,
      toList_decodeLossy, toList_decodeLossy, toList_decodeLossy,
      Text.Utf8.scan_append_of_not_cuts first, List.map_append]

/-- The reads hold at least as much as the stream, and more if they cut a character. -/
theorem countP_decoded (reads : List (List UInt8)) :
    (Text.Utf8.decodeLossy reads.flatten).toList.countP (!isBreak ·) ≤
        (decoded reads).countP (!isBreak ·) ∧
      (CutsCharacter reads → (Text.Utf8.decodeLossy reads.flatten).toList.countP (!isBreak ·) <
        (decoded reads).countP (!isBreak ·)) := by
  have fault : counts none = true := rfl
  induction reads with
  | nil =>
    refine ⟨Nat.zero_le _, ?_⟩
    rintro ⟨front, back, whole, p, b, rest, ending, -, -⟩
    obtain ⟨rfl, rfl⟩ := List.append_eq_nil_iff.mp whole.symm
    cases ending
  | cons bytes reads ih =>
    obtain ⟨atLeast, more⟩ := ih
    rw [countP_decodeLossy] at atLeast more
    rw [List.flatten_cons, decoded_cons, List.countP_append, countP_decodeLossy, countP_decodeLossy]
    have both := Text.Utf8.countP_scan_append_le fault bytes reads.flatten
    refine ⟨by omega, fun cuts => ?_⟩
    by_cases first : Text.Utf8.CutsCharacter bytes reads.flatten
    · have here := Text.Utf8.countP_scan_append_lt fault first
      omega
    · have later := more ((cutsCharacter_cons first).mp cuts)
      omega

/-- Reading gives the lines of the texts of all reads, each decoded on its own. These are the lines
of the whole stream if and only if no read ends inside a character. -/
theorem read_eq_whole_iff (full : ∀ bytes ∈ reads, bytes ≠ []) :
    read reads = ofText (decoded reads) ∧
      (read reads = ofText (Text.Utf8.decodeLossy reads.flatten).toList ↔
        ¬ CutsCharacter reads) := by
  have lines := read_eq_ofText full
  refine ⟨lines, fun same cuts => ?_, fun whole => ?_⟩
  · -- The lines hold all that is no break, and the reads hold more of that than the stream.
    have filtered : (decoded reads).filter (!isBreak ·) =
        (Text.Utf8.decodeLossy reads.flatten).toList.filter (!isBreak ·) := by
      rw [← flatMap_ofText, ← flatMap_ofText, ← lines, same]
    have more := (countP_decoded reads).2 cuts
    rw [List.countP_eq_length_filter, List.countP_eq_length_filter, filtered] at more
    exact Nat.lt_irrefl _ more
  · rw [lines, decoded_of_not_cutsCharacter whole]

/-- Both halves of a line break and a line itself may be spread over reads. -/
theorem lines_of_three_reads : ∃ reads : List (List UInt8),
    reads = [[0x61, 0x0D], [0x0A, 0xC3, 0xA9], [0x62]] ∧ (∀ bytes ∈ reads, bytes ≠ []) ∧
      read reads = ["a", "éb"] ∧ ¬ CutsCharacter reads := by
  have full : ∀ bytes ∈ ([[0x61, 0x0D], [0x0A, 0xC3, 0xA9], [0x62]] : List (List UInt8)),
      bytes ≠ [] := by decide
  obtain ⟨lines, whole⟩ := read_eq_whole_iff full
  exact ⟨_, rfl, full, lines.trans (by decide), whole.mp (by decide)⟩

/-- Two bytes of one character in two reads are two faults. -/
theorem exists_read_apart : ∃ reads : List (List UInt8), (∀ bytes ∈ reads, bytes ≠ []) ∧
    read reads ≠ ofText (Text.Utf8.decodeLossy reads.flatten).toList ∧
    read reads ≠ read [reads.flatten] :=
  ⟨[[0xC3], [0xA9]], by decide, by decide, by decide⟩

end Lines

end Montage
