import Mathlib.Data.List.DropRight
import Montage.Run.TailBuffer

/-!
# The end of a text is kept

A text grows piece by piece, and the oldest piece goes as long as the others hold enough. The number of
characters is kept in step, so that what goes is never asked for again; and what stays is too little
without its oldest piece.

## Main definitions

* `TailBuffer.ofTexts` — a buffer to which texts were appended
* `TailBuffer.Covers` — some pieces hold the end of a text, as much as can be asked for
* `TailBuffer.Holds` — a buffer does so, and without its oldest piece it would not

## Main results

* `TailBuffer.Holds.append` — the buffer goes on doing so when the text grows
* `TailBuffer.ofTexts_exact` — it tells the last characters of the whole text
-/

namespace Montage

namespace TailBuffer

variable {limit size : Int} {parts : List String} {text : List Char} {tail : TailBuffer}

/-- The buffer to which some texts were appended, one after another. -/
def ofTexts (limit : Int) (texts : List String) : TailBuffer := texts.foldl append { limit }

/-- The characters of some pieces. -/
def joined (parts : List String) : List Char := parts.flatMap String.toList

/-- Some pieces have `size` characters and are the end of a text: all of it, or enough of it. -/
structure Covers (limit : Int) (text : List Char) (size : Int) (parts : List String) : Prop where
  counted : size = (joined parts).length
  ending : joined parts <:+ text
  enough : joined parts = text ∨ limit ≤ size

/-- A buffer holds the end of a text, and no piece more than it needs. -/
structure Holds (tail : TailBuffer) (text : List Char) : Prop where
  covers : Covers tail.limit text tail.size tail.parts
  slim : 0 < tail.limit → ((joined tail.parts.tail).length : Int) < tail.limit

theorem length_joined_cons (part : String) (rest : List String) :
    ((joined (part :: rest)).length : Int) = part.length + (joined rest).length := by
  rw [joined, List.flatMap_cons, List.length_append, String.length_toList, joined]
  exact Int.natCast_add _ _

theorem joined_append_singleton (parts : List String) (piece : String) :
    joined (parts ++ [piece]) = joined parts ++ piece.toList := by
  rw [joined, List.flatMap_append, List.flatMap_singleton, joined]

/-! ### The oldest pieces -/

/-- A piece goes only if the others hold enough, so that what is left still does. -/
theorem Covers.dropOldest (h : Covers limit text size parts) :
    Covers limit text (dropOldest limit size parts).1 (dropOldest limit size parts).2 := by
  induction parts generalizing size with
  | nil => exact h
  | cons part rest ih =>
    have counted := h.counted
    rw [length_joined_cons] at counted
    unfold TailBuffer.dropOldest
    split
    · next others =>
      refine ih ⟨by omega, ?_, .inr others⟩
      exact (List.suffix_append part.toList (joined rest)).trans h.ending
    · exact h

/-- Pieces go as long as the others hold enough, so that in the end they do not. -/
theorem slim_dropOldest (counted : size = (joined parts).length) (positive : 0 < limit) :
    ((joined (dropOldest limit size parts).2.tail).length : Int) < limit := by
  induction parts generalizing size with
  | nil => exact positive
  | cons part rest ih =>
    rw [length_joined_cons] at counted
    unfold dropOldest
    split
    · exact ih (by omega)
    · next others =>
      change ((joined rest).length : Int) < limit
      omega

/-! ### A text that grows -/

theorem Covers.add (h : Covers limit text size parts) (piece : String) :
    Covers limit (text ++ piece.toList) (size + piece.length) (parts ++ [piece]) := by
  obtain ⟨front, whole⟩ := h.ending
  constructor
  · rw [joined_append_singleton, List.length_append, String.length_toList, h.counted]
    exact (Int.natCast_add _ _).symm
  · rw [joined_append_singleton]
    exact ⟨front, by rw [← List.append_assoc, whole]⟩
  · rcases h.enough with all | enough
    · exact .inl (by rw [joined_append_singleton, all])
    · exact .inr (by omega)

theorem holds_empty (limit : Int) : Holds { limit } [] where
  covers := ⟨rfl, List.suffix_refl _, .inl rfl⟩
  slim := id

theorem Holds.append (h : Holds tail text) (piece : String) :
    Holds (tail.append piece) (text ++ piece.toList) where
  covers := (h.covers.add piece).dropOldest
  slim := slim_dropOldest (h.covers.add piece).counted

theorem Holds.foldl (h : Holds tail text) (texts : List String) :
    Holds (texts.foldl TailBuffer.append tail) (text ++ joined texts) := by
  induction texts generalizing tail text with
  | nil =>
    rw [joined, List.flatMap_nil, List.append_nil]
    exact h
  | cons piece texts ih =>
    rw [joined, List.flatMap_cons, ← List.append_assoc]
    exact ih (h.append piece)

theorem limit_ofTexts (limit : Int) (texts : List String) : (ofTexts limit texts).limit = limit := by
  have kept (tail : TailBuffer) : (texts.foldl append tail).limit = tail.limit := by
    induction texts generalizing tail with
    | nil => rfl
    | cons piece texts ih => exact ih (tail.append piece)
  exact kept { limit }

theorem holds_ofTexts (limit : Int) (texts : List String) :
    Holds (ofTexts limit texts) (String.join texts).toList := by
  rw [String.toList_join]
  exact (holds_empty limit).foldl texts

/-- What a buffer tells is the end of the text. -/
theorem Holds.value (h : Holds tail text) : tail.value.toList = text.rtake tail.limit.toNat := by
  have told : tail.value.toList = (joined tail.parts).rtake tail.limit.toNat := by
    rw [TailBuffer.value, String.toList_ofList, List.rtake, joined]
  rw [told]
  rcases h.covers.enough with all | enough
  · rw [all]
  · obtain ⟨front, whole⟩ := h.covers.ending
    have fits : tail.limit.toNat ≤ (joined tail.parts).length := by
      have counted := h.covers.counted
      omega
    rw [← whole, List.rtake, List.rtake, List.length_append, Nat.add_sub_assoc fits,
      List.drop_length_add_append]

/-- A buffer tells the last characters of all that was appended, at most `limit` of them. If any are
asked for, its pieces without the oldest one do not have as many. -/
theorem ofTexts_exact (limit : Int) (texts : List String) :
    (ofTexts limit texts).value.toList = (String.join texts).toList.rtake limit.toNat ∧
      (0 < limit → ((String.join (ofTexts limit texts).parts.tail).length : Int) < limit) := by
  have holds := holds_ofTexts limit texts
  constructor
  · have told := holds.value
    rwa [limit_ofTexts] at told
  · intro positive
    have slim := holds.slim (by rwa [limit_ofTexts])
    rwa [limit_ofTexts, joined, ← String.toList_join, String.length_toList] at slim

example : (ofTexts 5 ["abc", "defg", "hi"]).value = "efghi" := by decide

end TailBuffer

end Montage
