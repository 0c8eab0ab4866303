import Mathlib.Data.List.Dedup
import Mathlib.Data.List.Forall2

/-!
# Lists

Members of lists that correspond place by place, entries of a list that got longer, items that are
all read, items that switch something on and off, and lists that are sorted: a part keeps its order
when the list is sorted, and so does a pair of items.
-/

namespace Montage

section Latch

variable {α : Type}

/-- Whether something is on after items that switch it on and off. -/
def latch (on off : α → Bool) (was : Bool) (items : List α) : Bool :=
  items.foldl (fun was a => on a || was && !off a) was

variable {on off : α → Bool} {was : Bool}

theorem latch_append (front back : List α) :
    latch on off was (front ++ back) = latch on off (latch on off was front) back :=
  List.foldl_append

/-- It is on if it was switched on, and not switched off since. -/
theorem latch_eq_true {items : List α} : latch on off was items = true ↔
    (∃ before a after, items = before ++ a :: after ∧ on a = true ∧ ∀ b ∈ after, off b = false) ∨
      (was = true ∧ ∀ b ∈ items, off b = false) := by
  induction items generalizing was with
  | nil => simp [latch]
  | cons first rest ih =>
    have step : latch on off was (first :: rest) = latch on off (on first || was && !off first) rest :=
      rfl
    rw [step, ih]
    constructor
    · rintro (⟨before, a, after, rfl, switched, kept⟩ | ⟨stayed, kept⟩)
      · exact .inl ⟨first :: before, a, after, rfl, switched, kept⟩
      · rw [Bool.or_eq_true, Bool.and_eq_true, Bool.not_eq_true'] at stayed
        rcases stayed with switched | ⟨before, unswitched⟩
        · exact .inl ⟨[], first, rest, rfl, switched, kept⟩
        · exact .inr ⟨before, List.forall_mem_cons.mpr ⟨unswitched, kept⟩⟩
    · rintro (⟨before, a, after, split, switched, kept⟩ | ⟨before, kept⟩)
      · cases before with
        | nil =>
          obtain ⟨rfl, rfl⟩ := List.cons.inj split
          exact .inr ⟨by rw [switched]; rfl, kept⟩
        | cons _ before =>
          obtain ⟨rfl, rfl⟩ := List.cons.inj split
          exact .inl ⟨before, a, after, rfl, switched, kept⟩
      · obtain ⟨unswitched, kept⟩ := List.forall_mem_cons.mp kept
        exact .inr ⟨by rw [before, unswitched]; simp, kept⟩

end Latch

section Pairs

variable {α β : Type} {R : α → β → Prop} {as : List α} {bs : List β}

/-- What stands at a place of a list has its partner at that place. -/
theorem forall₂_getElem? (h : List.Forall₂ R as bs) {i : Nat} {b : β} (hb : bs[i]? = some b) :
    ∃ a, as[i]? = some a ∧ R a b := by
  induction h generalizing i with
  | nil => exact absurd hb (by simp)
  | @cons a' b' _ _ first _ ih =>
    cases i with
    | zero =>
      obtain rfl : b' = b := by simpa using hb
      exact ⟨a', rfl, first⟩
    | succ i => exact ih (by simpa using hb)

theorem forall₂_mem (h : List.Forall₂ R as bs) {b : β} (hb : b ∈ bs) : ∃ a ∈ as, R a b := by
  obtain ⟨i, hi⟩ := List.mem_iff_getElem?.mp hb
  obtain ⟨a, ha, hab⟩ := forall₂_getElem? h hi
  exact ⟨a, List.mem_of_getElem? ha, hab⟩

/-- Items that correspond and agree on something give the same list of it. -/
theorem map_eq_map_of_forall₂ {γ : Type} {f : α → γ} {g : β → γ}
    (h : List.Forall₂ (fun a b => f a = g b) as bs) : as.map f = bs.map g := by
  rwa [← List.forall₂_eq_eq_eq, List.forall₂_map_left_iff, List.forall₂_map_right_iff]

/-- Items that give the same list of something correspond if what they give tells that they do. -/
theorem forall₂_of_map_eq {γ : Type} {f : α → γ} {g : β → γ}
    (told : ∀ a ∈ as, ∀ b ∈ bs, f a = g b → R a b) (h : as.map f = bs.map g) : List.Forall₂ R as bs := by
  induction as generalizing bs with
  | nil =>
    rw [List.map_eq_nil_iff.mp (h.symm.trans List.map_nil)]
    exact .nil
  | cons a as ih =>
    cases bs with
    | nil => exact absurd h (by simp)
    | cons b bs =>
      rw [List.map_cons, List.map_cons, List.cons.injEq] at h
      refine .cons (told a List.mem_cons_self b List.mem_cons_self h.1) (ih ?_ h.2)
      exact fun a ha b hb => told a (List.mem_cons_of_mem _ ha) b (List.mem_cons_of_mem _ hb)

theorem forall₂_isEmpty (h : List.Forall₂ R as bs) : as.isEmpty = bs.isEmpty := by
  cases h <;> rfl

/-- An entry of a list that got longer is the new one, or was there before. -/
theorem split_of_append_singleton {front back : List α} {last a : α}
    (h : as ++ [last] = front ++ a :: back) :
    (back = [] ∧ as = front ∧ last = a) ∨
      ∃ rest, back = rest ++ [last] ∧ as = front ++ a :: rest := by
  rcases List.eq_nil_or_concat' back with rfl | ⟨rest, z, rfl⟩
  · obtain ⟨same, last⟩ := List.append_inj' h rfl
    exact .inl ⟨rfl, same, List.singleton_inj.mp last⟩
  · have h' : as ++ [last] = (front ++ a :: rest) ++ [z] := by simpa using h
    obtain ⟨same, last⟩ := List.append_inj' h' rfl
    obtain rfl := List.singleton_inj.mp last
    exact .inr ⟨rest, rfl, same⟩

/-- Lists are put together of the same parts where a test tells the parts apart. -/
theorem append_inj_of_apart {test : α → Bool} {front front' back back' : List α}
    (same : front ++ back = front' ++ back') (passes : ∀ a ∈ front, test a = true)
    (passes' : ∀ a ∈ front', test a = true) (fails : ∀ a ∈ back, ¬ test a = true)
    (fails' : ∀ a ∈ back', ¬ test a = true) : front = front' ∧ back = back' := by
  have fronts := congrArg (List.filter test) same
  rw [List.filter_append, List.filter_append, List.filter_eq_self.mpr passes,
    List.filter_eq_self.mpr passes', List.filter_eq_nil_iff.mpr fails,
    List.filter_eq_nil_iff.mpr fails', List.append_nil, List.append_nil] at fronts
  rw [fronts] at same
  exact ⟨fronts, List.append_cancel_left same⟩

/-- All items are read exactly if each of them is. -/
theorem mapM_eq_some_iff {f : α → Option β} :
    as.mapM f = some bs ↔ List.Forall₂ (fun a b => f a = some b) as bs := by
  induction as generalizing bs with
  | nil => simp [eq_comm]
  | cons item rest ih =>
    rw [List.mapM_cons, List.forall₂_cons_left_iff]
    simp only [Option.bind_eq_bind, Option.bind_eq_some_iff, Option.pure_def, Option.some.injEq, ih]
    constructor
    · rintro ⟨value, read, values, reads, rfl⟩
      exact ⟨value, values, read, reads, rfl⟩
    · rintro ⟨value, values, read, reads, rfl⟩
      exact ⟨value, read, values, reads, rfl⟩

/-- An item is inserted between two parts of a list. -/
theorem insertIdx_length_append (front back : List α) (a : α) :
    (front ++ back).insertIdx front.length a = front ++ a :: back := by
  induction front with
  | nil => rfl
  | cons first rest ih => exact congrArg (first :: ·) ih

/-- The last occurrences of the items of a list, when the list gets longer: the new item comes last,
and nothing else moves. -/
theorem sublist_dedup_append_singleton [DecidableEq α] {part whole : List α} {a : α}
    (h : part.Sublist whole.dedup) (new : a ∉ part) :
    (part ++ [a]).Sublist (whole ++ [a]).dedup := by
  induction whole generalizing part with
  | nil =>
    rw [List.sublist_nil.mp h]
    exact List.Sublist.refl _
  | cons first rest ih =>
    by_cases old : first ∈ rest
    · rw [List.dedup_cons_of_mem old] at h
      rw [List.cons_append, List.dedup_cons_of_mem (List.mem_append_left _ old)]
      exact ih h new
    · rw [List.dedup_cons_of_notMem old] at h
      by_cases same : first = a
      · subst same
        rw [List.cons_append, List.dedup_cons_of_mem (List.mem_append_right _ List.mem_cons_self)]
        -- What is added anew leaves the place that it had.
        exact ih ((List.sublist_cons_iff.mp h).resolve_right fun ⟨_, here, _⟩ =>
          new (here ▸ List.mem_cons_self)) new
      · have fresh : first ∉ rest ++ [a] := by simp [old, same]
        rw [List.cons_append, List.dedup_cons_of_notMem fresh]
        rcases List.sublist_cons_iff.mp h with skipped | ⟨part, rfl, taken⟩
        · exact (ih skipped new).cons first
        · exact (ih taken fun h => new (List.mem_cons_of_mem _ h)).cons_cons first

end Pairs

section Sorting

variable {α : Type} {le : α → α → Bool}

/-- What a sorted list has in front of an item is what does not come behind it. -/
theorem sorted_filter {a : α} {before after : List α}
    (sorted : (before ++ a :: after).Pairwise fun x y => le x y = true)
    (first : ∀ b ∈ before, (!le a b) = true) :
    (before ++ after).filter (!le a ·) = before ∧ (before ++ after).filter (le a ·) = after := by
  have last : ∀ b ∈ after, le a b = true :=
    (List.pairwise_cons.mp (List.pairwise_append.mp sorted).2.1).1
  rw [List.filter_append, List.filter_append, List.filter_eq_self.mpr first,
    List.filter_eq_self.mpr last, List.filter_eq_nil_iff.mpr fun b hb => by simp [last b hb],
    List.filter_eq_nil_iff.mpr fun b hb => by simpa using first b hb, List.append_nil,
    List.nil_append]
  exact ⟨rfl, rfl⟩

/-- A part of a list is a part of it when both are sorted. -/
theorem sublist_mergeSort_mergeSort (trans : ∀ a b c, le a b → le b c → le a c)
    (total : ∀ a b, le a b || le b a) {as bs : List α} (h : as.Sublist bs) :
    (as.mergeSort le).Sublist (bs.mergeSort le) := by
  induction h with
  | slnil => exact List.Sublist.refl _
  | @cons as bs a _ ih =>
    obtain ⟨before, after, whole, rest, -⟩ := List.mergeSort_cons trans total a bs
    rw [whole]
    rw [rest] at ih
    exact ih.middle a
  | @cons_cons as bs a _ ih =>
    obtain ⟨before, after, whole, rest, first⟩ := List.mergeSort_cons trans total a as
    obtain ⟨before', after', whole', rest', first'⟩ := List.mergeSort_cons trans total a bs
    have sorted := List.pairwise_mergeSort trans total (a :: as)
    have sorted' := List.pairwise_mergeSort trans total (a :: bs)
    rw [whole] at sorted ⊢
    rw [whole'] at sorted' ⊢
    rw [rest, rest'] at ih
    obtain ⟨inFront, behind⟩ := sorted_filter sorted first
    obtain ⟨inFront', behind'⟩ := sorted_filter sorted' first'
    have front : before.Sublist before' := by
      rw [← inFront, ← inFront']
      exact ih.filter _
    have back : after.Sublist after' := by
      rw [← behind, ← behind']
      exact ih.filter _
    exact front.append (back.cons_cons a)

/-- Any two items of a sorted list are related as those two items of the list are, in the order in which
they compare; items that compare as equal keep theirs. -/
theorem pairwise_mergeSort_iff (trans : ∀ a b c, le a b → le b c → le a c)
    (total : ∀ a b, le a b || le b a) {R : α → α → Prop} {as : List α} :
    (as.mergeSort le).Pairwise R ↔ as.Pairwise fun a b => if le a b then R a b else R b a := by
  induction as with
  | nil => simp
  | cons a as ih =>
    obtain ⟨before, after, whole, rest, first⟩ := List.mergeSort_cons trans total a as
    have sorted := List.pairwise_mergeSort trans total (a :: as)
    rw [whole] at sorted
    have last : ∀ b ∈ after, le a b = true :=
      (List.pairwise_cons.mp (List.pairwise_append.mp sorted).2.1).1
    have members (b : α) : b ∈ as ↔ b ∈ before ∨ b ∈ after := by
      rw [← List.mem_append, ← rest, List.mem_mergeSort]
    -- The new item stands behind what it does not precede, and in front of all else.
    have placed : (∀ b ∈ as, if le a b then R a b else R b a) ↔
        (∀ b ∈ before, R b a) ∧ ∀ b ∈ after, R a b := by
      constructor
      · intro each
        refine ⟨fun b hb => ?_, fun b hb => ?_⟩
        · have related := each b ((members b).mpr (.inl hb))
          rwa [if_neg (by simpa using first b hb)] at related
        · have related := each b ((members b).mpr (.inr hb))
          rwa [if_pos (last b hb)] at related
      · rintro ⟨inFront, behind⟩ b hb
        rcases (members b).mp hb with hb | hb
        · rw [if_neg (by simpa using first b hb)]
          exact inFront b hb
        · rw [if_pos (last b hb)]
          exact behind b hb
    rw [List.pairwise_cons, placed, ← ih, rest, whole, List.pairwise_append, List.pairwise_append,
      List.pairwise_cons]
    constructor
    · rintro ⟨front, ⟨behind, back⟩, across⟩
      exact ⟨⟨fun b hb => across b hb a List.mem_cons_self, behind⟩, front, back,
        fun b hb c hc => across b hb c (List.mem_cons_of_mem a hc)⟩
    · rintro ⟨⟨inFront, behind⟩, front, back, across⟩
      refine ⟨front, ⟨behind, back⟩, fun b hb c hc => ?_⟩
      rcases List.mem_cons.mp hc with rfl | hc
      · exact inFront b hb
      · exact across b hb c hc

end Sorting

end Montage
