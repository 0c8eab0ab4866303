import Montage.Proofs.Files.Write

/-!
# What a folder holds

The text of a path is cut at its slashes into the names that it was put together from, so a name
below a folder leads to the place right below the place of the folder. The names that a folder holds
are those of such places.

## Main definitions

* `Path.Plain` — a name that a path can have
* `Path.place` — where a path leads, if it leads anywhere

## Main results

* `FileTree.eq_place_of_locate` — a path leads nowhere but to its place
* `FileTree.locate_below` — the path of a name below a folder leads to a place below that of the folder
* `FileTree.mem_namesIn` — what a folder holds
-/

namespace Montage

namespace Path

/-- A name that a path can have. -/
structure Plain (name : String) : Prop where
  nonempty : name ≠ ""
  not_here : name ≠ "."
  no_slash : ∀ c ∈ name.toList, c ≠ '/'

variable {name text : String} {names : List String}

/-- Where the names of a path lead, if they lead anywhere. -/
def place (path : Path) : Place :=
  path.names.foldl (fun place name => if name = ".." then place.dropLast else place ++ [name]) []

/-! ### Cutting a text at its slashes -/

theorem cutAtSlashes_of_no_slash {s : List Char} (h : ∀ c ∈ s, c ≠ '/') :
    cutAtSlashes s = (s, []) := by
  induction s with
  | nil => rfl
  | cons c rest ih =>
    obtain ⟨other, h⟩ := List.forall_mem_cons.mp h
    rw [cutAtSlashes, ih h]
    exact if_neg other

theorem cutAtSlashes_append {s : List Char} (h : ∀ c ∈ s, c ≠ '/') (rest : List Char) :
    cutAtSlashes (s ++ '/' :: rest) =
      (s, (cutAtSlashes rest).1 :: (cutAtSlashes rest).2) := by
  induction s with
  | nil => rfl
  | cons c s ih =>
    obtain ⟨other, h⟩ := List.forall_mem_cons.mp h
    rw [List.cons_append, cutAtSlashes, ih h]
    exact if_neg other

theorem pieces_of_no_slash (h : ∀ c ∈ name.toList, c ≠ '/') : pieces name = [name] := by
  unfold pieces
  rw [cutAtSlashes_of_no_slash h]
  simp

theorem pieces_append (h : ∀ c ∈ name.toList, c ≠ '/') (text : String) :
    pieces (name ++ "/" ++ text) = name :: pieces text := by
  have split : (name ++ "/" ++ text).toList = name.toList ++ '/' :: text.toList := by
    simp [String.toList_append]
  unfold pieces
  rw [split, cutAtSlashes_append h]
  simp

/-- Names with slashes between them are cut into the names. -/
theorem pieces_intercalate (h : ∀ name ∈ names, ∀ c ∈ name.toList, c ≠ '/') (some : names ≠ []) :
    pieces ("/".intercalate names) = names := by
  induction names with
  | nil => exact absurd rfl some
  | cons name rest ih =>
    obtain ⟨first, others⟩ := List.forall_mem_cons.mp h
    cases rest with
    | nil => rw [String.intercalate_singleton, pieces_of_no_slash first]
    | cons next rest =>
      rw [String.intercalate_cons_cons, pieces_append first, ih others (List.cons_ne_nil _ _)]

theorem no_slash_of_mem_pieces (h : name ∈ pieces text) : ∀ c ∈ name.toList, c ≠ '/' := by
  have cut (s : List Char) : ∀ piece ∈ (cutAtSlashes s).1 :: (cutAtSlashes s).2,
      ∀ c ∈ piece, c ≠ '/' := by
    induction s with
    | nil => simp [cutAtSlashes]
    | cons c rest ih =>
      rw [cutAtSlashes]
      dsimp only
      split
      · exact List.forall_mem_cons.mpr ⟨by simp, ih⟩
      · next other =>
        obtain ⟨first, others⟩ := List.forall_mem_cons.mp ih
        exact List.forall_mem_cons.mpr ⟨List.forall_mem_cons.mpr ⟨other, first⟩, others⟩
  obtain ⟨piece, hpiece, rfl⟩ := List.mem_map.mp h
  rw [String.toList_ofList]
  exact cut text.toList piece hpiece

/-! ### Names below a folder -/

theorem plain_of_mem_ofText (h : name ∈ (ofText text).names) : Plain name := by
  obtain ⟨piece, kept⟩ := List.mem_filter.mp h
  simp only [ne_eq, Bool.and_eq_true, decide_eq_true_eq] at kept
  exact ⟨kept.1, kept.2, no_slash_of_mem_pieces piece⟩

theorem rootOf_eq_empty (h : text.toList.head? ≠ some '/') : rootOf text = "" := by
  unfold rootOf
  cases letters : text.toList with
  | nil => rfl
  | cons c rest =>
    rw [letters] at h
    rw [List.takeWhile_cons_of_neg (by simpa using h)]
    rfl

theorem Plain.head?_ne_slash (h : Plain name) : name.toList.head? ≠ some '/' := fun starts =>
  h.no_slash '/' (List.mem_of_mem_head? starts) rfl

theorem ofText_of_plain (h : Plain name) : ofText name = { names := [name] } := by
  rw [ofText, rootOf_eq_empty h.head?_ne_slash, pieces_of_no_slash h.no_slash, List.filter_cons_of_pos]
  · rfl
  · simp [h.nonempty, h.not_here]

theorem join_of_plain (path : Path) (h : Plain name) :
    path.join name = { path with names := path.names ++ [name] } := by
  rw [join, ofText_of_plain h]
  exact if_pos rfl

theorem text_ne_empty (path : Path) : path.text ≠ "" := by
  unfold Path.text
  dsimp only
  split
  · decide
  · assumption

theorem names_join {path : Path} (h : Plain name) : (path.join name).names = path.names ++ [name] := by
  rw [join_of_plain path h]

theorem place_join {path : Path} (h : Plain name) (up : name ≠ "..") :
    (path.join name).place = path.place ++ [name] := by
  unfold place
  rw [names_join h, List.foldl_concat, if_neg up]

/-- A path with a root and names that it can have. -/
structure Inside (path : Path) : Prop where
  root : path.root = "" ∨ path.root = "/" ∨ path.root = "//"
  plain : ∀ name ∈ path.names, Plain name

theorem inside_ofText (text : String) : (ofText text).Inside := by
  refine ⟨?_, fun name => plain_of_mem_ofText⟩
  unfold ofText rootOf
  dsimp only
  split <;> simp

theorem Inside.join {path : Path} (inside : path.Inside) (h : Plain name) :
    (path.join name).Inside := by
  rw [join_of_plain path h]
  exact ⟨inside.root, List.forall_mem_append.mpr ⟨inside.plain, List.forall_mem_singleton.mpr h⟩⟩

theorem intercalate_ne_empty (plain : ∀ name ∈ names, Plain name) (some : names ≠ []) :
    "/".intercalate names ≠ "" := by
  cases names with
  | nil => exact absurd rfl some
  | cons name rest =>
    have nonempty : name ≠ "" := (List.forall_mem_cons.mp plain).1.nonempty
    cases rest with
    | nil => rwa [String.intercalate_singleton]
    | cons next rest =>
      rw [String.intercalate_cons_cons]
      exact fun empty => by simp [String.append_eq_empty_iff] at empty

theorem head?_intercalate_ne_slash (plain : ∀ name ∈ names, Plain name) :
    ("/".intercalate names).toList.head? ≠ some '/' := by
  cases names with
  | nil => rw [String.intercalate_nil]; decide
  | cons name rest =>
    have first : Plain name := plain name List.mem_cons_self
    have starts : ∃ behind, "/".intercalate (name :: rest) = name ++ behind := by
      cases rest with
      | nil => exact ⟨"", by rw [String.intercalate_singleton, String.append_empty]⟩
      | cons next rest => exact ⟨_, by rw [String.intercalate_cons_cons, String.append_assoc]⟩
    obtain ⟨behind, starts⟩ := starts
    rw [starts, String.toList_append]
    cases letters : name.toList with
    | nil => exact absurd (String.toList_eq_nil_iff.mp letters) first.nonempty
    | cons c others =>
      have other : c ≠ '/' := first.no_slash c (letters ▸ List.mem_cons_self)
      simpa using other

theorem Inside.text_eq {path : Path} (inside : path.Inside) :
    path.text = if path.root = "" ∧ path.names = [] then "."
      else path.root ++ "/".intercalate path.names := by
  unfold Path.text
  dsimp only
  by_cases none : path.names = []
  · simp [none]
  · simp [none, String.append_eq_empty_iff, intercalate_ne_empty inside.plain none]

/-- The pieces of the text of a path are its names, behind such as mean nothing. -/
theorem Inside.pieces_text {path : Path} (inside : path.Inside) :
    ∃ blanks, (∀ name ∈ blanks, name = "" ∨ name = ".") ∧
      pieces path.text = blanks ++ path.names := by
  have below : path.names = [] ∧ pieces ("/".intercalate path.names) = [""] ∨
      pieces ("/".intercalate path.names) = path.names := by
    by_cases none : path.names = []
    · exact .inl ⟨none, by rw [none]; rfl⟩
    · exact .inr (pieces_intercalate (fun name h => (inside.plain name h).no_slash) none)
  have slash (text : String) : pieces ("/" ++ text) = "" :: pieces text := by
    simpa using pieces_append (by simp : ∀ c ∈ "".toList, c ≠ '/') text
  rw [inside.text_eq]
  split
  · next empty => exact ⟨["."], by simp, by rw [empty.2]; exact pieces_of_no_slash (by simp)⟩
  · next some =>
    rcases inside.root with root | root | root <;> rw [root]
    · rcases below with ⟨none, -⟩ | below
      · exact absurd ⟨root, none⟩ some
      · exact ⟨[], by simp, by rw [String.empty_append, below, List.nil_append]⟩
    · rw [slash]
      rcases below with ⟨none, below⟩ | below
      · exact ⟨["", ""], by simp, by rw [below, none]; rfl⟩
      · exact ⟨[""], by simp, by rw [below]; rfl⟩
    · rw [show "//" = "/" ++ "/" from rfl, String.append_assoc, slash, slash]
      rcases below with ⟨none, below⟩ | below
      · exact ⟨["", "", ""], by simp, by rw [below, none]; rfl⟩
      · exact ⟨["", ""], by simp, by rw [below]; rfl⟩

theorem Inside.rootOf_text {path : Path} (inside : path.Inside) : rootOf path.text = path.root := by
  have behind := head?_intercalate_ne_slash inside.plain
  have slashes (n : Nat) : ((List.replicate n '/' ++ ("/".intercalate path.names).toList).takeWhile
      (· = '/')).length = n := by
    have none : ("/".intercalate path.names).toList.takeWhile (· = '/') = [] := by
      cases letters : ("/".intercalate path.names).toList with
      | nil => rfl
      | cons c rest =>
        rw [letters] at behind
        exact List.takeWhile_cons_of_neg (by simpa using behind)
    have all : ∀ c ∈ List.replicate n '/', decide (c = '/') = true := by
      simp only [List.mem_replicate, decide_eq_true_eq]
      exact fun _ h => h.2
    rw [List.takeWhile_append_of_pos all, none, List.append_nil, List.length_replicate]
  rw [inside.text_eq]
  split
  · next empty => rw [empty.1]; rfl
  · unfold rootOf
    have counted (n : Nat) (root : path.root.toList = List.replicate n '/') :
        ((path.root ++ "/".intercalate path.names).toList.takeWhile (· = '/')).length = n := by
      rw [String.toList_append, root, slashes]
    rcases inside.root with root | root | root
    · rw [counted 0 (root ▸ rfl)]
      exact root.symm
    · rw [counted 1 (root ▸ rfl)]
      exact root.symm
    · rw [counted 2 (root ▸ rfl)]
      exact root.symm

/-- A path is read back from its text. -/
theorem Inside.ofText_text {path : Path} (inside : path.Inside) : ofText path.text = path := by
  obtain ⟨blanks, blank, cut⟩ := inside.pieces_text
  have whole : (pieces path.text).filter (fun name => name ≠ "" && name ≠ ".") = path.names := by
    have nothing : blanks.filter (fun name => name ≠ "" && name ≠ ".") = [] :=
      List.filter_eq_nil_iff.mpr fun name h => by rcases blank name h with rfl | rfl <;> simp
    rw [cut, List.filter_append, nothing, List.nil_append, List.filter_eq_self]
    intro name h
    simp [(inside.plain name h).nonempty, (inside.plain name h).not_here]
  rw [ofText, inside.rootOf_text, whole]

/-- The text of a folder is no longer than that of a path below it. -/
theorem Inside.size_le_join {path : Path} (inside : path.Inside) (h : Plain name) :
    path.text.utf8ByteSize ≤ (path.join name).text.utf8ByteSize := by
  have below := (inside.join h).text_eq
  rw [join_of_plain path h, if_neg (by simp)] at below
  rw [join_of_plain path h, below, inside.text_eq]
  split
  · next empty =>
    have nonempty : name.utf8ByteSize ≠ 0 := fun zero =>
      h.nonempty (String.utf8ByteSize_eq_zero_iff.mp zero)
    rw [empty.1, empty.2, List.nil_append, String.intercalate_singleton, String.empty_append]
    exact Nat.one_le_iff_ne_zero.mpr nonempty
  · rw [String.utf8ByteSize_append, String.utf8ByteSize_append]
    refine Nat.add_le_add_left ?_ _
    by_cases none : path.names = []
    · rw [none, String.intercalate_nil]
      exact Nat.zero_le _
    · rw [String.intercalate_append_of_ne_nil none (List.cons_ne_nil _ _), String.append_assoc,
        String.utf8ByteSize_append]
      exact Nat.le_add_right _ _

end Path

namespace FileTree

variable {tree : FileTree} {name text : String} {path : Path} {place : Place}

/-- The error of a walk names a path, and nothing else depends on it. -/
theorem walk_path {names : List String} {from' : Place} (other : String)
    (h : tree.walk text from' names = .ok place) : tree.walk other from' names = .ok place := by
  induction names generalizing from' with
  | nil => exact h
  | cons name rest ih =>
    rw [walk] at h ⊢
    split at h
    · exact absurd h (by simp)
    · exact absurd h (by simp)
    · split_ifs at h ⊢
      · exact ih h
      · exact ih h
      · exact ih h

theorem walk_append (text : String) (start : Place) (names others : List String) :
    tree.walk text start (names ++ others) =
      (tree.walk text start names).bind fun middle => tree.walk text middle others := by
  induction names generalizing start with
  | nil => rfl
  | cons name rest ih =>
    rw [List.cons_append, walk, walk]
    split
    · rfl
    · rfl
    · split_ifs
      · rfl
      · exact ih _
      · exact ih _
      · exact ih _

/-- Names that mean nothing lead from the folder that holds all others to itself. -/
theorem walk_blanks {blanks : List String} (blank : ∀ name ∈ blanks, name = "" ∨ name = ".")
    (text : String) (names : List String) :
    tree.walk text [] (blanks ++ names) = tree.walk text [] names := by
  induction blanks with
  | nil => rfl
  | cons name rest ih =>
    obtain ⟨first, others⟩ := List.forall_mem_cons.mp blank
    have short : ¬ maxNameBytes < name.utf8ByteSize := by rcases first with rfl | rfl <;> decide
    rw [List.cons_append, walk, node?_root]
    dsimp only
    rw [if_neg short, if_pos (by simpa using first), ih others]

theorem locate_text (inside : path.Inside) : tree.locate path.text =
    if maxPathBytes ≤ path.text.utf8ByteSize then .error (.nameTooLong path.text)
    else tree.walk path.text [] path.names := by
  obtain ⟨blanks, blank, cut⟩ := inside.pieces_text
  unfold locate
  rw [if_neg (Path.text_ne_empty path), cut, walk_blanks blank]

theorem locate_text_eq_ok (inside : path.Inside) : tree.locate path.text = .ok place ↔
    path.text.utf8ByteSize < maxPathBytes ∧ tree.walk path.text [] path.names = .ok place := by
  rw [locate_text inside]
  split
  · next long => exact ⟨fun h => absurd h (by simp), fun h => absurd h.1 (Nat.not_lt.mpr long)⟩
  · next short => rw [and_iff_right (Nat.lt_of_not_le short)]

/-- A path leads nowhere but to its place. -/
theorem eq_place_of_locate (inside : path.Inside) (h : tree.locate path.text = .ok place) :
    place = path.place := by
  have walks (names : List String) (plain : ∀ name ∈ names, Path.Plain name) (start : Place)
      (h : tree.walk path.text start names = .ok place) : place = names.foldl
        (fun place name => if name = ".." then place.dropLast else place ++ [name]) start := by
    induction names generalizing start with
    | nil => exact (Except.ok.inj h).symm
    | cons name rest ih =>
      obtain ⟨first, others⟩ := List.forall_mem_cons.mp plain
      rw [walk] at h
      rw [List.foldl_cons]
      split at h
      · exact absurd h (by simp)
      · exact absurd h (by simp)
      · have counts : ¬ (name = "" || name = ".") = true := by simp [first.nonempty, first.not_here]
        rw [if_neg counts] at h
        split at h
        · exact absurd h (by simp)
        · split_ifs at h ⊢
          · exact ih others _ h
          · exact ih others _ h
  exact walks path.names inside.plain [] ((locate_text_eq_ok inside).mp h).2

/-- A name below a folder leads to the place right below that of the folder, which is there. -/
theorem locate_below (inside : path.Inside) (plain : Path.Plain name) (up : name ≠ "..")
    (h : tree.locate (path.join name).text = .ok place) :
    ∃ above, tree.locate path.text = .ok above ∧ tree.node? above = some .folder ∧
      place = above ++ [name] := by
  obtain ⟨short, walks⟩ := (locate_text_eq_ok (inside.join plain)).mp h
  rw [Path.names_join plain, walk_append] at walks
  cases reaches : tree.walk (path.join name).text [] path.names with
  | error cause =>
    rw [reaches] at walks
    exact absurd walks (by simp [Except.bind])
  | ok above =>
    rw [reaches] at walks
    have last : tree.walk (path.join name).text above [name] = .ok place := walks
    have located : tree.locate path.text = .ok above := by
      refine (locate_text_eq_ok inside).mpr ⟨?_, walk_path path.text reaches⟩
      exact Nat.lt_of_le_of_lt (inside.size_le_join plain) short
    rw [walk] at last
    split at last
    · exact absurd last (by simp)
    · exact absurd last (by simp)
    · next there =>
      split_ifs at last with long none
      · simp [plain.nonempty, plain.not_here] at none
      · exact ⟨above, located, there, (Except.ok.inj last).symm⟩

theorem locate_join (inside : path.Inside) (plain : Path.Plain name) (up : name ≠ "..")
    (h : tree.locate (path.join name).text = .ok place) :
    ∃ above, tree.locate path.text = .ok above ∧ place = above ++ [name] := by
  obtain ⟨above, located, -, same⟩ := locate_below inside plain up h
  exact ⟨above, located, same⟩

/-- A name that is too long cannot be asked for. -/
theorem checkExists_of_long (inside : path.Inside) (plain : Path.Plain name)
    (folder : tree.isFolder path.text = true) (long : maxNameBytes < name.utf8ByteSize)
    (noNull : (path.join name).text.toList.contains (Char.ofNat 0) = false) :
    tree.checkExists (path.join name).text = .error (.nameTooLong (path.join name).text) := by
  obtain ⟨above, located, there⟩ := isFolder_iff.mp folder
  have fails : tree.locate (path.join name).text = .error (.nameTooLong (path.join name).text) := by
    have reaches := walk_path (path.join name).text ((locate_text_eq_ok inside).mp located).2
    rw [locate_text (inside.join plain), Path.names_join plain, walk_append, reaches]
    split
    · rfl
    · change tree.walk _ above [name] = _
      rw [walk, there]
      exact if_pos long
  have missing : tree.find (path.join name).text = .error (.nameTooLong (path.join name).text) := by
    unfold find
    rw [fails]
    rfl
  unfold checkExists
  rw [missing]
  exact if_neg (Bool.eq_false_iff.mp noNull)

/-- The names that a folder holds are those of the places right below it. -/
theorem mem_namesIn : name ∈ tree.namesIn text ↔
    ∃ place, tree.locate text = .ok place ∧ tree.node? (place ++ [name]) ≠ none := by
  have entry {place : Place} (node : FileNode) : (place, node) ∈ tree.nodes →
      tree.nodes.lookup place ≠ none := fun h none =>
    absurd (List.lookup_eq_none_iff.mp none _ h) (by simp)
  unfold namesIn
  cases tree.locate text with
  | error cause => simp
  | ok place =>
    unfold node?
    simp only [List.mem_filterMap, Except.ok.injEq, exists_eq_left']
    rw [if_neg (by simp)]
    constructor
    · rintro ⟨⟨other, node⟩, h, named⟩
      split at named
      · next below =>
        simp only [Bool.and_eq_true, decide_eq_true_eq] at below
        obtain rfl : place ++ [name] = other :=
          below.1 ▸ List.dropLast_append_getLast? name named
        exact entry node h
      · exact absurd named (by simp)
    · intro there
      obtain ⟨node, known⟩ := Option.ne_none_iff_exists'.mp there
      obtain ⟨earlier, later, nodes, -⟩ := List.lookup_eq_some_iff.mp known
      refine ⟨(place ++ [name], node), nodes ▸ List.mem_append_cons_self, ?_⟩
      rw [if_pos (by simp), List.getLast?_concat]

end FileTree

end Montage
