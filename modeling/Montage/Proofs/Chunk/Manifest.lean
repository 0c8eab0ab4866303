import Montage.Decode.Manifest
import Montage.Encode.Manifest
import Montage.Proofs.Json.RoundTrip
import Montage.Proofs.Timestamp

/-!
# A manifest that is written is read back

A manifest is written by an encoder and read by a decoder of its own, which fills in what is left out
and refuses what it does not know. What the encoder writes, the decoder reads field by field as it
was; only a time of the project that is not finite is left out, for it has no text.

## Main definitions

* `Manifest.Readable` — a manifest whose text can be read
* `Manifest.kept` — what its text keeps of a manifest

## Main results

* `Manifest.read?_text` — a manifest is read as its text keeps it
* `Manifest.entries_of_read?` — what is read of any manifest has its entries
-/

namespace Montage

open Text

/-- A whole number of few enough digits to be read. -/
def ShortNumeral (n : Int) : Prop := (Nat.toDigits 10 n.natAbs).length ≤ maxWholeDigits

instance (n : Int) : Decidable (ShortNumeral n) := inferInstanceAs (Decidable (_ ≤ _))

namespace Manifest

variable {manifest : Manifest Double} {now : Timestamp}

/-- A manifest of finite numbers, of whole numbers that are not too long and of moments that have a
text. -/
structure Readable (manifest : Manifest Double) : Prop where
  version : ShortNumeral manifest.version
  chunkDuration : manifest.chunkDuration.isFinite = true
  totalDuration : manifest.totalDuration.isFinite = true
  width : ShortNumeral manifest.resolution.1
  height : ShortNumeral manifest.resolution.2
  frameRate : manifest.frameRate.isFinite = true
  indices : ∀ entry ∈ manifest.entries, ShortNumeral entry.index
  createdAt : manifest.createdAt.Regular
  updatedAt : manifest.updatedAt.Regular

/-- A manifest without a time of the project that is not finite. -/
def kept (manifest : Manifest Double) : Manifest Double :=
  { manifest with projectTime := manifest.projectTime.filter (·.isFinite) }

/-! ### The text -/

theorem writesFinite_numberText : Json.WritesFinite (numberText : Double → String) numberLayout := by
  intro x finite
  cases x with
  | nan => exact absurd finite Bool.false_ne_true
  | infinite _ => exact absurd finite Bool.false_ne_true
  | finite _ _ _ => rfl

theorem numberText_of_not_finite {x : Double} (h : x.isFinite = false) : numberText x = "null" := by
  cases x with
  | nan => rfl
  | infinite _ => rfl
  | finite _ _ _ => exact absurd h.symm Bool.false_ne_true

/-- What is not finite is written as nothing. -/
theorem indented_ofReal? (x : Option Double) (indent : Nat) :
    (Json.ofReal? x).indented numberText indent =
      (Json.ofReal? (x.filter (·.isFinite))).indented numberText indent := by
  cases x with
  | none => rfl
  | some x =>
    cases finite : x.isFinite with
    | true => rw [Option.filter_some_pos (by simpa using finite)]
    | false =>
      rw [Option.filter_some_neg (by simp [finite])]
      exact numberText_of_not_finite finite

theorem text_kept (manifest : Manifest Double) : manifest.kept.text = manifest.text := by
  unfold text Encode.manifest kept
  simp only [Json.indented, Json.indentedFields, ← indented_ofReal?]

theorem legible_entries {entries : List ManifestEntry} {depth : Nat} (deep : 0 < depth)
    (short : ∀ entry ∈ entries, ShortNumeral entry.index) :
    Json.LegibleItems depth (entries.map Encode.manifestEntry) := by
  induction entries with
  | nil => trivial
  | cons entry rest ih =>
    obtain ⟨first, short⟩ := List.forall_mem_cons.mp short
    have names : ["index", "content_hash", "file_name", "is_complex"].Nodup := by decide
    exact ⟨⟨deep, names, first, trivial, trivial, trivial, trivial⟩, ih short⟩

theorem legible_manifest (readable : manifest.Readable) :
    Json.Legible dialect.maxDepth (Encode.manifest Timestamp.shortText manifest.kept) := by
  have time : Json.Legible 199 (Json.ofReal? manifest.kept.projectTime) := by
    cases known : manifest.kept.projectTime with
    | none => trivial
    | some x => exact (Option.filter_eq_some_iff.mp known).2
  have names : ["version", "project_hash", "project_mtime", "chunk_duration", "total_duration",
      "resolution", "frame_rate", "chunks", "created_at", "updated_at"].Nodup := by decide
  exact ⟨by decide, names, readable.version, trivial, time, readable.chunkDuration,
    readable.totalDuration, ⟨by decide, readable.width, readable.height, trivial⟩, readable.frameRate,
    ⟨by decide, legible_entries (by decide) readable.indices⟩, trivial, trivial, trivial⟩

/-! ### The decoder -/

section Fields

variable {α : Type} {fields : Decode.Fields} {name : String} {value : Json Double}
  {decode : Decoder α} {a : α}

theorem required_eq (here : fields.lookup name = some value) (decoded : decode value = .ok a) :
    Decode.required fields name decode = .ok a := by
  rw [Decode.required, here]
  dsimp only
  rw [decoded]
  rfl

theorem withDefault_eq (default : α) (here : fields.lookup name = some value)
    (decoded : decode value = .ok a) : Decode.withDefault fields name default decode = .ok a := by
  rw [Decode.withDefault, here]
  dsimp only
  rw [decoded]
  rfl

end Fields

theorem count_natCast (n : Nat) : Decode.count (.int n) = .ok n := by
  have positive : (0 : Int) ≤ n := Int.natCast_nonneg n
  simp [Decode.count, Decode.integer, Checked.andThen]

theorem text_text (s : String) : Decode.text (.text s) = .ok s := rfl

theorem integer_int (n : Int) : Decode.integer (.int n) = .ok n := rfl

theorem number_real (x : Double) : Decode.number (.real x) = .ok x := rfl

theorem flag_bool (b : Bool) : Decode.flag (.bool b) = .ok b := rfl

theorem pair_ints (pair : Int × Int) :
    Decode.pair Decode.integer (.list [.int pair.1, .int pair.2]) = .ok pair := rfl

theorem manifestEntry_encode (entry : ManifestEntry) :
    Decode.manifestEntry (Encode.manifestEntry entry) = .ok entry := by
  rw [Encode.manifestEntry, Decode.manifestEntry, Decode.record,
    required_eq rfl (count_natCast entry.index), required_eq rfl (text_text entry.contentHash),
    required_eq rfl (text_text entry.fileName), withDefault_eq false rfl (flag_bool entry.isComplex)]
  rfl

theorem list_manifestEntry (entries : List ManifestEntry) :
    Decode.list Decode.manifestEntry (.list (entries.map Encode.manifestEntry)) = .ok entries := by
  have items (i : Nat) :
      Checked.all (Decode.itemsFrom Decode.manifestEntry i (entries.map Encode.manifestEntry)) =
        .ok entries := by
    induction entries generalizing i with
    | nil => rfl
    | cons entry rest ih =>
      rw [List.map_cons, Decode.itemsFrom, Checked.all, manifestEntry_encode, ih]
      rfl
  exact items 0

theorem optional_ofReal? (x : Option Double) :
    Decode.optional Decode.number (Json.ofReal? x) = .ok x := by
  cases x <;> rfl

theorem moment_shortText {t : Timestamp} (regular : t.Regular) :
    Decode.moment (.text t.shortText) = .ok t := by
  rw [Decode.moment, Timestamp.read?_shortText regular]
  rfl

theorem decode_encode (readable : manifest.Readable) :
    Decode.manifest now (Encode.manifest Timestamp.shortText manifest) = .ok manifest := by
  rw [Encode.manifest, Decode.manifest, Decode.record,
    withDefault_eq _ rfl (integer_int manifest.version),
    required_eq rfl (text_text manifest.projectHash),
    withDefault_eq _ rfl (optional_ofReal? manifest.projectTime),
    required_eq rfl (number_real manifest.chunkDuration),
    required_eq rfl (number_real manifest.totalDuration),
    required_eq rfl (pair_ints manifest.resolution),
    required_eq rfl (number_real manifest.frameRate),
    withDefault_eq _ rfl (list_manifestEntry manifest.entries),
    withDefault_eq _ rfl (moment_shortText readable.createdAt),
    withDefault_eq _ rfl (moment_shortText readable.updatedAt)]
  rfl

theorem ofDoubles?_double (manifest : Manifest Double) : ofDoubles? manifest = some manifest := by
  obtain ⟨_, _, projectTime, _⟩ := manifest
  cases projectTime <;> rfl

/-- A manifest is read as its text keeps it. -/
theorem read?_text (readable : manifest.Readable) (now : Timestamp) :
    (read? now manifest.text : Option (Manifest Double)) = some manifest.kept := by
  have same : manifest.kept.Readable := { readable with }
  have read : Json.read dialect manifest.text =
      .ok (Encode.manifest Timestamp.shortText manifest.kept) := by
    rw [← text_kept]
    exact Json.read_indented writesFinite_numberText (legible_manifest readable)
  rw [read?, read]
  dsimp only
  rw [decode_encode same]
  exact ofDoubles?_double manifest.kept

/-! ### Manifests that may not be readable -/

/-- A number, left open if it is not finite. -/
def finiteOrNull (x : Double) : Json Double := Json.ofReal? ((some x).filter (·.isFinite))

/-- A manifest as its text says it. -/
def spelling (manifest : Manifest Double) : Json Double := .object [
  ("version", .int manifest.version),
  ("project_hash", .text manifest.projectHash),
  ("project_mtime", .ofReal? (manifest.projectTime.filter (·.isFinite))),
  ("chunk_duration", finiteOrNull manifest.chunkDuration),
  ("total_duration", finiteOrNull manifest.totalDuration),
  ("resolution", .list [.int manifest.resolution.1, .int manifest.resolution.2]),
  ("frame_rate", finiteOrNull manifest.frameRate),
  ("chunks", .list (manifest.entries.map Encode.manifestEntry)),
  ("created_at", .text manifest.createdAt.shortText),
  ("updated_at", .text manifest.updatedAt.shortText)]

theorem text_eq_spelling (manifest : Manifest Double) :
    manifest.text = manifest.spelling.indented numberText 0 := by
  have left (x : Double) (indent : Nat) : (Json.real x).indented numberText indent =
      (finiteOrNull x).indented numberText indent := indented_ofReal? (some x) indent
  unfold text Encode.manifest spelling
  simp only [Json.indented, Json.indentedFields, ← indented_ofReal?, ← left]

theorem spelled_ofReal? (x : Option Double) (depth : Nat) :
    Json.Spelled depth (Json.ofReal? (x.filter (·.isFinite))) := by
  cases known : x.filter (·.isFinite) with
  | none => trivial
  | some y => exact (Option.filter_eq_some_iff.mp known).2

theorem spelled_entries {depth : Nat} (deep : 0 < depth) (entries : List ManifestEntry) :
    Json.SpelledItems depth (entries.map Encode.manifestEntry) := by
  induction entries with
  | nil => trivial
  | cons entry rest ih =>
    have names : ["index", "content_hash", "file_name", "is_complex"].Nodup := by decide
    exact ⟨⟨deep, names, trivial, trivial, trivial, trivial, trivial⟩, ih⟩

theorem spelled_spelling (manifest : Manifest Double) :
    Json.Spelled dialect.maxDepth manifest.spelling := by
  have names : ["version", "project_hash", "project_mtime", "chunk_duration", "total_duration",
      "resolution", "frame_rate", "chunks", "created_at", "updated_at"].Nodup := by decide
  exact ⟨by decide, names, trivial, trivial, spelled_ofReal? _ _, spelled_ofReal? _ _,
    spelled_ofReal? _ _, ⟨by decide, trivial, trivial, trivial⟩, spelled_ofReal? _ _,
    ⟨by decide, spelled_entries (by decide) _⟩, trivial, trivial, trivial⟩

/-- What is checked field by field has a value if every field has one. -/
theorem seq_eq_ok {α β : Type} {f : Checked (α → β)} {x : Checked α} {b : β}
    (h : f <*> x = .ok b) : ∃ g a, f = .ok g ∧ x = .ok a ∧ b = g a := by
  change (f.both x).map (fun pair => pair.1 pair.2) = .ok b at h
  cases f with
  | problems found => cases x <;> exact absurd h (by simp [Checked.both, Checked.map])
  | ok g =>
    cases x with
    | problems found => exact absurd h (by simp [Checked.both, Checked.map])
    | ok a => exact ⟨g, a, rfl, rfl, (Checked.ok.inj h).symm⟩

/-- Whatever else a manifest says, its entries are read as they are listed. -/
theorem entries_of_decode {found : Manifest Double} {fields : Decode.Fields}
    {entries : List ManifestEntry}
    (listed : fields.lookup "chunks" = some (.list (entries.map Encode.manifestEntry)))
    (h : Decode.manifest now (.object fields) = .ok found) : found.entries = entries := by
  obtain ⟨_, updatedAt, toCreatedAt, -, rfl⟩ := seq_eq_ok h
  obtain ⟨_, createdAt, toEntries, -, rfl⟩ := seq_eq_ok toCreatedAt
  obtain ⟨_, items, toFrameRate, read, rfl⟩ := seq_eq_ok toEntries
  rw [withDefault_eq [] listed (list_manifestEntry entries)] at read
  obtain rfl := Checked.ok.inj read
  obtain ⟨_, frameRate, toResolution, -, rfl⟩ := seq_eq_ok toFrameRate
  obtain ⟨_, resolution, toTotal, -, rfl⟩ := seq_eq_ok toResolution
  obtain ⟨_, total, toLength, -, rfl⟩ := seq_eq_ok toTotal
  obtain ⟨_, length, toTime, -, rfl⟩ := seq_eq_ok toLength
  obtain ⟨_, time, toProject, -, rfl⟩ := seq_eq_ok toTime
  obtain ⟨_, project, toVersion, -, rfl⟩ := seq_eq_ok toProject
  cases version : Decode.withDefault fields "version" currentVersion Decode.integer with
  | problems found =>
    rw [version] at toVersion
    exact absurd toVersion (by simp [Functor.map, Checked.map])
  | ok n =>
    rw [version] at toVersion
    rw [← Checked.ok.inj toVersion]

/-- If the text of a manifest is read at all, the entries are read as they were. -/
theorem entries_of_read? {found : Manifest Double}
    (h : (read? now manifest.text : Option (Manifest Double)) = some found) :
    found.entries = manifest.entries := by
  unfold read? at h
  split at h
  · exact absurd h (by simp)
  · next value read =>
    rw [text_eq_spelling] at read
    obtain rfl := Json.eq_of_read_indented writesFinite_numberText (spelled_spelling manifest) read
    split at h
    · exact absurd h (by simp)
    · next decoded =>
      rw [ofDoubles?_double] at h
      obtain rfl := Option.some.inj h
      exact entries_of_decode rfl decoded

end Manifest

end Montage
