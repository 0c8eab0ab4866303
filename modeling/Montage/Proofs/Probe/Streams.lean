import Montage.Proofs.Probe.Values

/-!
# Reports that are not taken apart

The first video stream and the first audio stream of a report are looked into, all others only for
their kind. Up to the first video stream nothing is known of the file but what the report says about
it as a whole.

## Main definitions

* `ProbedMedia.VideoFault`, `ProbedMedia.AudioFault` — streams that cannot be looked into
* `ProbedMedia.InfoFault` — reports that cannot be taken apart

## Main results

* `ProbedMedia.escapes_ofReport_iff` — taking a report apart escapes at exactly these
* `ProbedMedia.size_of_ofReport` — width and height are those of the first video stream
-/

namespace Montage

open Report

namespace ProbedMedia

variable {info next : ProbedMedia} {stream value : Json Double}

/-- A stream that is of a kind. -/
def isKind (kind : String) (stream : Json Double) : Bool :=
  match stream.get? "codec_type" with
  | some (.text k) => k = kind
  | _ => false

/-- The first video stream cannot be taken apart. Of its rates the second counts where the first
is none, and its duration where there is none `untold` so far. -/
inductive VideoFault (untold : Prop) (stream : Json Double) : Prop where
  | rate (fault : RateFault ((stream.get? "r_frame_rate").getD .null))
  | average (none : (rateOf? ((stream.get? "r_frame_rate").getD .null)).bind nonzero? = none)
      (fault : RateFault ((stream.get? "avg_frame_rate").getD .null))
  | duration {value : Json Double} (needed : untold) (here : stream.get? "duration" = some value)
      (fault : NumberFault value)

/-- The first audio stream cannot be taken apart. -/
def AudioFault (stream : Json Double) : Prop :=
  ∃ value, stream.get? "sample_rate" = some value ∧ WholeFault value

theorem addVideo_eq (h : IsObject stream) : info.addVideo stream =
    (frameRateOf ((stream.get? "r_frame_rate").getD .null) >>= fun first =>
      (match first.bind nonzero? with
        | some rate => .ok (some rate)
        | none => frameRateOf ((stream.get? "avg_frame_rate").getD .null)) >>= fun frameRate =>
      (match info.duration with
        | some duration => .ok (some duration)
        | none => durationIn? stream) >>= fun duration =>
      .ok { info with
        hasVideo := true, frameRate, duration
        width := (stream.get? "width").getD .null
        height := (stream.get? "height").getD .null
        videoCodec := (stream.get? "codec_name").getD .null }) := by
  unfold addVideo
  simp only [plain_of_isObject h, liftM_ok, ok_bind]
  refine bind_congr fun first => ?_
  cases first.bind nonzero? with
  | some rate =>
    cases info.duration with
    | some duration => rfl
    | none => rfl
  | none =>
    refine bind_congr fun rate => ?_
    cases info.duration with
    | some duration => rfl
    | none => rfl

/-- The rate of a stream: the first of two values that denotes one. -/
theorem escapes_rates_iff : Escapes (frameRateOf value >>= fun first => match first.bind nonzero? with
      | some rate => .ok (some rate)
      | none => frameRateOf other) ↔
    RateFault value ∨ (rateOf? value).bind nonzero? = none ∧ RateFault other := by
  by_cases fault : RateFault value
  · exact iff_of_true (escapes_bind_iff.mpr (.inl (escapes_frameRateOf_iff.mpr fault))) (.inl fault)
  · rw [escapes_bind_of_ok (frameRateOf_of_not fault), or_iff_right fault]
    cases (rateOf? value).bind nonzero? with
    | none => exact escapes_frameRateOf_iff.trans (and_iff_right rfl).symm
    | some rate => exact iff_of_false (not_escapes_ok _) nofun

theorem rates_decided (value other : Json Double) :
    Decided (frameRateOf value >>= fun first => match first.bind nonzero? with
      | some rate => .ok (some rate)
      | none => frameRateOf other) := by
  refine (frameRateOf_decided value).bind fun first => ?_
  cases first.bind nonzero? with
  | none => exact frameRateOf_decided other
  | some rate => exact decided_ok _

/-- With a duration that is known already the stream's own is not looked at. -/
theorem escapes_ownDuration_iff (known : Option Double) (h : IsObject stream) :
    Escapes (match known with | some duration => .ok (some duration) | none => durationIn? stream) ↔
      known = none ∧ ∃ value, stream.get? "duration" = some value ∧ NumberFault value := by
  cases known with
  | some duration => exact iff_of_false (not_escapes_ok _) nofun
  | none =>
    obtain ⟨fields, rfl⟩ := h
    exact escapes_durationIn?_iff.trans (and_iff_right rfl).symm

theorem escapes_addVideo_iff (h : IsObject stream) :
    Escapes (info.addVideo stream) ↔ VideoFault (info.duration = none) stream := by
  rw [addVideo_eq h, ← bind_assoc]
  refine ((rates_decided _ _).escapes_bind_iff fun rate _ =>
    (escapes_bind_of_not fun duration => not_escapes_ok _).trans (escapes_ownDuration_iff _ h)).trans ?_
  rw [escapes_rates_iff]
  constructor
  · rintro ((fault | ⟨none, fault⟩) | ⟨unknown, value, here, fault⟩)
    · exact .rate fault
    · exact .average none fault
    · exact .duration unknown here fault
  · rintro (fault | ⟨none, fault⟩ | ⟨unknown, here, fault⟩)
    · exact .inl (.inl fault)
    · exact .inl (.inr ⟨none, fault⟩)
    · exact .inr ⟨unknown, _, here, fault⟩

theorem addVideo_decided (h : IsObject stream) : Decided (info.addVideo stream) := by
  rw [addVideo_eq h, ← bind_assoc]
  refine (rates_decided _ _).bind fun rate => Decided.bind ?_ fun duration => decided_ok _
  cases info.duration with
  | some duration => exact decided_ok _
  | none => exact durationIn?_decided stream

theorem addAudio_eq (h : IsObject stream) : info.addAudio stream =
    (whole ((stream.get? "sample_rate").getD (.int 0)) >>= fun rate => .ok { info with
      hasAudio := true
      sampleRate := if rate = 0 then none else some rate
      audioCodec := (stream.get? "codec_name").getD .null
      channels := (stream.get? "channels").getD .null }) := by
  unfold addAudio
  simp only [plain_of_isObject h, field_of_isObject h, liftM_ok, ok_bind]
  rfl

theorem escapes_addAudio_iff (h : IsObject stream) :
    Escapes (info.addAudio stream) ↔ AudioFault stream := by
  rw [addAudio_eq h, escapes_bind_of_not fun rate => not_escapes_ok _, escapes_whole_iff]
  unfold AudioFault
  cases stream.get? "sample_rate" with
  | none => exact iff_of_false id nofun
  | some value => simp only [Option.getD_some, Option.some.injEq, exists_eq_left']

theorem addAudio_decided (h : IsObject stream) : Decided (info.addAudio stream) := by
  rw [addAudio_eq h]
  exact (whole_decided _).bind fun rate => decided_ok _

theorem addStream_of_not (h : ¬ IsObject stream) : Escapes (info.addStream stream) := by
  unfold addStream
  rw [plain_of_not h]
  exact escapes_shape _

theorem addStream_eq (h : IsObject stream) : info.addStream stream =
    if isKind "video" stream && !info.hasVideo then info.addVideo stream
    else if isKind "audio" stream && !info.hasAudio then info.addAudio stream
    else .ok info := by
  unfold addStream isKind
  simp only [plain_of_isObject h, liftM_ok, ok_bind]
  cases stream.get? "codec_type" with
  | none => rfl
  | some value =>
    cases value with
    | text kind => rfl
    | null | bool _ | int _ | real _ | list _ | object _ => rfl

theorem isKind_other (h : isKind "video" stream = true) : isKind "audio" stream = false := by
  unfold isKind at h ⊢
  split at h
  · rw [of_decide_eq_true h]
    rfl
  · cases h

/-- The first stream of a kind. -/
def firstOf (kind : String) (streams : List (Json Double)) : Option (Json Double) :=
  streams.find? (isKind kind)

/-- What a stream, once read, has added. -/
structure Adds (info : ProbedMedia) (stream : Json Double) (next : ProbedMedia) : Prop where
  hasVideo : next.hasVideo = (info.hasVideo || isKind "video" stream)
  hasAudio : next.hasAudio = (info.hasAudio || isKind "audio" stream)
  /-- Only a video stream has a duration to tell. -/
  duration : next.hasVideo = false → next.duration = info.duration
  size : (next.width, next.height) =
    if isKind "video" stream && !info.hasVideo then
      ((stream.get? "width").getD .null, (stream.get? "height").getD .null)
    else (info.width, info.height)

theorem addStream_adds (object : IsObject stream) (h : info.addStream stream = .ok next) :
    Adds info stream next := by
  rw [addStream_eq object] at h
  by_cases video : (isKind "video" stream && !info.hasVideo) = true
  · rw [if_pos video, addVideo_eq object] at h
    obtain ⟨first, -, h⟩ := exists_of_bind_eq_ok h
    obtain ⟨rate, -, h⟩ := exists_of_bind_eq_ok h
    obtain ⟨duration, -, h⟩ := exists_of_bind_eq_ok h
    cases h
    obtain ⟨kind, -⟩ := Bool.and_eq_true_iff.mp video
    exact {
      hasVideo := by rw [kind, Bool.or_true]
      hasAudio := by rw [isKind_other kind, Bool.or_false]
      duration := nofun
      size := by rw [if_pos video] }
  · rw [if_neg video] at h
    have shown : info.hasVideo = (info.hasVideo || isKind "video" stream) := by
      cases seen : info.hasVideo with
      | true => rfl
      | false =>
        rw [seen, Bool.not_false, Bool.and_true] at video
        rw [Bool.eq_false_iff.mpr video, Bool.or_false]
    by_cases audio : (isKind "audio" stream && !info.hasAudio) = true
    · rw [if_pos audio, addAudio_eq object] at h
      obtain ⟨rate, -, h⟩ := exists_of_bind_eq_ok h
      cases h
      exact {
        hasVideo := shown
        hasAudio := by rw [(Bool.and_eq_true_iff.mp audio).1, Bool.or_true]
        duration := fun _ => rfl
        size := by rw [if_neg video] }
    · rw [if_neg audio] at h
      cases h
      exact {
        hasVideo := shown
        hasAudio := by
          cases heard : info.hasAudio with
          | true => rfl
          | false =>
            rw [heard, Bool.not_false, Bool.and_true] at audio
            rw [Bool.eq_false_iff.mpr audio, Bool.or_false]
        duration := fun _ => rfl
        size := by rw [if_neg video] }

theorem addStream_decided : Decided (info.addStream stream) := by
  by_cases object : IsObject stream
  · rw [addStream_eq object]
    split
    · exact addVideo_decided object
    · split
      · exact addAudio_decided object
      · exact decided_ok info
  · exact .inr (addStream_of_not object)

theorem escapes_addStream_iff (object : IsObject stream) : Escapes (info.addStream stream) ↔
    (isKind "video" stream = true ∧ info.hasVideo = false ∧ VideoFault (info.duration = none) stream) ∨
      isKind "audio" stream = true ∧ info.hasAudio = false ∧ AudioFault stream := by
  rw [addStream_eq object]
  by_cases video : (isKind "video" stream && !info.hasVideo) = true
  · obtain ⟨kind, unseen⟩ := Bool.and_eq_true_iff.mp video
    rw [if_pos video, escapes_addVideo_iff object, or_iff_left, and_iff_right kind,
      and_iff_right ((Bool.not_eq_true' _).mp unseen)]
    rintro ⟨kind', -⟩
    rw [isKind_other kind] at kind'
    cases kind'
  · rw [if_neg video, or_iff_right fun h => video (by rw [h.1, h.2.1]; rfl)]
    by_cases audio : (isKind "audio" stream && !info.hasAudio) = true
    · obtain ⟨kind, unheard⟩ := Bool.and_eq_true_iff.mp audio
      rw [if_pos audio, escapes_addAudio_iff object, and_iff_right kind,
        and_iff_right ((Bool.not_eq_true' _).mp unheard)]
    · rw [if_neg audio]
      exact iff_of_false (not_escapes_ok _) fun h => audio (by rw [h.1, h.2.1]; rfl)

/-- The first stream of a kind is looked at unless one of that kind was seen before. -/
def Unseen (seen : Bool) (kind : String) (streams : List (Json Double)) (fault : Json Double → Prop) :
    Prop :=
  seen = false ∧ ∃ stream, firstOf kind streams = some stream ∧ fault stream

theorem unseen_cons {seen : Bool} {kind : String} {streams : List (Json Double)}
    {fault : Json Double → Prop} : Unseen seen kind (stream :: streams) fault ↔
      (isKind kind stream = true ∧ seen = false ∧ fault stream) ∨
        Unseen (seen || isKind kind stream) kind streams fault := by
  unfold Unseen firstOf
  cases here : isKind kind stream with
  | true =>
    rw [List.find?_cons_of_pos here, Bool.or_true, or_iff_left fun h => nomatch h.1]
    simp only [Option.some.injEq, exists_eq_left', true_and]
  | false =>
    rw [List.find?_cons_of_neg (Bool.eq_false_iff.mp here), Bool.or_false,
      or_iff_right fun h => nomatch h.1]

theorem escapes_addStreams_iff {streams : List (Json Double)} :
    Escapes (streams.foldlM addStream info) ↔ (∃ stream ∈ streams, ¬ IsObject stream) ∨
      Unseen info.hasVideo "video" streams (VideoFault (info.duration = none)) ∨
      Unseen info.hasAudio "audio" streams AudioFault := by
  induction streams generalizing info with
  | nil =>
    refine iff_of_false (not_escapes_ok info) ?_
    rintro (⟨stream, inside, -⟩ | ⟨-, stream, first, -⟩ | ⟨-, stream, first, -⟩)
    · cases inside
    · cases first
    · cases first
  | cons stream streams ih =>
    rw [List.foldlM_cons]
    by_cases object : IsObject stream
    · -- What the stream adds is seen by the others, and so is not looked at again.
      have rest (next : ProbedMedia) (h : info.addStream stream = .ok next) :
          Escapes (streams.foldlM addStream next) ↔ (∃ s ∈ streams, ¬ IsObject s) ∨
            Unseen (info.hasVideo || isKind "video" stream) "video" streams (VideoFault (info.duration = none)) ∨
            Unseen (info.hasAudio || isKind "audio" stream) "audio" streams AudioFault := by
        have adds := addStream_adds object h
        rw [ih, adds.hasAudio, ← adds.hasVideo]
        refine or_congr_right (or_congr_left (and_congr_right fun unseen => ?_))
        rw [adds.duration unseen]
      rw [addStream_decided.escapes_bind_iff rest, escapes_addStream_iff object, unseen_cons, unseen_cons]
      have others : (∃ s ∈ stream :: streams, ¬ IsObject s) ↔ ∃ s ∈ streams, ¬ IsObject s := by
        simp only [List.mem_cons, or_and_right, exists_or, exists_eq_left, object, not_true_eq_false,
          false_or]
      rw [others, or_left_comm, or_or_or_comm]
    · exact iff_of_true (escapes_bind_iff.mpr (.inl (addStream_of_not object)))
        (.inl ⟨stream, List.mem_cons_self, object⟩)

theorem addStreams_decided (info : ProbedMedia) (streams : List (Json Double)) :
    Decided (streams.foldlM addStream info) := by
  induction streams generalizing info with
  | nil => exact decided_ok info
  | cons stream streams ih =>
    rw [List.foldlM_cons]
    exact addStream_decided.bind ih

/-- Width and height are those of the first video stream. -/
theorem size_of_addStreams {streams : List (Json Double)} (h : streams.foldlM addStream info = .ok next) :
    (info.hasVideo = true → next.hasVideo = true ∧ (next.width, next.height) = (info.width, info.height)) ∧
    (info.hasVideo = false → match firstOf "video" streams with
      | some stream => next.hasVideo = true ∧ (next.width, next.height) =
          ((stream.get? "width").getD .null, (stream.get? "height").getD .null)
      | none => next.hasVideo = false) := by
  induction streams generalizing info with
  | nil =>
    cases h
    exact ⟨fun seen => ⟨seen, rfl⟩, id⟩
  | cons stream streams ih =>
    rw [List.foldlM_cons] at h
    obtain ⟨middle, first, rest⟩ := exists_of_bind_eq_ok h
    have object : IsObject stream := by
      by_contra other
      have escapes : Escapes (info.addStream stream) := addStream_of_not other
      obtain ⟨failure, fails, -⟩ := escapes
      rw [first] at fails
      cases fails
    have adds := addStream_adds object first
    obtain ⟨shown, unseen⟩ := ih rest
    constructor
    · intro seen
      have size := adds.size
      rw [seen, Bool.not_true, Bool.and_false, if_neg Bool.false_ne_true] at size
      rw [← size]
      exact shown (by rw [adds.hasVideo, seen, Bool.true_or])
    · intro fresh
      have size := adds.size
      rw [fresh, Bool.not_false, Bool.and_true] at size
      unfold firstOf at unseen ⊢
      by_cases video : isKind "video" stream = true
      · rw [if_pos video] at size
        rw [List.find?_cons_of_pos video]
        dsimp only
        rw [← size]
        exact shown (by rw [adds.hasVideo, video, Bool.or_true])
      · rw [List.find?_cons_of_neg video]
        refine unseen ?_
        rw [adds.hasVideo, fresh, Bool.eq_false_iff.mpr video]
        rfl

/-! ### Reports -/

/-- The streams of a report: a list, or something empty in its place. -/
def itemsOf : Json Double → Option (List (Json Double))
  | .list items => some items
  | .text s => if s = "" then some [] else none
  | .object fields => if fields.isEmpty then some [] else none
  | _ => none

/-- What a report has to say about the file itself. -/
def formatOf (report : Json Double) : Json Double := (report.get? "format").getD (.object [])

/-- What a report has in the place of the streams. -/
def streamsOf (report : Json Double) : Json Double := (report.get? "streams").getD (.list [])

/-- A report cannot be taken apart. -/
inductive InfoFault (report : Json Double) : Prop where
  | report (other : ¬ IsObject report)
  | format (fault : DurationFault (formatOf report))
  | streams (none : itemsOf (streamsOf report) = none)
  | stream {items : List (Json Double)} {stream : Json Double}
      (here : itemsOf (streamsOf report) = some items) (inside : stream ∈ items)
      (other : ¬ IsObject stream)
  | video {items : List (Json Double)} {stream : Json Double}
      (here : itemsOf (streamsOf report) = some items) (first : firstOf "video" items = some stream)
      (fault : VideoFault ((formatOf report).get? "duration" = none) stream)
  | audio {items : List (Json Double)} {stream : Json Double}
      (here : itemsOf (streamsOf report) = some items) (first : firstOf "audio" items = some stream)
      (fault : AudioFault stream)

theorem ofReport_eq {report : Json Double} (h : IsObject report) : ofReport report =
    durationIn? (formatOf report) >>= fun duration =>
      (liftM (partsOf (streamsOf report)) : Except Failure _) >>= fun streams =>
        streams.foldlM addStream { duration } := by
  unfold ofReport
  simp only [field_of_isObject h, liftM_ok, ok_bind]
  rfl

theorem partsOf_of_itemsOf {items : List (Json Double)} (h : itemsOf value = some items) :
    partsOf value = .ok items := by
  cases value with
  | null | bool _ | int _ | real _ => cases h
  | list others =>
    cases h
    rfl
  | text s =>
    obtain ⟨empty, none⟩ := Option.ite_none_right_eq_some.mp h
    subst empty
    cases none
    rfl
  | object fields =>
    obtain ⟨empty, none⟩ := Option.ite_none_right_eq_some.mp h
    rw [List.isEmpty_iff.mp empty]
    cases none
    rfl

/-- Where the items are none, there are parts all the same, or none at all; they are no objects. -/
theorem escapes_parts_iff : Escapes ((liftM (partsOf value) : Except Failure _) >>= fun streams =>
      streams.foldlM addStream info) ↔
    itemsOf value = none ∨ ∃ items, itemsOf value = some items ∧
      Escapes (items.foldlM addStream info) := by
  -- Names and characters are streams that are no objects.
  have texts (s : String) (parts : List (Json Double)) :
      Escapes ((.text s :: parts).foldlM addStream info) :=
    escapes_addStreams_iff.mpr (.inl ⟨.text s, List.mem_cons_self, nofun⟩)
  cases here : itemsOf value with
  | some items =>
    rw [partsOf_of_itemsOf here, liftM_ok, ok_bind, or_iff_right nofun]
    simp only [Option.some.injEq, exists_eq_left']
  | none =>
    refine iff_of_true ?_ (.inl rfl)
    cases value with
    | null | bool _ | int _ | real _ => exact escapes_shape _
    | list items => cases here
    | text s =>
      have some : s.toList ≠ [] := fun empty => by
        rw [String.toList_eq_nil_iff.mp empty] at here
        cases here
      obtain ⟨c, rest, chars⟩ := List.exists_cons_of_ne_nil some
      unfold partsOf
      dsimp only
      rw [chars, List.map_cons]
      exact texts c.toString (rest.map fun c => .text c.toString)
    | object fields =>
      cases fields with
      | nil => cases here
      | cons field fields => exact texts field.1 (fields.map fun field => .text field.1)

theorem escapes_ofReport_iff {report : Json Double} : Escapes (ofReport report) ↔ InfoFault report := by
  by_cases object : IsObject report
  · have rest (duration : Option Double) (h : durationIn? (formatOf report) = .ok duration) :
        Escapes ((liftM (partsOf (streamsOf report)) : Except Failure _) >>= fun streams =>
          streams.foldlM addStream { duration }) ↔
        itemsOf (streamsOf report) = none ∨ ∃ items, itemsOf (streamsOf report) = some items ∧
          ((∃ stream ∈ items, ¬ IsObject stream) ∨
            (∃ stream, firstOf "video" items = some stream ∧
              VideoFault ((formatOf report).get? "duration" = none) stream) ∨
            ∃ stream, firstOf "audio" items = some stream ∧ AudioFault stream) := by
      rw [escapes_parts_iff, ← propext (durationIn?_eq_none_iff h)]
      refine or_congr_right (exists_congr fun items => and_congr_right fun _ => ?_)
      rw [escapes_addStreams_iff]
      exact or_congr_right (or_congr (and_iff_right rfl) (and_iff_right rfl))
    rw [ofReport_eq object, (durationIn?_decided _).escapes_bind_iff rest, escapes_durationIn?_iff]
    constructor
    · rintro (fault | none | ⟨items, here, ⟨stream, inside, other⟩ | ⟨stream, first, fault⟩ |
        ⟨stream, first, fault⟩⟩)
      · exact .format fault
      · exact .streams none
      · exact .stream here inside other
      · exact .video here first fault
      · exact .audio here first fault
    · rintro (other | fault | none | ⟨here, inside, other⟩ | ⟨here, first, fault⟩ | ⟨here, first, fault⟩)
      · exact absurd object other
      · exact .inl fault
      · exact .inr (.inl none)
      · exact .inr (.inr ⟨_, here, .inl ⟨_, inside, other⟩⟩)
      · exact .inr (.inr ⟨_, here, .inr (.inl ⟨_, first, fault⟩)⟩)
      · exact .inr (.inr ⟨_, here, .inr (.inr ⟨_, first, fault⟩)⟩)
  · refine iff_of_true ?_ (.report object)
    unfold ofReport
    rw [field_of_not object]
    exact escapes_shape _

theorem ofReport_decided (report : Json Double) : Decided (ofReport report) := by
  by_cases object : IsObject report
  · rw [ofReport_eq object]
    refine (durationIn?_decided _).bind fun duration => Decided.bind ?_ fun streams =>
      addStreams_decided _ streams
    cases partsOf (streamsOf report) with
    | error cause => exact .inr (escapes_shape cause)
    | ok items => exact decided_ok items
  · exact .inr (escapes_ofReport_iff.mpr (.report object))

/-- A report that is taken apart tells the size of its first video stream. -/
theorem size_of_ofReport {report : Json Double} (h : ofReport report = .ok info) :
    ∃ items, itemsOf (streamsOf report) = some items ∧ match firstOf "video" items with
      | some stream => info.hasVideo = true ∧ (info.width, info.height) =
          ((stream.get? "width").getD .null, (stream.get? "height").getD .null)
      | none => info.hasVideo = false := by
  have sound : ¬ InfoFault report := by
    rw [← escapes_ofReport_iff, h]
    exact not_escapes_ok info
  obtain ⟨items, here⟩ := Option.ne_none_iff_exists'.mp fun none => sound (.streams none)
  refine ⟨items, here, ?_⟩
  have object : IsObject report := by
    by_contra other
    exact sound (.report other)
  rw [ofReport_eq object] at h
  obtain ⟨duration, -, h⟩ := exists_of_bind_eq_ok h
  obtain ⟨streams, parts, h⟩ := exists_of_bind_eq_ok h
  rw [partsOf_of_itemsOf here] at parts
  cases parts
  exact (size_of_addStreams h).2 rfl

end ProbedMedia

end Montage
