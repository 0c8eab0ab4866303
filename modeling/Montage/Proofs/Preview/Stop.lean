import Montage.Proofs.Run.Starts

/-!
# A preview that is told to end

A preview looks whether it is to end before each proxy, after each proxy, before it renders, and after
it has rendered. Between a look and the process that follows it nothing happens in which others have a
part, unless a listener uses a report to end the preview. So once it was told to end, by whomever and
at whatever moment, no process is started, and nothing that is made counts.

## Main definitions

* `Meanwhile` — what others may do while a preview is made
* `StaysAside`, `LooksOn` — what listeners do: everything of that, and everything but end the preview
* `StopRequest.Heeded` — no process was started and no proxy was made since a request came
* `Intact` — every request is heeded so far

## Main results

* `endures_intact` — others leave every request heeded, and so does `run_intact`
* `PreviewMaker.makeProxies_intact`, `PreviewMaker.render_intact` — the two phases of a preview
* `PreviewMaker.run_once_stopped` — a preview that was told to end
-/

namespace Montage

open SceneAction

variable {α : Type} {before after scene : Scene PreviewJob}

/-! ### What others do -/

/-- What others may do while a preview is made: they start no process, make no proxy, and do not take
back that it is to end. -/
structure Meanwhile (before after : Scene PreviewJob) : Prop where
  station : before.station.GoesOn after.station
  made : after.job.proxiesMade = before.job.proxiesMade
  cancelled : before.job.cancelled = true → after.job.cancelled = true
  requests : ∃ more, after.job.requests = before.job.requests ++ more ∧
    (more ≠ [] → after.job.cancelled = true) ∧
    ∀ request ∈ more, request.made = before.job.proxiesMade.length ∧
      before.station.happenings.length ≤ request.seen ∧
      request.seen ≤ after.station.happenings.length

theorem Station.GoesOn.length_le {before after : Station} (h : before.GoesOn after) :
    before.happenings.length ≤ after.happenings.length := by
  obtain ⟨more, seen, -⟩ := h
  rw [seen, List.length_append]
  exact Nat.le_add_right _ _

namespace Meanwhile

/-- The station goes on, and the job is left alone. -/
theorem of_goesOn {next : Station} (h : before.station.GoesOn next)
    (made : after.job.proxiesMade = before.job.proxiesMade)
    (requests : after.job.requests = before.job.requests)
    (cancelled : after.job.cancelled = before.job.cancelled) (station : after.station = next) :
    Meanwhile before after where
  station := station ▸ h
  made := made
  cancelled was := cancelled.trans was
  requests := ⟨[], by rw [requests, List.append_nil], fun none => absurd rfl none,
    fun _ h => absurd h List.not_mem_nil⟩

protected theorem refl (scene : Scene PreviewJob) : Meanwhile scene scene :=
  of_goesOn (.refl _) rfl rfl rfl rfl

theorem trans {last : Scene PreviewJob} (h : Meanwhile before after) (h' : Meanwhile after last) :
    Meanwhile before last where
  station := h.station.trans h'.station
  made := h'.made.trans h.made
  cancelled was := h'.cancelled (h.cancelled was)
  requests := by
    obtain ⟨more, grown, asked, each⟩ := h.requests
    obtain ⟨more', grown', asked', each'⟩ := h'.requests
    refine ⟨more ++ more', by rw [grown', grown, List.append_assoc], fun some => ?_, fun request mem => ?_⟩
    · by_cases first : more = []
      · exact asked' fun second => some (by rw [first, second, List.append_nil])
      · exact h'.cancelled (asked first)
    · rcases List.mem_append.mp mem with early | late
      · obtain ⟨made, from', upTo⟩ := each request early
        exact ⟨made, from', Nat.le_trans upTo h'.station.length_le⟩
      · obtain ⟨made, from', upTo⟩ := each' request late
        exact ⟨made.trans (congrArg List.length h.made), Nat.le_trans h.station.length_le from', upTo⟩

end Meanwhile

/-- A property of scenes that others cannot end. -/
def Endures (holds : Scene PreviewJob → Prop) : Prop :=
  ∀ before after, holds before → Meanwhile before after → holds after

/-- An action of someone who may end the preview, but stays aside otherwise. -/
def StaysAside (action : PreviewAction α) : Prop := ∀ before, Keeps (Meanwhile before) action

/-- Others act, and nobody ends the preview. -/
def Idly (before after : Scene PreviewJob) : Prop :=
  Meanwhile before after ∧ after.job.requests = before.job.requests

/-- An action of someone who does not even end the preview. -/
def LooksOn (action : PreviewAction α) : Prop := ∀ before, Keeps (Idly before) action

/-- Listeners of a preview who stay aside, and who do not use its reports to end it. -/
structure PreviewMaker.Audience.StandsBy (audience : PreviewMaker.Audience) : Prop where
  onReport : ∀ report, LooksOn (audience.onReport report)
  onProxy : ∀ mediaId path, StaysAside (audience.onProxy mediaId path)

theorem endures_meanwhile (scene : Scene PreviewJob) : Endures (Meanwhile scene) :=
  fun _ _ h h' => h.trans h'

namespace PreviewMaker

section Controls

variable {holds : Scene PreviewJob → Prop} (persists : Persists holds) (stop : Keeps holds requestStop)

include persists stop

theorem keepsCourse_beginCancel : KeepsCourse holds beginCancel := by
  refine .after keeps_job fun job => ?_
  dsimp only
  split
  · exact (persists.note rfl).course trivial
  refine .after stop fun _ => .after keeps_station fun station => ?_
  split
  · exact persists.cancelThen _ fun _ => persists.note rfl
  · exact keepsCourse_pure ((persists.cancelEach _).bind fun _ =>
      (persists.cancel _).bind fun _ => persists.note rfl)

theorem keeps_cancel : Keeps holds cancel := by
  refine keeps_job.bind fun job => ?_
  split
  · exact stop.bind fun _ => (persists.cancelFrom _).bind fun _ =>
      (persists.cancel _).bind fun _ => Keeps.pure
  · exact Keeps.pure

/-- What others do to a preview for which a process runs keeps what the process and a request to end
keep: another preview is refused. -/
theorem keep_controls (key : Option String) (duration : Option Double)
    {onUpdate : EncoderProgress → PreviewAction Unit}
    (told : ∀ update, update.percent.IsPercentage → Keeps holds (onUpdate update)) :
    RunOptions.Keep { key, duration, onUpdate, controls } holds := by
  refine ⟨keepsCourse_beginCancel persists stop, ?_, told⟩
  refine keeps_job.bind fun job => ?_
  split
  · exact Keeps.throw
  · exact Keeps.pure

end Controls

end PreviewMaker

namespace Endures

variable {holds : Scene PreviewJob → Prop} (endures : Endures holds)

include endures

theorem lasts : Lasts holds := fun scene _ h goesOn =>
  endures scene _ h (.of_goesOn goesOn rfl rfl rfl rfl)

theorem persists : Persists holds := endures.lasts.persists

theorem aside {action : PreviewAction α} (h : StaysAside action) : Keeps holds action :=
  fun scene hscene => (h scene scene (.refl scene)).mono (fun _ next => endures scene next hscene)
    fun next => endures scene next hscene

theorem requestStop : Keeps holds PreviewMaker.requestStop := fun scene h => by
  refine endures scene _ h ⟨.refl _, rfl, fun _ => rfl, _, rfl, fun _ => rfl, fun request mem => ?_⟩
  obtain rfl := List.mem_singleton.mp mem
  exact ⟨rfl, Nat.le_refl _, Nat.le_refl _⟩

theorem cancel : Keeps holds PreviewMaker.cancel :=
  PreviewMaker.keeps_cancel endures.persists endures.requestStop

end Endures

/-- A listener may end the preview. -/
theorem staysAside_cancel : StaysAside PreviewMaker.cancel := fun scene =>
  (endures_meanwhile scene).cancel

theorem Idly.trans {last : Scene PreviewJob} (h : Idly before after) (h' : Idly after last) :
    Idly before last :=
  ⟨h.1.trans h'.1, h'.2.trans h.2⟩

theorem looksOn_report {audience : PreviewMaker.Audience} (h : audience.StandsBy) (phase : PreviewPhase)
    (overall ofPhase : Double) (task : String) :
    LooksOn (PreviewMaker.report audience phase overall ofPhase task) := by
  intro before scene hscene
  unfold PreviewMaker.report
  rw [ensures_bind, ensures_job]
  dsimp only
  rw [ensures_bind, ensures_setJob]
  refine h.onReport _ before _ (hscene.trans ⟨?_, rfl⟩)
  exact .of_goesOn (.refl _) rfl rfl rfl rfl

/-! ### Heeded requests -/

/-- Since a request came, no process was started and no proxy was made. -/
structure StopRequest.Heeded (request : StopRequest) (scene : Scene PreviewJob) : Prop where
  seen : request.seen ≤ scene.station.happenings.length
  starts : ∀ what ∈ scene.station.happenings.drop request.seen, what.isStart = false
  made : request.made = scene.job.proxiesMade.length

/-- The proxies that were made after a job had begun and before a request came. -/
def StopRequest.madeBefore (request : StopRequest) (begun next : PreviewJob) : List (String × String) :=
  (next.proxiesMade.take request.made).drop begun.proxiesMade.length

/-- Every request since a job began is heeded, and some proxies were made since. -/
structure Intact (begun : PreviewJob) (made : List (String × String)) (scene : Scene PreviewJob) : Prop where
  made : scene.job.proxiesMade = begun.proxiesMade ++ made
  requests : ∃ more, scene.job.requests = begun.requests ++ more ∧
    (more ≠ [] → scene.job.cancelled = true) ∧ ∀ request ∈ more, request.Heeded scene

variable {begun : PreviewJob} {made : List (String × String)}

theorem StopRequest.Heeded.meanwhile {request : StopRequest} (h : request.Heeded before)
    (others : Meanwhile before after) : request.Heeded after where
  seen := Nat.le_trans h.seen others.station.length_le
  starts what mem := by
    obtain ⟨more, seen, quiet⟩ := others.station
    rw [seen, List.drop_append_of_le_length h.seen] at mem
    exact (List.mem_append.mp mem).elim (h.starts what) (quiet what)
  made := h.made.trans (congrArg List.length others.made.symm)

theorem endures_intact : Endures (Intact begun made) := by
  rintro before after ⟨same, more, grown, asked, heeded⟩ others
  obtain ⟨more', grown', asked', late⟩ := others.requests
  refine ⟨others.made.trans same, more ++ more', by rw [grown', grown, List.append_assoc],
    fun some => ?_, fun request mem => ?_⟩
  · by_cases first : more = []
    · exact asked' fun second => some (by rw [first, second, List.append_nil])
    · exact others.cancelled (asked first)
  · rcases List.mem_append.mp mem with old | new
    · exact (heeded request old).meanwhile others
    · obtain ⟨made, since, upTo⟩ := late request new
      refine ⟨upTo, fun what hwhat => ?_, made.trans (congrArg List.length others.made.symm)⟩
      obtain ⟨tail, seen, quiet⟩ := others.station
      rw [seen, List.drop_append, List.drop_of_length_le since, List.nil_append] at hwhat
      exact quiet what (List.mem_of_mem_drop hwhat)

/-- Nobody has ended the preview. -/
def Unasked (begun : PreviewJob) (made : List (String × String)) (scene : Scene PreviewJob) : Prop :=
  Intact begun made scene ∧ scene.job.requests = begun.requests

theorem LooksOn.unasked {action : PreviewAction α} (h : LooksOn action) :
    Keeps (Unasked begun made) action := fun scene hscene => by
  refine (h scene scene ⟨.refl scene, rfl⟩).mono ?_ ?_
  · exact fun _ next others => ⟨endures_intact _ _ hscene.1 others.1, others.2.trans hscene.2⟩
  · exact fun next others => ⟨endures_intact _ _ hscene.1 others.1, others.2.trans hscene.2⟩

theorem LooksOn.intact {action : PreviewAction α} (h : LooksOn action) :
    Keeps (Intact begun made) action := fun scene hscene => by
  refine (h scene scene ⟨.refl scene, rfl⟩).mono ?_ ?_
  · exact fun _ next others => endures_intact _ _ hscene others.1
  · exact fun next others => endures_intact _ _ hscene others.1

/-- A preview that is not to end was not asked to. -/
theorem Intact.unasked (h : Intact begun made scene) (free : scene.job.cancelled = false) :
    Unasked begun made scene := by
  refine ⟨h, ?_⟩
  obtain ⟨more, grown, asked, -⟩ := h.requests
  have none : more = [] := by
    by_contra some
    exact absurd ((asked some).symm.trans free) (by simp)
  rw [grown, none, List.append_nil]

theorem lasts_unasked : Lasts (Unasked begun made) := fun scene _ h goesOn =>
  ⟨endures_intact.lasts scene _ h.1 goesOn, h.2⟩

/-- A process is started while nobody has ended the preview. -/
theorem Unasked.starting (h : Unasked begun made scene) (command : List String) :
    Intact begun made (scene.starting command) := by
  refine ⟨h.1.made, [], by rw [List.append_nil]; exact h.2, fun some => absurd rfl some, ?_⟩
  exact fun _ h => absurd h List.not_mem_nil

/-- A proxy is made while nobody has ended the preview. -/
theorem Unasked.push (h : Unasked begun made scene) (proxy : String × String) :
    Intact begun (made ++ [proxy])
      { scene with job := { scene.job with proxiesMade := scene.job.proxiesMade ++ [proxy] } } where
  made := by
    dsimp only
    rw [h.1.made, List.append_assoc]
  requests := ⟨[], by rw [List.append_nil]; exact h.2, fun some => absurd rfl some,
    fun _ h => absurd h List.not_mem_nil⟩

/-- A run of the encoder that begins unasked leaves all requests heeded. -/
theorem run_intact (key : Option String) (duration : Option Double)
    {onUpdate : EncoderProgress → PreviewAction Unit} (looksOn : ∀ update, LooksOn (onUpdate update))
    (command : List String) (h : Unasked begun made scene) :
    Ensures (SceneAction.run { key, duration, onUpdate, controls := PreviewMaker.controls } command) scene
      (fun _ => Intact begun made) (Intact begun made) := by
  have keep : RunOptions.Keep { key, duration, onUpdate, controls := PreviewMaker.controls }
      (Intact begun made) :=
    PreviewMaker.keep_controls endures_intact.persists endures_intact.requestStop key duration
      fun update _ => (looksOn update).intact
  refine (lasts_unasked.run endures_intact.lasts keep (fun _ h => h.starting command) h).mono
    (fun _ _ => id) fun next => ?_
  rintro (⟨intact, -⟩ | intact)
  · exact intact
  · exact intact

/-! ### Proxies -/

namespace MediaLibrary

theorem get?_cons (name key : String) (item : MediaFile) (rest : MediaLibrary) :
    get? ((name, item) :: rest) key = if key = name then some item else rest.get? key := by
  unfold get?
  rw [List.lookup_cons]
  by_cases same : key = name
  · rw [if_pos same, same, beq_self_eq_true]
  · rw [if_neg same, beq_false_of_ne same]

theorem get?_insert (media : MediaLibrary) (key other : String) (item : MediaFile) :
    (media.insert key item).get? other = if other = key then some item else media.get? other := by
  induction media with
  | nil => exact get?_cons key other item []
  | cons first rest ih =>
    obtain ⟨name, old⟩ := first
    unfold insert
    by_cases here : name = key
    · rw [if_pos here, get?_cons, get?_cons, here]
      by_cases same : other = key
      · simp only [if_pos same]
      · simp only [if_neg same]
    · rw [if_neg here, get?_cons, get?_cons, ih]
      by_cases same : other = name
      · rw [if_pos same, if_neg (same ▸ here), if_pos same]
      · simp only [if_neg same]

/-- The item under a key once the lost proxies were dropped. -/
theorem get?_dropLostProxies (media : MediaLibrary) (pathExists : PathExists) (key : String) :
    (media.dropLostProxies pathExists).get? key = (media.get? key).map (·.dropLostProxy pathExists) := by
  induction media with
  | nil => rfl
  | cons first rest ih =>
    obtain ⟨name, item⟩ := first
    change get? ((name, _) :: MediaLibrary.dropLostProxies rest pathExists) key = _
    rw [get?_cons, get?_cons, ih]
    split <;> rfl

end MediaLibrary

namespace PreviewMaker

/-- What a preview has made is among the proxies that were made, and its media are those that it was
given but for their new proxies. -/
structure Progress.Tells (progress : Progress) (media : MediaLibrary) (items : List MediaFile)
    (made : List (String × String)) : Prop where
  proxies : ∀ pair ∈ progress.proxies, pair ∈ made
  media : ∀ key, progress.media.get? key = media.get? key ∨
    ∃ path item, (key, path) ∈ made ∧ item ∈ items ∧ item.id = key ∧
      progress.media.get? key = some (item.setProxy (some path))

/-- A preview that has ended was told to end only if it ended as cancelled, and it tells what was made. -/
def Ends (begun : PreviewJob) (media : MediaLibrary) (items : List MediaFile) (outcome : PreviewOutcome)
    (scene : Scene PreviewJob) : Prop :=
  ∃ made, Intact begun made scene ∧
    Progress.Tells { proxies := outcome.proxies, media := outcome.media } media items made ∧
    (scene.job.requests ≠ begun.requests → outcome.status = .cancelled)

/-- A preview has failed, and every request is heeded. -/
def Fell (begun : PreviewJob) (scene : Scene PreviewJob) : Prop := ∃ made, Intact begun made scene

variable {media : MediaLibrary} {items : List MediaFile} {progress : Progress} {maker : PreviewMaker}
  {audience : Audience}

theorem mem_insertProxy {mediaId path : String} {proxies : List (String × String)}
    {pair : String × String} (h : pair ∈ insertProxy mediaId path proxies) :
    pair = (mediaId, path) ∨ pair ∈ proxies := by
  induction proxies with
  | nil => exact .inl (List.mem_singleton.mp h)
  | cons first rest ih =>
    obtain ⟨other, old⟩ := first
    unfold insertProxy at h
    split at h
    · exact (List.mem_cons.mp h).imp_right (List.mem_cons_of_mem _)
    · rcases List.mem_cons.mp h with rfl | behind
      · exact .inr List.mem_cons_self
      · exact (ih behind).imp_right (List.mem_cons_of_mem _)

theorem tells_nothing (media : MediaLibrary) (items : List MediaFile) :
    Progress.Tells { media } media items [] :=
  ⟨fun _ h => absurd h List.not_mem_nil, fun _ => .inl rfl⟩

/-- One more proxy was made. -/
theorem Progress.Tells.insert (h : progress.Tells media items made) {item : MediaFile}
    (among : item ∈ items) (path : String) :
    Progress.Tells { proxies := insertProxy item.id path progress.proxies
                     media := progress.media.insert item.id (item.setProxy (some path)) }
      media items (made ++ [(item.id, path)]) where
  proxies pair mem := by
    rcases mem_insertProxy mem with rfl | old
    · exact List.mem_append_right _ (List.mem_singleton.mpr rfl)
    · exact List.mem_append_left _ (h.proxies pair old)
  media key := by
    dsimp only
    rw [MediaLibrary.get?_insert]
    split
    · next same =>
      refine .inr ⟨path, item, ?_, among, same.symm, rfl⟩
      rw [same]
      exact List.mem_append_right _ (List.mem_singleton.mpr rfl)
    · refine (h.media key).imp_right ?_
      rintro ⟨path, item, earlier, among, same, got⟩
      exact ⟨path, item, List.mem_append_left _ earlier, among, same, got⟩

theorem ensures_hasBeenCancelled {returns : Bool → Scene PreviewJob → Prop}
    {fails : Scene PreviewJob → Prop} :
    Ensures hasBeenCancelled scene returns fails ↔ returns scene.job.cancelled scene := Iff.rfl

section Phases

-- To unfold what an action ensures is to run the action; here it is known by the lemmas about it.
attribute [local irreducible] Ensures

/-- A preview that looks and sees that it is to end ends as cancelled. -/
theorem ends_cancelled (h : Intact begun made scene) (tells : progress.Tells media items made) :
    Ends begun media items (progress.ending .cancelled) scene :=
  ⟨made, h, tells, fun _ => rfl⟩

theorem looksOn_reportProxy (h : audience.StandsBy) (place count : Nat) (item : MediaFile)
    (update : EncoderProgress) : LooksOn (maker.reportProxy audience place count item update) := by
  unfold reportProxy
  exact looksOn_report h _ _ _ _

theorem keeps_giveUp (proxies : ProxyMaker) (item : MediaFile) (cancelled : Bool) (error : Option String) :
    Keeps (Intact begun made) (proxies.giveUp item cancelled error) :=
  (endures_intact.lasts.onFiles _).bind fun _ => Keeps.pure

theorem make_intact {proxies : ProxyMaker} {onUpdate : EncoderProgress → PreviewAction Unit}
    (looksOn : ∀ update, LooksOn (onUpdate update)) (item : MediaFile) (h : Unasked begun made scene) :
    Ensures (proxies.make controls onUpdate item) scene (fun _ => Intact begun made)
      (Intact begun made) := by
  unfold ProxyMaker.make
  rw [ensures_bind, ensures_station]
  split
  · exact ensures_pure.mpr h.1
  rw [ensures_bind]
  refine (lasts_unasked.onFiles _ scene h).mono (fun _ middle hmiddle => ?_) fun _ hmiddle => hmiddle.1
  rw [ensures_bind]
  refine Ensures.mono (run_intact _ _ looksOn _ hmiddle) (fun result next hnext => ?_) fun _ => id
  split
  · exact keeps_giveUp proxies item true _ next hnext
  split
  · exact keeps_giveUp proxies item false _ next hnext
  · exact ensures_pure.mpr hnext

/-- The proxies are made one after the other until the preview is to end. -/
theorem makeProxies_intact (h : audience.StandsBy) (renderStart : Double) (count place : Nat)
    (rest : List MediaFile) (among : ∀ item ∈ rest, item ∈ items) (intact : Intact begun made scene)
    (tells : progress.Tells media items made) :
    Ensures (maker.makeProxies audience renderStart count place rest progress) scene
      (fun ended next => match ended with
        | .ok progress => ∃ made, Intact begun made next ∧ progress.Tells media items made
        | .error outcome => Ends begun media items outcome next)
      (Fell begun) := by
  induction rest generalizing place progress made scene with
  | nil => exact ensures_pure.mpr ⟨made, intact, tells⟩
  | cons item rest ih =>
    unfold makeProxies
    rw [ensures_bind, ensures_hasBeenCancelled]
    split
    · exact ensures_pure.mpr (ends_cancelled intact tells)
    next free =>
    have unasked := intact.unasked (Bool.eq_false_iff.mpr free)
    rw [ensures_bind]
    refine ((looksOn_report h _ _ _ _).unasked scene unasked).mono (fun _ told htold => ?_)
      fun _ fell => ⟨made, fell.1⟩
    rw [ensures_bind]
    refine (make_intact (fun update => looksOn_reportProxy h place count item update) item htold).mono
      (fun outcome next hnext => ?_) fun _ fell => ⟨made, fell⟩
    rw [ensures_bind, ensures_hasBeenCancelled]
    split
    · exact ensures_pure.mpr (ends_cancelled hnext tells)
    next goes =>
    rw [Bool.or_eq_true, not_or] at goes
    have still := hnext.unasked (Bool.eq_false_iff.mpr goes.2)
    split
    · next path _ _ =>
      rw [ensures_bind, ensures_job, ensures_bind, ensures_setJob]
      have grown := still.push (item.id, path)
      rw [ensures_bind]
      refine (endures_intact.aside (h.onProxy item.id path) _ grown).mono (fun _ last hlast => ?_)
        fun _ fell => ⟨_, fell⟩
      exact ih (place + 1) (fun other hother => among other (List.mem_cons_of_mem _ hother)) hlast
        (tells.insert (among item List.mem_cons_self) path)
    · exact ensures_pure.mpr ⟨made, hnext, tells, fun asked => absurd still.2 asked⟩

/-! ### The render -/

theorem renderWith_intact (h : audience.StandsBy) (now : Nat) (duration renderStart : Double)
    (composition : Composition Double) (unasked : Unasked begun made scene)
    (tells : progress.Tells media items made) :
    Ensures (maker.renderWith audience now duration renderStart composition progress) scene
      (fun outcome next => Ends begun media items outcome next) (Fell begun) := by
  have fell {next : Scene PreviewJob} (h : Unasked begun made next) : Fell begun next := ⟨made, h.1⟩
  unfold renderWith
  rw [ensures_bind]
  refine (lasts_unasked.onFiles _ scene unasked).mono (fun _ middle hmiddle => ?_) fun _ => fell
  refine .liftM_bind (fun command _ => ?_) (fell hmiddle)
  rw [ensures_bind]
  refine ((looksOn_report h _ _ _ _).unasked middle hmiddle).mono (fun _ told htold => ?_)
    fun _ => fell
  rw [ensures_bind]
  refine Ensures.mono (run_intact _ _ (fun update => looksOn_report h _ _ _ _) command htold)
    (fun result next hnext => ?_) fun _ intact => ⟨made, intact⟩
  rw [ensures_bind, ensures_hasBeenCancelled]
  split
  · exact ensures_pure.mpr (ends_cancelled hnext tells)
  next goes =>
  rw [Bool.or_eq_true, not_or] at goes
  have still := hnext.unasked (Bool.eq_false_iff.mpr goes.2)
  split
  · exact ensures_pure.mpr ⟨made, hnext, tells, fun asked => absurd still.2 asked⟩
  rw [ensures_bind]
  refine ((looksOn_report h _ _ _ _).unasked next still).mono (fun _ last hlast => ?_) fun _ => fell
  exact ensures_pure.mpr ⟨made, hlast.1, tells, fun asked => absurd hlast.2 asked⟩

theorem render_intact (h : audience.StandsBy) (now : Nat) (timeline : Timeline Double)
    (renderStart : Double) (unasked : Unasked begun made scene)
    (tells : progress.Tells media items made) :
    Ensures (maker.render audience now timeline renderStart progress) scene
      (fun outcome next => Ends begun media items outcome next) (Fell begun) := by
  have failed (error : Option String) : Ends begun media items (progress.ending .failed error) scene :=
    ⟨made, unasked.1, tells, fun asked => absurd unasked.2 asked⟩
  unfold render
  by_cases none : timeline.duration ≤ Scalar.zero
  · rw [if_pos none]
    exact ensures_pure.mpr (failed _)
  rw [if_neg none]
  refine .liftM_bind (fun settings _ => ?_) ⟨made, unasked.1⟩
  rw [ensures_bind, ensures_station]
  dsimp only
  split
  · exact ensures_pure.mpr (failed _)
  · exact ensures_throw.mpr ⟨made, unasked.1⟩
  split
  · exact renderWith_intact h now _ renderStart _ unasked tells
  · exact ensures_pure.mpr (failed _)

/-! ### A whole preview -/

theorem make_ends (h : audience.StandsBy) (now : Nat) (timeline : Timeline Double) (media : MediaLibrary)
    (intact : Intact begun [] scene) :
    let kept := media.dropLostProxies scene.station.files.pathExists
    Ensures (maker.make audience now timeline media) scene
      (fun outcome next => Ends begun kept (pending timeline kept scene.station.files.pathExists) outcome next)
      (Fell begun) := by
  intro kept
  unfold make
  rw [ensures_bind, ensures_station]
  dsimp only
  rw [ensures_bind]
  refine (makeProxies_intact h _ _ 0 _ (fun _ => id) intact (tells_nothing kept _)).mono
    (fun ended next hnext => ?_) fun _ => id
  cases ended with
  | error outcome => exact ensures_pure.mpr hnext
  | ok progress =>
    obtain ⟨made, hnext, tells⟩ := hnext
    have looks {last : Scene PreviewJob} (hlast : Intact begun made last) :
        Ensures (do
            if ← hasBeenCancelled then return progress.ending .cancelled
            maker.render audience now timeline
              (if (pending timeline kept scene.station.files.pathExists).isEmpty then Scalar.zero
                else maker.proxyWeight * 100) progress) last
          (fun outcome next =>
            Ends begun kept (pending timeline kept scene.station.files.pathExists) outcome next)
          (Fell begun) := by
      rw [ensures_bind, ensures_hasBeenCancelled]
      split
      · exact ensures_pure.mpr (ends_cancelled hlast tells)
      · next free =>
        exact render_intact h now timeline _ (hlast.unasked (Bool.eq_false_iff.mpr free)) tells
    dsimp only
    split
    · rw [ensures_bind]
      exact ((looksOn_report h _ _ _ _).intact next hnext).mono (fun _ last => looks)
        fun _ fell => ⟨made, fell⟩
    · exact looks hnext

/-- A preview is over. -/
theorem meanwhile_ended (scene : Scene PreviewJob) :
    Meanwhile scene { scene with job := { scene.job with running := false } } :=
  .of_goesOn (.refl _) rfl rfl rfl rfl

/-- Once a preview was told to end, it ends as cancelled if it ends at all, starts no more processes,
and tells of no more proxies than had been made by then. -/
theorem run_once_stopped {onProxy : String → String → PreviewAction Unit}
    {onReport : PreviewReport Double → PreviewAction Unit} (h : Audience.StandsBy { onReport, onProxy })
    (maker : PreviewMaker) (now : Nat) (timeline : Timeline Double) (media : MediaLibrary)
    (scene : Scene PreviewJob) :
    Ensures (maker.run now onProxy timeline media onReport) scene
      (fun outcome next => ∃ requests, next.job.requests = scene.job.requests ++ requests ∧
        ∀ request ∈ requests, request.Heeded next ∧ outcome.status = .cancelled ∧
          (∀ proxy ∈ outcome.proxies, proxy ∈ request.madeBefore scene.job next.job) ∧
          ∀ key, outcome.media.get? key =
              (media.get? key).map (·.dropLostProxy scene.station.files.pathExists) ∨
            ∃ path item, (key, path) ∈ request.madeBefore scene.job next.job ∧
              item ∈ pending timeline (media.dropLostProxies scene.station.files.pathExists)
                scene.station.files.pathExists ∧
              item.id = key ∧ outcome.media.get? key = some (item.setProxy (some path)))
      (fun next => ∃ requests, next.job.requests = scene.job.requests ++ requests ∧
        ∀ request ∈ requests, request.Heeded next) := by
  unfold run
  rw [ensures_bind, ensures_job]
  dsimp only
  split
  · exact ensures_throw.mpr ⟨[], (List.append_nil _).symm, fun _ h => absurd h List.not_mem_nil⟩
  rw [ensures_bind, ensures_setJob, ensures_bind]
  have begun : Intact scene.job [] { scene with
      job := { scene.job with running := true, cancelled := false, overall := Scalar.zero } } :=
    ⟨(List.append_nil _).symm, [], (List.append_nil _).symm, fun some => absurd rfl some,
      fun _ h => absurd h List.not_mem_nil⟩
  refine Ensures.tryCatch ((make_ends h now timeline media begun).mono ?_ ?_)
  · rintro outcome last ⟨made, hlast, tells, asked⟩
    rw [ensures_bind, ensures_bind, ensures_job, ensures_setJob, ensures_pure]
    have hnext := endures_intact _ _ hlast (meanwhile_ended last)
    obtain ⟨-, requests, grown, -, heeded⟩ := hnext
    refine ⟨requests, grown, fun request mem => ?_⟩
    have all : request.madeBefore scene.job last.job = made := by
      rw [StopRequest.madeBefore, (heeded request mem).made, hlast.made, List.take_length]
      exact List.drop_left
    have some : last.job.requests ≠ scene.job.requests := by
      intro same
      have none : requests = [] :=
        List.append_cancel_left ((grown.symm.trans same).trans (List.append_nil _).symm)
      exact absurd (none ▸ mem) List.not_mem_nil
    refine ⟨heeded request mem, asked some, fun proxy told => ?_, fun key => ?_⟩
    · exact all ▸ tells.proxies proxy told
    · rw [← MediaLibrary.get?_dropLostProxies]
      exact all ▸ tells.media key
  · rintro last ⟨made, hlast⟩ failure
    rw [ensures_bind, ensures_bind, ensures_job, ensures_setJob]
    obtain ⟨-, requests, grown, -, heeded⟩ := endures_intact _ _ hlast (meanwhile_ended last)
    exact ensures_throw.mpr ⟨requests, grown, heeded⟩

/-! ### Previews of one film -/

theorem first_second_nonneg : (Scalar.zero : Double) ≤ 0 ∧ (Scalar.zero : Double) ≤ 1 ∧
    (Scalar.zero : Double) ≤ 0 ∧ (Scalar.zero : Double) ≤ 1 := by decide +kernel

/-- A timeline that shows one film for a second. -/
def oneFilm : Timeline Double where
  tracks := [{
    id := "above", kind := .video, volume := 1
    clips := [{
      id := "clip", mediaId := some "film", trackId := "above"
      start := 0, duration := 1, mediaIn := 0, mediaOut := 1
      times_nonneg := first_second_nonneg }] }]

/-- A film whose proxy may be anywhere. -/
def film (proxyPath : Option String) : MediaLibrary :=
  [("film", { id := "film", type := .video, path := "film.mp4", proxyPath })]

/-- A maker of previews in two folders. -/
def inFolders : PreviewMaker where
  folder := Path.ofText "out"
  proxies := { folder := Path.ofText "proxies", scale := 1, encoderPath := "encoder" }
  settings := {}
  scale := 1
  proxyWeight := 0
  encoderPath := "encoder"

/-- A preview is ended when the proxy of its film is there. -/
theorem preview_ends_after_proxy :
    let files : FileTree := { nodes := [(["proxies"], .folder), (["proxies", "film_proxy.mp4"], .file [])] }
    let scene : Scene PreviewJob := { station := { grace := 1, tailLength := 0, files }, job := {} }
    ∃ outcome next, inFolders.run 0 (fun _ _ => cancel) oneFilm (film none) (fun _ => pure ()) scene =
      .ok outcome next ∧ outcome.status = .cancelled ∧
        ∃ request ∈ next.job.requests, request.Heeded next ∧
          ∀ proxy ∈ outcome.proxies, proxy ∈ request.madeBefore {} next.job := by
  intro files scene
  have stands : Audience.StandsBy { onProxy := fun _ _ => cancel } :=
    ⟨fun _ _ => Keeps.pure, fun _ _ => staysAside_cancel⟩
  have heeds := run_once_stopped stands inFolders 0 oneFilm (film none) scene
  have ran : (match inFolders.run 0 (fun _ _ => cancel) oneFilm (film none) (fun _ => pure ()) scene with
      | .ok _ next => !next.job.requests.isEmpty
      | .error _ _ => false) = true := by decide +kernel
  split at ran
  · next outcome next ran' =>
    rw [ensures_of_ok ran'] at heeds
    obtain ⟨requests, grown, heeded⟩ := heeds
    replace grown : next.job.requests = requests := grown
    rw [grown] at ran
    cases requests with
    | nil => cases ran
    | cons request rest =>
      obtain ⟨heed, status, told, -⟩ := heeded request List.mem_cons_self
      exact ⟨outcome, next, ran', status, request, grown ▸ List.mem_cons_self, heed, told⟩
  · cases ran

/-- A preview is ended while it makes a proxy: it drops the path of a lost proxy all the same. And a
listener who ends a preview as soon as it reports that it makes a proxy is too late for the process. -/
theorem exists_preview_not_ending :
    (let run := inFolders.run 0 (fun _ _ => pure ()) oneFilm (film (some "lost.mp4"))
     let scene : Scene PreviewJob :=
       { station := { grace := 1, tailLength := 0, plans := [{ duringSpawn := [.cancelJob] }] }, job := {} }
     (leaves run scene).job.requests.length = 1 ∧ (leaves run scene).job.proxiesMade = [] ∧
       (value? run scene).map (·.status) = some .cancelled ∧
       ((film (some "lost.mp4")).get? "film").map (·.proxyPath) = some (some "lost.mp4") ∧
       ((value? run scene).bind (·.media.get? "film")).map (·.proxyPath) = some none) ∧
    (let run := inFolders.run 0 (fun _ _ => pure ()) oneFilm (film none) fun _ => cancel
     let scene : Scene PreviewJob := { station := { grace := 1, tailLength := 0 }, job := {} }
     ∃ request ∈ (leaves run scene).job.requests,
       ∃ what ∈ (leaves run scene).station.happenings.drop request.seen, what.isStart = true) := by
  refine ⟨⟨?_, ?_, ?_, rfl, ?_⟩, ?_⟩ <;> decide +kernel

end Phases

end PreviewMaker

end Montage
