import Montage.Proofs.Preview.Sound

/-!
# Edits

An edit changes what is to be shown, cuts the cache anew, and then looks at each chunk in turn:
whatever is valid or being rendered with another hash than that of what is to be shown now is
invalidated. When the last chunk was looked at, what is valid is right again.
-/

namespace Montage

open SessionAction

variable {answers : PathExists} {log : Chronicle} {studio : Studio}

/-- What is known after some chunks were looked at. -/
def LookedAt (answers : PathExists) (count : Nat) (studio : Studio) : Prop :=
  Faithful (fun chunk => chunk.index < count → Shows answers studio.shared chunk)
    (fun job kept chunk => chunk.index < count → Promises answers studio.shared job kept chunk)
    studio.scheduler studio.store.cache

/-- Whether a chunk is outdated is asked without a change, and what is not outdated is right. -/
theorem isOutdated_spec (h : studio.Coherent answers log) (steady : Steady answers studio)
    {chunk : Chunk Double} (hchunk : chunk ∈ studio.store.cache.chunks) :
    Ensures (isOutdated chunk) studio
      (fun outdated next => next = studio ∧ (outdated = false →
        (chunk.status = .valid → Shows answers studio.shared chunk) ∧
        ∀ job ∈ studio.scheduler.active, chunk.serial = job.chunk.serial →
          ∀ kept, job.kept? = some kept → Promises answers studio.shared job kept chunk))
      (fun _ => False) := by
  have hash : studio.shared.hashOf studio.store.disk.files chunk =
      studio.shared.hashWith answers chunk.window := steady.hashOf chunk
  unfold isOutdated
  split
  · next valid =>
    refine ⟨rfl, fun fresh => ⟨fun _ _ => ?_, fun job hjob same => ?_⟩⟩
    · rw [← hash]
      simpa using fresh
    · have := (h.order.owned job hjob chunk hchunk same).1
      simp [valid] at this
  · next busy =>
    rw [ensures_bind, ensures_session]
    split
    · next unlisted =>
      refine ⟨rfl, fun _ => ⟨fun valid => by simp [busy] at valid, fun job hjob same kept hkept => ?_⟩⟩
      -- A job that has begun would be listed.
      have flight := h.sound.flights.found job hjob kept hkept
      rw [← (h.order.owned job hjob chunk hchunk same).2.1] at flight
      have := List.lookup_eq_none_iff.mp unlisted _ flight
      simp at this
    · next rendered listed =>
      refine ⟨rfl, fun fresh => ⟨fun valid => by simp [busy] at valid,
        fun job hjob same kept hkept _ => ?_⟩⟩
      have place := (h.order.owned job hjob chunk hchunk same).2.1
      obtain ⟨before, after, hsplit, -⟩ := List.lookup_eq_some_iff.mp listed
      obtain ⟨other, hother, hindex, kept', hkept', rfl⟩ :=
        h.sound.flights.listed chunk.index rendered (by simp [hsplit])
      obtain rfl := h.order.jobs.eq_of_index hother hjob (hindex.trans place)
      obtain rfl := Option.some.inj (hkept'.symm.trans hkept)
      rw [← hash]
      simpa using fresh
  · next idle busy =>
    refine ⟨rfl, fun _ => ⟨fun valid => absurd valid idle, fun job hjob same => ?_⟩⟩
    exact absurd (h.order.owned job hjob chunk hchunk same).1 busy

/-- A look at one more chunk. -/
theorem LookedAt.succ {count : Nat} (known : LookedAt answers count studio)
    (here : ∀ chunk ∈ studio.store.cache.chunks, chunk.index = count →
      (chunk.status = .valid → Shows answers studio.shared chunk) ∧
      ∀ job ∈ studio.scheduler.active, chunk.serial = job.chunk.serial →
        chunk.renderGeneration = some chunk.generation → ∀ kept, job.kept? = some kept →
        Promises answers studio.shared job kept chunk) :
    LookedAt answers (count + 1) studio := by
  refine ⟨fun chunk hchunk valid hcount => ?_,
    fun job hjob chunk hchunk same fresh kept hkept hcount => ?_⟩
  · rcases Nat.lt_succ_iff_lt_or_eq.mp hcount with before | place
    · exact known.shown chunk hchunk valid before
    · exact (here chunk hchunk place).1 valid
  · rcases Nat.lt_succ_iff_lt_or_eq.mp hcount with before | place
    · exact known.awaited job hjob chunk hchunk same fresh kept hkept before
    · exact (here chunk hchunk place).2 job hjob same fresh kept hkept

theorem lasting_lookedAt (answers : PathExists) (session : Session Double) (count : Nat) :
    Lasting (fun chunk => chunk.index < count → Shows answers session chunk)
      (fun job kept chunk => chunk.index < count → Promises answers session job kept chunk) where
  shown before after demoted valid h hcount :=
    (lasting_content answers session).shown before after demoted valid (h (demoted.index ▸ hcount))
  awaited job kept before after demoted h hcount :=
    (lasting_content answers session).awaited job kept before after demoted
      (h (demoted.index ▸ hcount))

/-- A look at the next chunk. -/
theorem visit_refresh_spec (h : studio.Coherent answers log) (steady : Steady answers studio)
    {count : Nat} (known : LookedAt answers count studio) :
    Ensures (visit refresh count) studio
      (fun _ next => Studio.Coherent answers log next ∧ LookedAt answers (count + 1) next ∧
        next.store.cache.chunks.length = studio.store.cache.chunks.length)
      (fun next => Studio.Coherent answers log next) := by
  unfold visit
  rw [ensures_bind, ensures_cache]
  split
  · next chunk hplace =>
    have hchunk := List.mem_of_getElem? hplace
    have only {other : Chunk Double} (hother : other ∈ studio.store.cache.chunks)
        (place : other.index = count) : other = chunk :=
      h.order.chunks.eq_of_index hother hchunk
        (place.trans (h.order.chunks.placed count chunk hplace).symm)
    unfold refresh
    rw [ensures_bind]
    refine (isOutdated_spec h steady hchunk).mono ?_ fun _ => False.elim
    rintro outdated _ ⟨rfl, right⟩
    split
    · rw [ensures_bind, WorkshopAction.ensures_onCache]
      refine (CacheAction.invalidateWhere_spec _ _).mono ?_ fun _ demotes => h.demotes demotes
      rintro - store ⟨demotes, each⟩
      refine ⟨h.demotes demotes, LookedAt.succ
        (known.demotes (lasting_lookedAt _ _ _) h.order demotes) fun after hafter place => ?_,
        each.length_eq.symm⟩
      obtain ⟨old, hold, demoted, hit⟩ := forall₂_mem each hafter
      obtain rfl := only hold (demoted.index ▸ place)
      -- A window of some length meets itself.
      have outdated (length : after.start < after.stop) : old.Outdated after := by
        rw [demoted.start, demoted.stop] at length
        exact hit (by simp [Window.intersects, Chunk.window, length])
      refine ⟨fun valid length => absurd valid (outdated length).status,
        fun job hjob same fresh kept hkept length => ?_⟩
      have busy := (h.order.owned job hjob old hold (demoted.serial ▸ same)).1
      have := (outdated length).generation busy
      have := (Faithful.fresh_of_demoted h.order.chunks hold demoted fresh).2
      omega
    · next fresh =>
      refine ⟨h, known.succ fun other hother place => ?_, rfl⟩
      obtain rfl := only hother place
      obtain ⟨valid, begun⟩ := right (by simpa using fresh)
      exact ⟨valid, fun job hjob same _ => begun job hjob same⟩
  · next beyond =>
    refine ⟨h, known.succ fun other hother place => ?_, rfl⟩
    have := h.order.chunks.getElem?_index hother
    rw [place, beyond] at this
    exact absurd this (by simp)

/-- Rounds of a loop, each of which starts from a state in its trail. The last state is there too. -/
theorem ensures_forM_range' {ε σ : Type} {round : Nat → EStateM ε σ PUnit} {steady : σ → Prop}
    {holds : Nat → σ → Prop} {fails : σ → Prop}
    (each : ∀ count state, steady state → holds count state →
      Ensures (round count) state (fun _ next => holds (count + 1) next) fails)
    (length first : Nat) (state : σ)
    (along : ∀ passed ∈ trail round (List.range' first length) state, steady passed)
    (h : holds first state) :
    Ensures ((List.range' first length).forM round) state
      (fun _ next => holds (first + length) next ∧ steady next) fails := by
  induction length generalizing first state with
  | zero => exact ⟨h, along state List.mem_cons_self⟩
  | succ length ih =>
    rw [List.range'_succ] at along ⊢
    have here := each first state (along state List.mem_cons_self) h
    change Ensures (round first >>= fun _ => (List.range' (first + 1) length).forM round) state _ _
    rw [ensures_bind]
    unfold Ensures at here ⊢
    cases hround : round first state with
    | error failure next => rwa [hround] at here
    | ok _ next =>
      rw [hround] at here
      have rest := ih (first + 1) next
        (fun passed hpassed => along passed (List.mem_cons_of_mem _ (by rwa [hround]))) here
      rwa [Nat.add_right_comm] at rest

/-- When every chunk was looked at, what is valid is right. -/
theorem reconcile_spec (h : studio.Coherent answers { log with behind := true })
    (along : ∀ state ∈ trail (visit refresh) (List.range studio.store.cache.chunks.length) studio,
      Steady answers state) :
    Ensures reconcile studio
      (fun _ next => Studio.Coherent answers { log with behind := false } next)
      (fun next => Studio.Coherent answers { log with behind := true } next) := by
  let length := studio.store.cache.chunks.length
  let holds (count : Nat) (state : Studio) : Prop :=
    state.Coherent answers { log with behind := true } ∧ LookedAt answers count state ∧
      state.store.cache.chunks.length = length
  have first : holds 0 studio :=
    ⟨h, ⟨fun _ _ _ before => absurd before (Nat.not_lt_zero _),
      fun _ _ _ _ _ _ _ _ before => absurd before (Nat.not_lt_zero _)⟩, rfl⟩
  unfold reconcile forChunks
  rw [ensures_bind, ensures_cache, List.range_eq_range'] at *
  have round (count : Nat) (state : Studio) (steady : Steady answers state)
      (hstate : holds count state) : Ensures (visit refresh count) state
      (fun _ next => holds (count + 1) next)
      (fun next => Studio.Coherent answers { log with behind := true } next) := by
    obtain ⟨h, known, same⟩ := hstate
    exact (visit_refresh_spec h steady known).mono
      (fun _ next hnext => ⟨hnext.1, hnext.2.1, hnext.2.2.trans same⟩) fun _ => id
  refine (ensures_forM_range' round length 0 studio along first).mono ?_ fun _ => id
  rintro - next ⟨⟨h', known, same⟩, -⟩
  rw [Nat.zero_add] at known
  have all {chunk : Chunk Double} (hchunk : chunk ∈ next.store.cache.chunks) :
      chunk.index < length := by
    rw [← same]
    exact (List.getElem?_eq_some_iff.mp (h'.order.chunks.getElem?_index hchunk)).1
  refine ⟨h'.order, h'.sound.flights, h'.sound.settings, h'.sound.noted, fun _ => ?_,
    h'.sound.output⟩
  exact ⟨fun chunk hchunk valid => known.shown chunk hchunk valid (all hchunk),
    fun job hjob chunk hchunk same fresh kept hkept =>
      known.awaited job hjob chunk hchunk same fresh kept hkept (all hchunk)⟩

/-! ### New contents -/

/-- Right or not, what is shown is not known to be right until it was looked at. -/
theorem Studio.Coherent.fallBehind (h : studio.Coherent answers log) :
    studio.Coherent answers { log with behind := true } :=
  h.of_log (by simp) id rfl rfl

/-- A call that failed may have brought settings. -/
theorem Studio.Coherent.unsettle (h : studio.Coherent answers log) (failed : Bool) :
    studio.Coherent answers { log with unsettled := log.unsettled || failed } :=
  h.of_log id (fun known => (Bool.or_eq_false_iff.mp known).1) rfl rfl

/-- A project that is opened has chunks that were rendered for it, which may show another state of
it. -/
theorem load_spec (h : studio.Coherent answers log) (timeline : Timeline Double)
    (media : MediaLibrary) (path : Option String) (time : Option Double) :
    Ensures (load timeline media path time) studio
      (fun _ next => Studio.Coherent answers { log with behind := true } next)
      (fun next => Studio.Coherent answers { log with behind := true } next) := by
  unfold load
  rw [ensures_bind, ensures_session, ensures_bind, ensures_setSession,
    WorkshopAction.ensures_onCache]
  have edited := h.fallBehind.edit rfl { studio.shared with timeline, media } rfl rfl rfl
  exact (CacheAction.openProject_spec _ _ _ _).mono (fun _ _ recut => edited.recut rfl recut)
    fun _ recut => edited.recut rfl recut

/-- Other settings, where it is known what was made for them. -/
theorem Studio.Coherent.settle (h : studio.Coherent answers log) {settings : OutputFormat Double}
    {store : CacheState Double}
    (demotes : { studio.store.cache with settings }.Demotes store.cache)
    (output : log.unsettled = false →
      Faithful (RenderedFor { studio.shared with settings } log)
        (BegunFor { studio.shared with settings } log) studio.scheduler store.cache) :
    Studio.Coherent answers log
      { studio with store, shared := { studio.shared with settings } } := by
  have order : InOrder { studio.store.cache with settings } studio.scheduler := h.order.of_cache rfl rfl
  refine ⟨order.recut demotes.toRecut, ⟨h.sound.flights.listed, h.sound.flights.found⟩,
    demotes.settings, fun serial note hnote => ?_, fun known => ?_, output⟩
  · exact Nat.lt_of_lt_of_le (h.sound.noted serial note hnote) demotes.nextSerial
  · have content : Faithful (Shows answers studio.shared) (Promises answers studio.shared)
        studio.scheduler { studio.store.cache with settings } :=
      ⟨(h.sound.content known).shown, (h.sound.content known).awaited⟩
    exact content.demotes (lasting_content _ _) order demotes

/-- New settings that make no difference keep what was made for the old ones. If they make one,
nothing of it is left. -/
theorem changeSettings_spec (h : studio.Coherent answers log) (settings : OutputFormat Double) :
    Ensures (changeSettings settings) studio
      (fun changed next => changed = !studio.shared.settings.sameOutput settings ∧
        Studio.Coherent answers log next)
      (fun next => Chronicle.takesIn studio settings = false ∧
        Studio.Coherent answers { log with unsettled := true } next) := by
  unfold changeSettings
  rw [ensures_bind, ensures_session, ensures_bind, ensures_setSession,
    WorkshopAction.ensures_onCache]
  have order : InOrder { studio.store.cache with settings } studio.scheduler := h.order.of_cache rfl rfl
  refine (CacheAction.applySettings_spec settings _).known.mono ?_ ?_
  · rintro changed store ⟨-, hchanged, demotes, outdated⟩
    rw [h.sound.settings] at hchanged
    refine ⟨hchanged, h.settle demotes fun known => ?_⟩
    cases changed with
    | true => exact .of_outdated h.order (outdated rfl)
    | false =>
      have same : studio.shared.settings.sameOutput settings = true := by simpa using hchanged
      have output : Faithful (RenderedFor { studio.shared with settings } log)
          (BegunFor { studio.shared with settings } log) studio.scheduler studio.store.cache :=
        (h.sound.output known).output_mono (.inr same) (List.Subset.refl _)
      have output : Faithful (RenderedFor { studio.shared with settings } log)
          (BegunFor { studio.shared with settings } log) studio.scheduler
          { studio.store.cache with settings } := ⟨output.shown, output.awaited⟩
      exact output.demotes (lasting_output _ _) order demotes
  · rintro store ⟨failed, demotes⟩
    have unknown : studio.Coherent answers { log with unsettled := true } :=
      h.of_log id (fun known => absurd known (by simp)) rfl rfl
    exact ⟨failed, unknown.settle demotes fun known => absurd known (by simp)⟩

/-- A timeline of another length is cut anew. -/
theorem keeps_fit (behind : log.behind = true) (duration : Double) :
    Keeps (Studio.Coherent answers log) (fit duration) := by
  intro studio h
  unfold fit
  rw [ensures_bind, ensures_cache]
  split
  · rw [WorkshopAction.ensures_onCache]
    exact (CacheAction.repartition_spec _ _).mono (fun _ _ recut => h.recut behind recut)
      fun _ recut => h.recut behind recut
  · exact h

/-- An edit cuts the cache anew, and tells whether its settings make a difference. -/
theorem change_spec (h : studio.Coherent answers log) (timeline : Timeline Double)
    (media : Option MediaLibrary) (settings : Option (OutputFormat Double)) :
    Ensures (change timeline media settings) studio
      (fun changed next => changed = Chronicle.differ studio settings ∧
        Studio.Coherent answers { log with behind := true } next)
      (fun next => Studio.Coherent answers
        { log with behind := true, unsettled := log.unsettled || !Chronicle.takesIn studio settings }
        next) := by
  have edited := h.fallBehind.edit rfl
    { studio.shared with timeline, media := media.getD studio.shared.media } rfl rfl rfl
  have last {changed : Bool} {middle : Studio}
      (hchanged : changed = Chronicle.differ studio settings)
      (hmiddle : middle.Coherent answers { log with behind := true }) :
      Ensures (do fit timeline.duration; return changed) middle
        (fun changed next => changed = Chronicle.differ studio settings ∧
          Studio.Coherent answers { log with behind := true } next)
        (fun next => Studio.Coherent answers
          { log with behind := true, unsettled := log.unsettled || !Chronicle.takesIn studio settings }
          next) := by
    rw [ensures_bind]
    exact (keeps_fit rfl timeline.duration middle hmiddle).mono
      (fun _ _ hnext => ⟨hchanged, hnext⟩) fun _ hnext => hnext.unsettle _
  unfold change
  rw [ensures_bind, ensures_session, ensures_bind, ensures_setSession]
  cases settings with
  | none => exact last rfl edited
  | some settings =>
    refine ensures_bind.mpr ((changeSettings_spec edited settings).mono
      (fun changed middle hnext => last hnext.1 hnext.2) fun _ hnext => ?_)
    have failed : Chronicle.takesIn studio (some settings) = false := hnext.1
    exact hnext.2.of_log id (fun known => absurd known (by simp [failed])) rfl rfl

/-- New contents that are in place are looked at in states that are steady. -/
theorem ensures_reconcileStates {α : Type} {first : SessionAction Double α}
    {returns : α → Studio → Prop} {fails : Studio → Prop}
    (h : Ensures first studio returns fails)
    (along : ∀ state ∈ reconcileStates first studio, Steady answers state) :
    Ensures first studio
      (fun a next => returns a next ∧
        ∀ state ∈ trail (visit refresh) (List.range next.store.cache.chunks.length) next,
          Steady answers state) fails := by
  unfold Ensures reconcileStates at *
  cases hfirst : first studio with
  | error failure next => rwa [hfirst] at h
  | ok a next =>
    rw [hfirst] at h along
    exact ⟨h, along⟩

/-- What is left to do once new contents are in place. -/
theorem settle_spec (h : studio.Coherent answers { log with behind := true })
    (along : ∀ state ∈ trail (visit refresh) (List.range studio.store.cache.chunks.length) studio,
      Steady answers state) (urgency : Urgency) (retryErrors : Bool) :
    Ensures (do reconcile; queueWaiting urgency retryErrors) studio
      (fun _ next => Studio.Coherent answers { log with behind := false } next)
      (fun next => Studio.Coherent answers { log with behind := true } next) := by
  rw [ensures_bind]
  refine (reconcile_spec h along).mono (fun _ middle hmiddle => ?_) fun _ => id
  exact (keeps_queueWaiting urgency retryErrors middle hmiddle).mono (fun _ _ => id)
    fun _ hnext => hnext.fallBehind

/-- A project is opened, looked at, and queued. -/
theorem openProject_spec (h : studio.Coherent answers log) (timeline : Timeline Double)
    (media : MediaLibrary) (path : Option String) (time : Option Double)
    (along : ∀ state ∈ reconcileStates (load timeline media path time) studio,
      Steady answers state) :
    Ensures (SessionAction.openProject timeline media path time) studio
      (fun _ next => Studio.Coherent answers { log with behind := false } next)
      (fun next => Studio.Coherent answers { log with behind := true } next) := by
  unfold SessionAction.openProject
  rw [ensures_bind]
  refine (ensures_reconcileStates (load_spec h timeline media path time) along).mono ?_ fun _ => id
  exact fun _ middle hmiddle => settle_spec hmiddle.1 hmiddle.2 _ _

/-- An edit is made, looked at, and queued. -/
theorem update_spec (h : studio.Coherent answers log) (timeline : Timeline Double)
    (media : Option MediaLibrary) (settings : Option (OutputFormat Double))
    (along : ∀ state ∈ reconcileStates (change timeline media settings) studio,
      Steady answers state) :
    Ensures (update timeline media settings) studio
      (fun _ next => Studio.Coherent answers { log with behind := false } next)
      (fun next => Studio.Coherent answers
        { log with behind := true, unsettled := log.unsettled || !Chronicle.takesIn studio settings }
        next) := by
  unfold update
  rw [ensures_bind]
  refine (ensures_reconcileStates (change_spec h timeline media settings) along).mono ?_ fun _ => id
  rintro changed middle ⟨⟨-, hmiddle⟩, steady⟩
  have last := settle_spec hmiddle steady .high changed
  rw [ensures_bind] at last ⊢
  refine last.mono (fun _ queued hqueued => ?_) fun _ hnext => hnext.unsettle _
  rw [ensures_bind]
  exact hqueued.mono (fun _ _ => id) fun _ hnext => hnext.unsettle _

/-! ### What no edit takes away -/

/-- A property of sessions that survives new contents, invalidations, other settings and new cuts. -/
structure SurvivesChanges (holds : Studio → Prop) : Prop where
  session : ∀ studio session, holds studio → holds { studio with shared := session }
  invalidates : ∀ meets, Keeps holds (WorkshopAction.onCache (CacheAction.invalidateWhere meets))
  settles : ∀ settings, Keeps holds (WorkshopAction.onCache (CacheAction.applySettings settings))
  cuts : ∀ duration, Keeps holds (WorkshopAction.onCache (CacheAction.repartition duration))

namespace SurvivesChanges

variable {holds : Studio → Prop}

theorem keeps_reconcile (survives : SurvivesChanges holds) : Keeps holds reconcile := by
  unfold reconcile
  apply keeps_forChunks
  intro chunk
  unfold refresh
  refine (keeps_isOutdated chunk).bind fun outdated => ?_
  split
  · exact (survives.invalidates _).bind fun _ => Keeps.pure
  · exact Keeps.pure

theorem keeps_change (survives : SurvivesChanges holds) (timeline : Timeline Double)
    (media : Option MediaLibrary) (settings : Option (OutputFormat Double)) :
    Keeps holds (change timeline media settings) := by
  have fits (changed : Bool) : Keeps holds do fit timeline.duration; return changed := by
    refine Keeps.bind ?_ fun _ => Keeps.pure
    unfold fit
    refine Keeps.bind (fun _ h => h) fun cache => ?_
    split
    · exact survives.cuts timeline.duration
    · exact Keeps.pure
  unfold change
  refine Keeps.bind (fun _ h => h) fun before => Keeps.bind ?_ fun _ => ?_
  · exact fun studio h => survives.session studio _ h
  · cases settings with
    | none => exact fits false
    | some settings =>
      refine Keeps.bind ?_ fits
      unfold changeSettings
      refine Keeps.bind (fun _ h => h) fun session => Keeps.bind ?_ fun _ => ?_
      · exact fun studio h => survives.session studio _ h
      · exact survives.settles settings

end SurvivesChanges

/-- A property of sessions that survives any change of what is to be shown and any recut of the
cache, also for another output. -/
structure SurvivesEdits (holds : Studio → Prop) : Prop where
  session : ∀ studio session, holds studio → holds { studio with shared := session }
  recut : ∀ studio store settings, { studio.store.cache with settings }.Recut store.cache →
    holds studio → holds { studio with store }

namespace SurvivesEdits

variable {holds : Studio → Prop}

/-- An action on the cache that cuts it anew at most. -/
theorem keeps_onCache (survives : SurvivesEdits holds) {α : Type} {action : CacheAction Double α}
    (spec : ∀ state, Ensures action state
      (fun _ next => ∃ settings, { state.cache with settings }.Recut next.cache)
      (fun next => ∃ settings, { state.cache with settings }.Recut next.cache)) :
    Keeps holds (WorkshopAction.onCache action) := by
  intro studio h
  apply WorkshopAction.ensures_onCache.mpr
  refine (spec studio.store).mono ?_ ?_
  · rintro - store ⟨settings, recut⟩
    exact survives.recut studio store settings recut h
  · rintro store ⟨settings, recut⟩
    exact survives.recut studio store settings recut h

theorem changes (survives : SurvivesEdits holds) : SurvivesChanges holds where
  session := survives.session
  invalidates meets := survives.keeps_onCache fun state =>
    (CacheAction.invalidateWhere_spec meets state).mono
      (fun _ _ hnext => ⟨state.cache.settings, hnext.1.toRecut⟩)
      fun _ hnext => ⟨state.cache.settings, hnext.toRecut⟩
  settles settings := survives.keeps_onCache fun state =>
    (CacheAction.applySettings_spec settings state).mono
      (fun _ _ hnext => ⟨settings, hnext.2.1.toRecut⟩) fun _ hnext => ⟨settings, hnext.toRecut⟩
  cuts duration := survives.keeps_onCache fun state =>
    (CacheAction.repartition_spec duration state).mono
      (fun _ _ recut => ⟨state.cache.settings, recut⟩) fun _ recut => ⟨state.cache.settings, recut⟩

theorem keeps_load (survives : SurvivesEdits holds) (timeline : Timeline Double)
    (media : MediaLibrary) (path : Option String) (time : Option Double) :
    Keeps holds (load timeline media path time) := by
  unfold load
  refine Keeps.bind (fun _ h => h) fun session => Keeps.bind ?_ fun _ => ?_
  · exact fun studio h => survives.session studio _ h
  · apply survives.keeps_onCache
    intro state
    exact (CacheAction.openProject_spec path timeline.duration time state).mono
      (fun _ _ recut => ⟨state.cache.settings, recut⟩) fun _ recut => ⟨state.cache.settings, recut⟩

end SurvivesEdits

/-- A property that survives every edit, and what it becomes when all that waits was queued. -/
structure Requeues (before after : Studio → Prop) : Prop where
  edits : SurvivesEdits before
  queues : ∀ studio urgency retry, before studio →
    Ensures (queueWaiting urgency retry) studio (fun _ => after) (fun _ => False)

namespace Requeues

variable {before after : Studio → Prop} {studio : Studio}

/-- What is left to do once new contents are in place. -/
theorem settle (requeues : Requeues before after) (h : before studio) (urgency : Urgency)
    (retry : Bool) :
    Ensures (do reconcile; queueWaiting urgency retry) studio (fun _ => after) before := by
  rw [ensures_bind]
  refine (requeues.edits.changes.keeps_reconcile studio h).mono (fun _ middle hmiddle => ?_) fun _ => id
  exact (requeues.queues middle urgency retry hmiddle).mono (fun _ _ => id) fun _ => False.elim

theorem openProject (requeues : Requeues before after) (h : before studio)
    (timeline : Timeline Double) (media : MediaLibrary) (path : Option String)
    (time : Option Double) :
    Ensures (SessionAction.openProject timeline media path time) studio (fun _ => after)
      before := by
  unfold SessionAction.openProject
  rw [ensures_bind]
  exact (requeues.edits.keeps_load timeline media path time studio h).mono
    (fun _ _ hmiddle => requeues.settle hmiddle .normal false) fun _ => id

theorem update (requeues : Requeues before after) (h : before studio) (timeline : Timeline Double)
    (media : Option MediaLibrary) (settings : Option (OutputFormat Double)) :
    Ensures (SessionAction.update timeline media settings) studio (fun _ => after) before := by
  unfold SessionAction.update
  rw [ensures_bind]
  refine (requeues.edits.changes.keeps_change timeline media settings studio h).mono
    (fun changed middle hmiddle => ?_) fun _ => id
  have last := requeues.settle hmiddle .high changed
  rw [ensures_bind] at last ⊢
  refine last.mono (fun _ queued hqueued => ?_) fun _ => id
  rw [ensures_bind]
  exact hqueued.mono (fun _ _ => id) fun _ => id

theorem invalidate (requeues : Requeues before after) (h : before studio) (start stop : Double) :
    Ensures (SessionAction.invalidate start stop) studio (fun _ => after) before := by
  unfold SessionAction.invalidate
  rw [ensures_bind]
  refine (requeues.edits.changes.invalidates _ studio h).mono
    (fun affected middle hmiddle => ?_) fun _ => id
  rw [ensures_bind]
  exact (requeues.queues middle .high false hmiddle).mono (fun _ _ => id) fun _ => False.elim

end Requeues

end Montage
