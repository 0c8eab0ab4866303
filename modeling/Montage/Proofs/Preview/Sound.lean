import Montage.Proofs.Number.Order
import Montage.Proofs.Preview.Run
import Montage.Proofs.Preview.Worker
import Montage.Proofs.Schedule.Faithful
import Montage.Proofs.Schedule.Steering

/-!
# The invariant of an editing session

`Sound` says what holds of a session in every state that it reaches. The hashes of what is being
rendered are those of the jobs. What is valid, and what is being rendered and has not been
invalidated, is what is to be shown now, unless the last edit failed; and it is made for the output
that is wanted now, unless a change of settings failed.
-/

namespace Montage

/-- Settings that are the same, or that give the same output. -/
def OutputFormat.Alike (a b : OutputFormat Double) : Prop := a = b ∨ a.sameOutput b = true

theorem OutputFormat.Alike.trans {a b c : OutputFormat Double} (h : a.Alike b)
    (h' : b.sameOutput c = true) : a.Alike c := by
  rcases h with rfl | h
  · exact .inr h'
  · obtain ⟨width, height, rate, background, sampleRate⟩ := sameOutput_iff.mp h
    obtain ⟨width', height', rate', background', sampleRate'⟩ := sameOutput_iff.mp h'
    refine .inr (sameOutput_iff.mpr ⟨width.trans width', height.trans height', ?_,
      background.trans background', sampleRate.trans sampleRate'⟩)
    obtain ⟨x, ha, hb⟩ := Double.beq_iff.mp rate
    obtain ⟨y, hb', hc⟩ := Double.beq_iff.mp rate'
    obtain rfl := Option.some.inj (hb.symm.trans hb')
    exact Double.beq_iff.mpr ⟨x, ha, hc⟩

/-- A job of a session. -/
abbrev RenderJob := Job Double ChunkRender EncoderReply

/-- The hashes of what is being rendered, by place, are those of the jobs that have begun. -/
structure Flights (inFlight : List (Nat × String))
    (scheduler : Scheduler Double ChunkRender EncoderReply) : Prop where
  listed : ∀ index contentHash, (index, contentHash) ∈ inFlight →
    ∃ job ∈ scheduler.active, job.index = index ∧
      ∃ kept, job.kept? = some kept ∧ kept.contentHash = contentHash
  found : ∀ job ∈ scheduler.active, ∀ kept, job.kept? = some kept →
    (job.index, kept.contentHash) ∈ inFlight

/-- What a session composed for a window when a job began gives the output that is wanted now. -/
structure Moment.Suits (moment : Moment) (session : Session Double) (window : Window Double) :
    Prop where
  settings : moment.session.settings.Alike session.settings
  composed : ∃ call ∈ session.calls, moment.session.Composes moment.files window call

section Statements

variable (answers : PathExists) (session : Session Double) (log : Chronicle)

/-- A chunk with a window of some length shows what it is to show. -/
def Shows (chunk : Chunk Double) : Prop :=
  chunk.start < chunk.stop → chunk.contentHash = some (session.hashWith answers chunk.window)

/-- A job renders what its chunk is to show. -/
def Promises (_ : RenderJob) (kept : ChunkRender) (chunk : Chunk Double) : Prop :=
  chunk.start < chunk.stop → kept.contentHash = session.hashWith answers chunk.window

/-- A chunk that was rendered by this session was composed for the output that is wanted now. -/
def RenderedFor (chunk : Chunk Double) : Prop :=
  ∀ note, log.notes chunk.serial = some note →
    ∃ moment, note.start = some moment ∧ moment.Suits session chunk.window

/-- A job composed its chunk for the output that is wanted now. -/
def BegunFor (job : RenderJob) (_ : ChunkRender) (chunk : Chunk Double) : Prop :=
  ∃ moment, log.starts job.id = some moment ∧ moment.Suits session chunk.window

/-- What holds of a session beside the order of its chunks and jobs. -/
structure Sound (scheduler : Scheduler Double ChunkRender EncoderReply) (cache : Cache Double) :
    Prop where
  flights : Flights session.inFlight scheduler
  settings : cache.settings = session.settings
  noted : ∀ serial note, log.notes serial = some note → serial < cache.nextSerial
  content : log.behind = false →
    Faithful (Shows answers session) (Promises answers session) scheduler cache
  output : log.unsettled = false →
    Faithful (RenderedFor session log) (BegunFor session log) scheduler cache

/-- The invariant of a session. -/
structure Studio.Coherent (studio : Studio) : Prop where
  order : InOrder studio.store.cache studio.scheduler
  sound : Sound answers studio.shared log studio.scheduler studio.store.cache

theorem lasting_content : Lasting (Shows answers session) (Promises answers session) where
  shown before after demoted valid h := by
    unfold Shows at h ⊢
    rw [demoted.contentHash valid, demoted.start, demoted.stop, demoted.window]
    exact h
  awaited job kept before after demoted h := by
    unfold Promises at h ⊢
    rw [demoted.start, demoted.stop, demoted.window]
    exact h

theorem lasting_output : Lasting (RenderedFor session log) (BegunFor session log) where
  shown before after demoted _ h := by
    unfold RenderedFor at h ⊢
    rw [demoted.serial, demoted.window]
    exact h
  awaited _ _ before after demoted h := by
    unfold BegunFor at h ⊢
    rw [demoted.window]
    exact h

end Statements

variable {answers : PathExists} {log log' : Chronicle} {session : Session Double} {studio : Studio}

/-- What suits a session suits one that wants the same output and has run the encoder since. -/
theorem Moment.Suits.mono {moment : Moment} {session' : Session Double} {window : Window Double}
    (h : moment.Suits session window)
    (settings : session.settings = session'.settings ∨
      session.settings.sameOutput session'.settings = true)
    (calls : session.calls ⊆ session'.calls) : moment.Suits session' window where
  settings := by
    rcases settings with same | alike
    · exact same ▸ h.settings
    · exact h.settings.trans alike
  composed := by
    obtain ⟨call, hcall, composed⟩ := h.composed
    exact ⟨call, calls hcall, composed⟩

/-- What was made for a session is made for one that wants the same output. -/
theorem Faithful.output_mono {session' : Session Double}
    {scheduler : Scheduler Double ChunkRender EncoderReply} {cache : Cache Double}
    (h : Faithful (RenderedFor session log) (BegunFor session log) scheduler cache)
    (settings : session.settings = session'.settings ∨
      session.settings.sameOutput session'.settings = true)
    (calls : session.calls ⊆ session'.calls) :
    Faithful (RenderedFor session' log) (BegunFor session' log) scheduler cache := by
  refine h.mono ?_ ?_
  · intro chunk made note hnote
    obtain ⟨moment, hmoment, suits⟩ := made note hnote
    exact ⟨moment, hmoment, suits.mono settings calls⟩
  · rintro job kept chunk ⟨moment, hmoment, suits⟩
    exact ⟨moment, hmoment, suits.mono settings calls⟩

/-! ### Queueing -/

/-- A job that has not begun is not noted anywhere. -/
theorem Flights.admits (inFlight : List (Nat × String)) :
    Admits fun scheduler (_ : Cache Double) => Flights inFlight scheduler where
  idle _ _ _ h := ⟨h.listed, h.found⟩
  skip _ _ _ _ _ _ h _ := ⟨h.listed, h.found⟩
  enqueue _ _ _ h := ⟨h.listed, h.found⟩
  begin entry rest scheduler cache chunk order queue _ h hget waits := by
    refine ⟨fun index contentHash hflight => ?_, fun job hjob kept hkept => ?_⟩
    · obtain ⟨job, hjob, begun⟩ := h.listed index contentHash hflight
      exact ⟨job, List.mem_append_left _ hjob, begun⟩
    · rcases List.mem_append.mp hjob with hjob | hjob
      · exact h.found job hjob kept hkept
      · obtain rfl := List.mem_singleton.mp hjob
        exact absurd hkept (by simp [Job.kept?])

theorem Sound.admits : Admits (Sound answers session log) where
  idle s c b h := ⟨(Flights.admits _).idle s c b h.flights, h.settings, h.noted,
    fun known => Faithful.admits.idle s c b (h.content known),
    fun known => Faithful.admits.idle s c b (h.output known)⟩
  skip entry rest s c order queue h absent :=
    ⟨(Flights.admits _).skip entry rest s c order queue h.flights absent, h.settings, h.noted,
      fun known => Faithful.admits.skip entry rest s c order queue (h.content known) absent,
      fun known => Faithful.admits.skip entry rest s c order queue (h.output known) absent⟩
  begin entry rest s c chunk order queue room h hget waits :=
    ⟨(Flights.admits _).begin entry rest s c chunk order queue room h.flights hget waits,
      h.settings, h.noted,
      fun known => Faithful.admits.begin entry rest s c chunk order queue room (h.content known)
        hget waits,
      fun known => Faithful.admits.begin entry rest s c chunk order queue room (h.output known)
        hget waits⟩
  enqueue entry s c h := ⟨(Flights.admits _).enqueue entry s c h.flights, h.settings, h.noted,
    fun known => Faithful.admits.enqueue entry s c (h.content known),
    fun known => Faithful.admits.enqueue entry s c (h.output known)⟩

theorem Studio.Coherent.under (h : studio.Coherent answers log) :
    studio.Under studio.shared (Sound answers studio.shared log) := ⟨rfl, h.order, h.sound⟩

theorem Workshop.Under.coherent (h : studio.Under session (Sound answers session log)) :
    studio.Coherent answers log := by
  obtain ⟨rfl, order, sound⟩ := h
  exact ⟨order, sound⟩

namespace Studio.Coherent

/-- The chronicle matters only for what it says of failures and of jobs. -/
theorem of_log (h : studio.Coherent answers log)
    (behind : log'.behind = false → log.behind = false)
    (unsettled : log'.unsettled = false → log.unsettled = false)
    (notes : log'.notes = log.notes) (starts : log'.starts = log.starts) :
    studio.Coherent answers log' := by
  refine ⟨h.order, h.sound.flights, h.sound.settings, notes ▸ h.sound.noted,
    fun known => h.sound.content (behind known), fun known => ?_⟩
  have output := h.sound.output (unsettled known)
  unfold RenderedFor BegunFor at output ⊢
  rw [notes, starts]
  exact output

/-- Another cache, where what is new was not rendered by this session. -/
theorem recut (h : studio.Coherent answers log) (behind : log.behind = true)
    {store : CacheState Double} (recut : studio.store.cache.Recut store.cache) :
    Studio.Coherent answers log { studio with store } where
  order := h.order.recut recut
  sound := {
    flights := h.sound.flights
    settings := recut.settings.trans h.sound.settings
    noted := fun serial note hnote =>
      Nat.lt_of_lt_of_le (h.sound.noted serial note hnote) recut.nextSerial
    content := fun known => absurd behind (by simp [known])
    output := fun known => (h.sound.output known).recut (lasting_output _ _) h.order recut
      fun chunk _ new _ note hnote => by
        have := h.sound.noted chunk.serial note hnote
        have := new.serial_le
        omega }

/-- A cache with chunks that were demoted. -/
theorem demotes (h : studio.Coherent answers log) {store : CacheState Double}
    (demotes : studio.store.cache.Demotes store.cache) :
    Studio.Coherent answers log { studio with store } where
  order := h.order.recut demotes.toRecut
  sound := {
    flights := h.sound.flights
    settings := demotes.settings.trans h.sound.settings
    noted := fun serial note hnote =>
      Nat.lt_of_lt_of_le (h.sound.noted serial note hnote) demotes.nextSerial
    content := fun known =>
      (h.sound.content known).demotes (lasting_content _ _) h.order demotes
    output := fun known => (h.sound.output known).demotes (lasting_output _ _) h.order demotes }

/-- Another timeline and other media. -/
theorem edit (h : studio.Coherent answers log) (behind : log.behind = true)
    (session : Session Double) (settings : session.settings = studio.shared.settings)
    (inFlight : session.inFlight = studio.shared.inFlight)
    (calls : session.calls = studio.shared.calls) :
    Studio.Coherent answers log { studio with shared := session } where
  order := h.order
  sound := {
    flights := inFlight ▸ h.sound.flights
    settings := h.sound.settings.trans settings.symm
    noted := h.sound.noted
    content := fun known => absurd behind (by simp [known])
    output := fun known => (h.sound.output known).output_mono (.inl settings.symm)
      (calls ▸ List.Subset.refl _) }

/-- What is due matters to nothing. -/
theorem redate (h : studio.Coherent answers log) (agenda : List Nat) :
    Studio.Coherent answers log
      { studio with scheduler := { studio.scheduler with agenda } } :=
  ⟨h.order.of_eq rfl rfl rfl, ⟨h.sound.flights.listed, h.sound.flights.found⟩, h.sound.settings,
    h.sound.noted, fun known => ⟨(h.sound.content known).shown, (h.sound.content known).awaited⟩,
    fun known => ⟨(h.sound.output known).shown, (h.sound.output known).awaited⟩⟩

/-- Jobs that go on with what they kept. -/
theorem map (h : studio.Coherent answers log) {next : RenderJob → RenderJob}
    (same : ∀ job ∈ studio.scheduler.active, (next job).id = job.id ∧
      (next job).chunk = job.chunk ∧ (next job).kept? = job.kept?) (agenda : List Nat) :
    Studio.Coherent answers log { studio with scheduler := { studio.scheduler with
      active := studio.scheduler.active.map next, agenda } } where
  order := (h.order.map fun job hjob => ⟨(same job hjob).1, (same job hjob).2.1⟩).of_eq rfl rfl rfl
  sound := {
    flights := by
      refine ⟨fun index contentHash hflight => ?_, fun job hjob kept hkept => ?_⟩
      · obtain ⟨job, hjob, place, kept, hkept, hash⟩ :=
          h.sound.flights.listed index contentHash hflight
        exact ⟨next job, List.mem_map_of_mem hjob,
          (congrArg Chunk.index (same job hjob).2.1).trans place, kept,
          (same job hjob).2.2.trans hkept, hash⟩
      · obtain ⟨before, hbefore, rfl⟩ := List.mem_map.mp hjob
        rw [Job.index, (same before hbefore).2.1]
        exact h.sound.flights.found before hbefore kept ((same before hbefore).2.2 ▸ hkept)
    settings := h.sound.settings
    noted := h.sound.noted
    content := fun known => by
      refine ⟨(h.sound.content known).shown, fun job hjob chunk hchunk serial fresh kept hkept => ?_⟩
      obtain ⟨before, hbefore, rfl⟩ := List.mem_map.mp hjob
      exact (h.sound.content known).awaited before hbefore chunk hchunk
        ((same before hbefore).2.1 ▸ serial) fresh kept ((same before hbefore).2.2 ▸ hkept)
    output := fun known => by
      refine ⟨(h.sound.output known).shown, fun job hjob chunk hchunk serial fresh kept hkept => ?_⟩
      obtain ⟨before, hbefore, rfl⟩ := List.mem_map.mp hjob
      rw [BegunFor, (same before hbefore).1]
      exact (h.sound.output known).awaited before hbefore chunk hchunk
        ((same before hbefore).2.1 ▸ serial) fresh kept ((same before hbefore).2.2 ▸ hkept) }

/-- A job that goes on with what it kept. -/
theorem putJob (h : studio.Coherent answers log) {job next : RenderJob}
    (hjob : job ∈ studio.scheduler.active)
    (same : next.id = job.id ∧ next.chunk = job.chunk ∧ next.kept? = job.kept?)
    (agenda : List Nat) :
    Studio.Coherent answers log { studio with
      scheduler := { studio.scheduler.putJob next with agenda } } := by
  refine h.map (fun other hother => ?_) agenda
  by_cases hid : other.id = next.id
  · obtain rfl := h.order.jobs.eq_of_id hother hjob (hid.trans same.1)
    rw [if_pos hid]
    exact same
  · rw [if_neg hid]
    exact ⟨rfl, rfl, rfl⟩

/-- Jobs that leave their places without having begun. -/
theorem release (h : studio.Coherent answers log) {active : List RenderJob}
    (sub : active.Sublist studio.scheduler.active)
    (left : ∀ job ∈ studio.scheduler.active, job.kept? ≠ none → job ∈ active) :
    Studio.Coherent answers log { studio with scheduler := { studio.scheduler with active } } where
  order := h.order.release sub
  sound := {
    flights := by
      refine ⟨fun index contentHash hflight => ?_, fun job hjob => ?_⟩
      · obtain ⟨job, hjob, place, kept, hkept, hash⟩ :=
          h.sound.flights.listed index contentHash hflight
        exact ⟨job, left job hjob (by simp [hkept]), place, kept, hkept, hash⟩
      · exact h.sound.flights.found job (sub.subset hjob)
    settings := h.sound.settings
    noted := h.sound.noted
    content := fun known => (h.sound.content known).of_subset fun job hjob _ => sub.subset hjob
    output := fun known => (h.sound.output known).of_subset fun job hjob _ => sub.subset hjob }

end Studio.Coherent

/-! ### Actions that keep the invariant -/

section Keeps

variable {holds : Studio → Prop}

theorem keeps_queue (index : Int) (urgency : Urgency) :
    Keeps (Studio.Coherent answers log) (WorkshopAction.queue index urgency) := fun studio h =>
  (Sound.admits.keeps_queue studio h.under).mono (fun _ _ hnext => hnext.coherent)
    fun _ hnext => hnext.coherent

theorem keeps_pump : Keeps (Studio.Coherent answers log) WorkshopAction.pump := fun studio h =>
  (Sound.admits.keeps_pump studio h.under).mono (fun _ _ hnext => hnext.coherent)
    fun _ hnext => hnext.coherent

/-- The queue matters to nothing but the order. -/
theorem Sound.of_queue {scheduler : Scheduler Double ChunkRender EncoderReply}
    {cache : Cache Double} (h : Sound answers session log scheduler cache) (queue : RenderQueue) :
    Sound answers session log { scheduler with queue } cache :=
  ⟨⟨h.flights.listed, h.flights.found⟩, h.settings, h.noted,
    fun known => ⟨(h.content known).shown, (h.content known).awaited⟩,
    fun known => ⟨(h.output known).shown, (h.output known).awaited⟩⟩

theorem keeps_setUrgency (index : Int) (urgency : Urgency) :
    Keeps (Studio.Coherent answers log) (WorkshopAction.setUrgency index urgency) :=
  fun studio h =>
    (Sound.admits.setUrgency index urgency (fun _ _ h => h.of_queue _) studio h.order h.sound).mono
      (fun _ _ hnext => ⟨hnext.1, hnext.2.2.shared ▸ hnext.2.1⟩) fun _ => False.elim

/-- Looking at a session changes nothing. -/
theorem keeps_hashOf (chunk : Chunk Double) : Keeps holds (SessionAction.hashOf chunk) :=
  fun _ h => h

theorem keeps_isPending (retryErrors : Bool) (chunk : Chunk Double) :
    Keeps holds (SessionAction.isPending retryErrors chunk) := by
  unfold SessionAction.isPending
  split
  · exact Keeps.pure
  · exact Keeps.pure
  · exact (keeps_hashOf chunk).bind fun _ => Keeps.pure
  · exact Keeps.bind (fun _ h => h) fun _ => Keeps.pure
  · exact Keeps.pure

theorem keeps_isOutdated (chunk : Chunk Double) :
    Keeps holds (SessionAction.isOutdated chunk) := by
  unfold SessionAction.isOutdated
  split
  · exact (keeps_hashOf chunk).bind fun _ => Keeps.pure
  · refine Keeps.bind (fun _ h => h) fun session => ?_
    split
    · exact Keeps.pure
    · exact (keeps_hashOf chunk).bind fun _ => Keeps.pure
  · exact Keeps.pure

theorem keeps_forChunks {action : Chunk Double → SessionAction Double Unit}
    (each : ∀ chunk, Keeps holds (action chunk)) : Keeps holds (SessionAction.forChunks action) := by
  unfold SessionAction.forChunks
  refine Keeps.bind (fun _ h => h) fun cache => Keeps.forM (fun index => ?_) _
  unfold SessionAction.visit
  refine Keeps.bind (fun _ h => h) fun cache => ?_
  split
  · exact each _
  · exact Keeps.pure

theorem keeps_queueWaiting (urgency : Urgency) (retryErrors : Bool) :
    Keeps (Studio.Coherent answers log) (SessionAction.queueWaiting urgency retryErrors) := by
  unfold SessionAction.queueWaiting
  refine keeps_forChunks fun chunk => (keeps_isPending retryErrors chunk).bind fun pending => ?_
  split
  · exact (keeps_queue _ urgency).bind fun _ => Keeps.pure
  · exact Keeps.pure

/-- What is brought to the front is near the playhead, and waits for a render or has failed. -/
theorem mem_nearby {chunks : List (Chunk Double)} {center : Nat} {radius : Int}
    {chunk : Chunk Double} : chunk ∈ SessionAction.nearby chunks center radius ↔
      chunk ∈ chunks ∧ (((chunk.index : Int) - center).natAbs : Int) ≤ radius ∧
        (chunk.status.needsRender = true ∨ chunk.status = .error) := by
  unfold SessionAction.nearby
  rw [List.mem_mergeSort, List.mem_filter]
  simp only [Bool.and_eq_true, Bool.or_eq_true, decide_eq_true_eq]

/-- Bringing chunks to the front does nothing but queue them and move them in the queue. -/
theorem prioritizeNear_spec {studio : Studio} (h : holds studio)
    (each : ∀ chunk ∈ studio.store.cache.chunks,
      chunk.status.needsRender = true ∨ chunk.status = .error →
      Keeps holds (WorkshopAction.queue chunk.index .high) ∧
        Keeps holds (WorkshopAction.setUrgency chunk.index .high)) (t : Double)
    (radius : Option Int) :
    Ensures (SessionAction.prioritizeNear t radius) studio (fun _ => holds) holds := by
  unfold SessionAction.prioritizeNear
  rw [ensures_bind, SessionAction.ensures_cache, ensures_bind, ensures_liftM]
  split
  · next center _ =>
    split
    · exact h
    · rw [ensures_bind, SessionAction.ensures_session, ensures_bind, SessionAction.ensures_cache]
      refine Keeps.bind (Keeps.filterM _ fun chunk near => ?_) (fun _ => Keeps.pure) studio h
      obtain ⟨hchunk, -, waits⟩ := mem_nearby.mp near
      obtain ⟨queues, moves⟩ := each chunk hchunk waits
      refine moves.bind fun moved => ?_
      split
      · exact Keeps.pure
      · exact queues
  · exact h

theorem keeps_prioritizeNear (queues : ∀ index urgency, Keeps holds (WorkshopAction.queue index urgency))
    (moves : ∀ index urgency, Keeps holds (WorkshopAction.setUrgency index urgency)) (t : Double)
    (radius : Option Int) : Keeps holds (SessionAction.prioritizeNear t radius) :=
  fun _ h => prioritizeNear_spec h (fun _ _ _ => ⟨queues _ _, moves _ _⟩) t radius

theorem SessionEvent.answer_eq (id : Nat) (reply : EncoderReply) :
    (SessionEvent.answer id reply).action = WorkshopAction.deliver id reply := by
  unfold SessionEvent.action WorkshopAction.deliver
  refine bind_congr fun scheduler => ?_
  cases scheduler.answer? (·.id = id) reply <;> rfl

/-- The invariant goes by what workers keep. -/
theorem Studio.Coherent.indifferent : Indifferent (Studio.Coherent answers log) where
  order _ h := h.order
  dequeue _ queue sub h := ⟨h.order.dequeue sub, h.sound.of_queue queue⟩
  map _ _ agenda same h :=
    h.map (fun job hjob => ⟨(same job hjob).id, (same job hjob).chunk, (same job hjob).kept⟩) agenda
  release _ _ sub left h := h.release sub left

theorem keeps_wipe :
    Keeps (Studio.Coherent answers log) (WorkshopAction.onCache CacheAction.wipe) := by
  intro studio h
  rw [WorkshopAction.ensures_onCache]
  exact (CacheAction.wipe_spec _).mono (fun _ _ demotes => h.demotes demotes)
    fun _ demotes => h.demotes demotes

theorem keeps_invalidate (start stop : Double) :
    Keeps (Studio.Coherent answers log) (SessionAction.invalidate start stop) := by
  unfold SessionAction.invalidate
  refine Keeps.bind (fun studio h => ?_) fun _ =>
    (keeps_queueWaiting _ _).bind fun _ => Keeps.pure
  rw [WorkshopAction.ensures_onCache]
  exact (CacheAction.invalidateWhere_spec _ _).mono (fun _ _ demotes => h.demotes demotes.1)
    fun _ demotes => h.demotes demotes

end Keeps

end Montage
