import Montage.Proofs.Chunk.Wipe
import Montage.Proofs.Preview.Housing
import Montage.Proofs.Preview.Shop
import Montage.Proofs.Preview.Worker
import Montage.Proofs.Schedule.Stop

/-!
# Clearing a preview

A preview is cleared in two steps: all jobs are told to stop, and when they have ended every file of a
chunk is deleted and every chunk is reset. The files are gone then. But the chunk of a job that was
stopped stays as one that renders, and a reset leaves it so; and where the chunk of a job was replaced
before, the end of the job has the new chunk rendered.

## Main definitions

* `Studio.IsCleared` — nothing is left of what was rendered, and nothing is to be rendered but all
* `Studio.Founded` — a folder is there, or no file lies in it
* `Ledger.resumed` — all jobs were told to stop, and those who waited for their ends go on
* `Ledger.Clears` — the jobs have ended by then, and what was rendered could be deleted
* `Ledger.Spares` — no job ends whose place another chunk waits for

## Main results

* `Studio.Founded.next` — every event keeps a folder founded
* `Ledger.Reaches.clears` — what clearing a preview leaves behind
* `exists_left_uncleared` — a chunk that is being rendered is not reset
-/

namespace Montage

open SessionAction

/-! ### The folder of a session -/

/-- A session whose folder is there, or has no file in it. -/
structure Studio.Founded (studio : Studio) : Prop extends studio.Rooted where
  founded : studio.store.disk.files.Founded studio.store.cache.folder

namespace Studio.Founded

variable {studio : Studio}

theorem of_founded (h : studio.Founded) {store : CacheState Double} {session : Session Double}
    {scheduler : Scheduler Double ChunkRender EncoderReply}
    (folder : store.cache.folder = studio.store.cache.folder)
    (founded : store.disk.files.Founded store.cache.folder)
    (retains : studio.scheduler.Retains scheduler) :
    Studio.Founded { store, scheduler, shared := session } where
  toRooted := h.toRooted.of_folder folder retains
  founded := founded

theorem called (h : studio.Founded) (call : CacheCall Double)
    (own : ∀ files, call ≠ .change (.setFiles files)) (session : Session Double) :
    Studio.Founded { studio with store := leaves call.action studio.store, shared := session } := by
  have trims := call.trims own studio.store
  exact h.of_founded trims.folder (trims.founded h.founded) (.refl _)

/-- A folder stays founded whatever an event is made of. -/
theorem durable : Studio.Durable Studio.Founded fun _ _ _ => True where
  session studio session _ h := h.of_founded rfl h.founded (.refl _)
  scheduler studio scheduler retains h := h.of_founded rfl h.founded retains
  call call routine studio h := by
    refine h.called call (fun files same => ?_) studio.shared
    subst same
    exact routine
  remove studio path files removed h :=
    h.of_founded rfl (h.founded.of_loses (FileTree.loses_of_remove removed)) (.refl _)
  changeSettings settings := Studio.keeps_changeSettings settings fun _ h =>
    h.called (.change (.applySettings settings)) (by simp)

/-- The folder may be made, and is there then. -/
theorem prepared (h : studio.Founded) {next : CacheState Double}
    (prepares : ChunkRender.Prepares studio.store next) :
    next.disk.files.Founded next.cache.folder := by
  obtain ⟨files, rfl | made, rfl⟩ := prepares
  · exact h.founded
  · exact .inl (FileTree.isFolder_of_makeFolders made)

/-- What a job writes goes to the folder. -/
theorem resumed (h : studio.Founded) {job : RenderJob} (hjob : job ∈ studio.scheduler.active)
    {kept : ChunkRender} (hkept : job.kept? = some kept) {reply : EncoderReply}
    {next : CacheState Double} (session : Session Double)
    (wrote : ∀ content, reply.content = some content →
      ∃ files, studio.store.disk.files.write kept.outputPath content = .ok files ∧
        next = { studio.store with disk := { studio.store.disk with files } })
    (same : reply.content = none → next = studio.store) :
    Studio.Founded { studio with store := next, shared := session } := by
  cases content : reply.content with
  | none =>
    rw [same content]
    exact h.of_founded rfl h.founded (.refl _)
  | some content' =>
    obtain ⟨files, written, rfl⟩ := wrote content' content
    obtain ⟨plain, path⟩ := h.paths job hjob kept hkept
    rw [path, Cache.outputPath_eq] at written
    have up : Cache.chunkName job.index kept.contentHash ≠ ".." := Cache.chunkName_ne CacheAction.unlike_up
    exact h.of_founded rfl
      (FileTree.founded_of_write h.inside (Cache.plain_chunkName plain) up written) (.refl _)

/-- The folder stays founded in the worker's half of a step. -/
theorem reports (h : studio.Founded) {job : RenderJob} (hjob : job ∈ studio.scheduler.active) :
    Studio.Reports Studio.Founded (fun _ _ _ => True) job studio := by
  have left (session : Session Double) : Studio.Founded { studio with shared := session } :=
    h.of_founded rfl h.founded (.refl _)
  refine durable.reports h (fun due => ?_) fun kept reply answered => ?_
  · refine ((ChunkRender.begin_disk job.chunk studio.store studio.shared).and
      (ChunkRender.begin_spec job.chunk studio.store studio.shared)).mono ?_ ?_
    · rintro (kept | outcome) ⟨next, session⟩ ⟨⟨prepares, known⟩, -, step⟩
      · obtain rfl := known
        exact ⟨h.toRooted.waits job prepares.cache session, h.prepared prepares⟩
      · exact ⟨h.of_founded (congrArg Cache.folder prepares.cache) (h.prepared prepares) (.refl _),
          step.1.1⟩
    · rintro ⟨next, session⟩ ⟨prepares, -⟩
      exact h.of_founded (congrArg Cache.folder prepares.cache) (h.prepared prepares) (.refl _)
  · have hkept : job.kept? = some kept := by simp [Job.kept?, answered]
    refine (ChunkRender.resume_disk kept reply).mono ?_ ?_
    · rintro outcome ⟨next, session⟩ ⟨wrote, same, -⟩
      exact ⟨h.resumed hjob hkept session wrote same, fun _ _ _ => trivial⟩
    · rintro ⟨next, session⟩ (rfl | ⟨wrote, same⟩)
      · exact left session
      · exact h.resumed hjob hkept session wrote same

/-- Every event keeps a folder founded. -/
theorem next (h : studio.Founded) (event : SessionEvent) :
    Studio.Founded (leaves event.action studio) :=
  durable.next h event fun _ _ _ _ _ found waiting =>
    waiting.reports (List.mem_of_find?_eq_some found)

end Studio.Founded

/-- In every session the folder is founded, if it is at first. -/
theorem Ledger.Reaches.founded {first : Studio} {ledger : Ledger} (new : first.IsNew)
    (inside : first.store.cache.folder.Inside)
    (founded : first.store.disk.files.Founded first.store.cache.folder)
    (reached : Ledger.Reaches ⟨first, []⟩ ledger) : ledger.state.Founded := by
  have first : first.Founded := ⟨⟨inside, fun job hjob => absurd hjob (by simp [new.active])⟩, founded⟩
  exact Leads.keeps (fun ledger : Ledger => ledger.state.Founded) reached first
    fun _ event _ _ h => h.next event

/-! ### The jobs of a session -/

/-- No more jobs than slots, and every job that has something to do is on the agenda. -/
structure Scheduler.Rostered (slots : Nat) (scheduler : Scheduler Double ChunkRender EncoderReply) :
    Prop where
  limit : scheduler.limit = slots
  length : scheduler.active.length ≤ slots
  dated : scheduler.Dated

namespace Scheduler.Rostered

variable {slots : Nat}

theorem disciplined {studio : Studio} (order : InOrder studio.store.cache studio.scheduler)
    (h : studio.scheduler.Rostered slots) : Shift.Disciplined slots ⟨studio, []⟩ where
  staffed := ⟨order, h.limit, h.length, fun _ _ atWork => by
    obtain ⟨earlier, later, split, -⟩ := atWork
    exact absurd split (by simp)⟩
  separated earlier between later job other place split := absurd split (by simp)

theorem survives : Scheduler.Survives (Rostered slots) where
  admits := {
    idle := fun _ _ _ h => ⟨h.limit, h.length, h.dated⟩
    skip := fun _ _ _ _ _ _ h _ => ⟨h.limit, h.length, h.dated⟩
    enqueue := fun _ _ _ h => ⟨h.limit, h.length, h.dated⟩
    begin := fun entry rest scheduler cache chunk order queue room h found waits => by
      refine ⟨h.limit, ?_, Dated.admits.begin entry rest scheduler cache chunk order queue room
        h.dated found waits⟩
      have := h.limit
      simp only [Scheduler.addJob, List.length_append, List.length_singleton]
      omega }
  requeue _ _ _ h := ⟨h.limit, h.length, h.dated⟩
  events studio event order h := by
    have disciplined := h.disciplined order
    have next := disciplined.next ChunkRender.worker_leavesCache event
    refine ⟨next.staffed.slots.limit, next.staffed.slots.length, ?_⟩
    exact Workshop.dated_next h.dated disciplined.staffed ChunkRender.worker_leavesCache event

end Scheduler.Rostered

/-- In every session the jobs have slots and a place on the agenda. -/
theorem Ledger.Reaches.rostered {first : Studio} {ledger : Ledger} (new : first.IsNew)
    (reached : Ledger.Reaches ⟨first, []⟩ ledger) :
    ledger.state.Ordered (Scheduler.Rostered first.scheduler.limit) := by
  refine reached.ordered Scheduler.Rostered.survives new ⟨rfl, ?_, fun job hjob => ?_⟩
  · simp [new.active]
  · exact absurd hjob (by simp [new.active])

/-! ### While jobs stop -/

/-- Nobody calls: an answer comes, or jobs go on. -/
def SessionEvent.isOwn : SessionEvent → Bool
  | .answer _ _ | .hurry _ | .work => true
  | _ => false

/-- Whether an event is the end of a job whose place has another chunk that waits for a render. -/
def SessionEvent.readmits (event : SessionEvent) (studio : Studio) : Bool :=
  match event with
  | .work => (studio.endsNext ChunkRender.worker).any studio.supplants
  | _ => false

namespace Ledger

/-- No job ends whose place has another chunk that waits for a render. -/
def Spares : List SessionEvent → Ledger → Prop
  | [], _ => True
  | event :: rest, ledger => event.readmits ledger.state = false ∧ Spares rest (ledger.next event)

/-- All jobs are told to stop, and then other things happen. -/
def stopped (before : Ledger) (pause : List SessionEvent) : Ledger :=
  pause.foldl next (before.next .stopAll)

/-- All jobs were told to stop, and those who waited for their ends go on. -/
def resumed (before : Ledger) (pause : List SessionEvent) : Ledger :=
  (before.stopped pause).next .finishCancel

/-- Nobody calls before all jobs have ended, and then what was rendered is deleted. -/
structure Clears (before : Ledger) (pause : List SessionEvent) : Prop where
  own : ∀ event ∈ pause, event.isOwn = true
  ended : ∀ job ∈ before.state.scheduler.active,
    WorkshopAction.hasEnded (before.stopped pause).state.scheduler job.id = true
  wiped : succeeds SessionEvent.wipe.action (before.resumed pause).state = true

/-- While jobs stop and no chunk waits for their places, no chunk changes. -/
theorem halts_foldl {asked : List Nat} {pause : List SessionEvent} {ledger : Ledger}
    (own : ∀ event ∈ pause, event.isOwn = true) (halts : ledger.state.scheduler.Halts asked)
    (spares : ledger.Spares pause) :
    let back := pause.foldl next ledger
    back.state.scheduler.Halts asked ∧ back.state.store.cache = ledger.state.store.cache := by
  induction pause generalizing ledger with
  | nil => exact ⟨halts, rfl⟩
  | cons event rest ih =>
    obtain ⟨unclaimed, spares⟩ := spares
    have step : (ledger.next event).state.scheduler.Halts asked ∧
        (ledger.next event).state.store.cache = ledger.state.store.cache := by
      have shop (event : ShopEvent Double EncoderReply) (silent : event.isCall = false)
          (plain : event.isEdit = false)
          (unclaimed : event.readmits ChunkRender.worker ledger.state = false) :
          (leaves (event.action ChunkRender.worker) ledger.state).scheduler.Halts asked ∧
            (leaves (event.action ChunkRender.worker) ledger.state).store.cache =
              ledger.state.store.cache :=
        (halts.next silent unclaimed).imp_right fun same => same plain
      cases event with
      | answer id reply =>
        rw [Annals.next_state, SessionEvent.answer_eq]
        exact shop (.answer id reply) rfl rfl rfl
      | hurry place => exact shop (.hurry place) rfl rfl rfl
      | work => exact shop .work rfl rfl unclaimed
      | _ => exact absurd (own _ List.mem_cons_self) Bool.false_ne_true
    obtain ⟨halts', cache⟩ := ih (fun event hevent => own event (List.mem_cons_of_mem _ hevent))
      step.1 spares
    exact ⟨halts', cache.trans step.2⟩

end Ledger

/-! ### Clearing -/

/-- Nothing is left of what was rendered, and nothing is to be rendered but all. -/
structure Studio.IsCleared (studio : Studio) : Prop where
  chunks : ∀ chunk ∈ studio.store.cache.chunks, chunk.status = .missing ∧
    chunk.contentHash = none ∧ chunk.outputPath = none ∧ chunk.error = none
  files : ∀ name, ¬ studio.store.disk.files.ChunkFile studio.store.cache.folder name
  queue : studio.scheduler.queue = []
  active : studio.scheduler.active = []
  waiting : studio.store.cache.waitingChunks = studio.store.cache.chunks

/-- A chunk that is reset is blank, unless it is being rendered. -/
theorem Cache.reset_blank {chunk : Chunk Double} (idle : chunk.status ≠ .rendering) :
    (reset chunk).status = .missing ∧ (reset chunk).contentHash = none ∧
      (reset chunk).outputPath = none ∧ (reset chunk).error = none := by
  unfold reset
  rw [if_neg idle]
  exact ⟨rfl, rfl, rfl, rfl⟩

/-- A chunk that is being rendered stays so when it is reset. -/
theorem Cache.status_reset {chunk : Chunk Double} (busy : chunk.status = .rendering) :
    (reset chunk).status = .rendering := by
  unfold reset
  rw [if_pos busy]
  exact busy

namespace Studio.Founded

variable {studio : Studio}

/-- A wipe that goes through resets the chunks, leaves no file of a chunk, and leaves the jobs alone. -/
theorem wiped (h : studio.Founded) (wiped : succeeds SessionEvent.wipe.action studio = true) :
    let next := leaves SessionEvent.wipe.action studio
    next.store.cache = { studio.store.cache with chunks := studio.store.cache.chunks.map Cache.reset } ∧
      (∀ name, ¬ next.store.disk.files.ChunkFile next.store.cache.folder name) ∧
      next.scheduler = studio.scheduler := by
  intro next
  have same : next.scheduler = studio.scheduler := WorkshopAction.scheduler_onCache _ _
  have clears : Ensures SessionEvent.wipe.action studio
      (fun _ next => next.store.cache =
          { studio.store.cache with chunks := studio.store.cache.chunks.map Cache.reset } ∧
        ∀ name, ¬ next.store.disk.files.ChunkFile studio.store.cache.folder name)
      (fun _ => True) := by
    unfold SessionEvent.action
    rw [WorkshopAction.ensures_onCache]
    exact CacheAction.wipe_clears h.inside h.founded
  rcases clears.ends with ⟨-, cache, none⟩ | ⟨failed, -⟩
  · have folder : next.store.cache.folder = studio.store.cache.folder := by rw [cache]
    exact ⟨cache, folder ▸ none, same⟩
  · exact absurd (failed.symm.trans wiped) Bool.false_ne_true

/-- A wipe leaves nothing behind exactly if nothing waits, no job is left and no chunk is being
rendered. -/
theorem isCleared_iff (h : studio.Founded) (wiped : succeeds SessionEvent.wipe.action studio = true) :
    Studio.IsCleared (leaves SessionEvent.wipe.action studio) ↔
      studio.scheduler.queue = [] ∧ studio.scheduler.active = [] ∧
        ∀ chunk ∈ studio.store.cache.chunks, chunk.status ≠ .rendering := by
  obtain ⟨cache, none, same⟩ := h.wiped wiped
  constructor
  · intro cleared
    refine ⟨same ▸ cleared.queue, same ▸ cleared.active, fun chunk hchunk busy => ?_⟩
    have blank := cleared.chunks
    rw [cache] at blank
    obtain ⟨missing, -⟩ := blank _ (List.mem_map_of_mem hchunk)
    exact absurd ((Cache.status_reset busy).symm.trans missing) (by decide)
  · rintro ⟨queue, active, idle⟩
    have blank : ∀ chunk ∈ (leaves SessionEvent.wipe.action studio).store.cache.chunks,
        chunk.status = .missing ∧ chunk.contentHash = .none ∧ chunk.outputPath = .none ∧
          chunk.error = .none := by
      rw [cache]
      exact List.forall_mem_map.mpr fun chunk hchunk => Cache.reset_blank (idle chunk hchunk)
    refine ⟨blank, none, same ▸ queue, same ▸ active, ?_⟩
    refine List.filter_eq_self.mpr fun chunk hchunk => ?_
    rw [(blank chunk hchunk).1]
    rfl

end Studio.Founded

namespace Ledger

/-- Jobs that work one after the other. -/
theorem studio_works (count : Nat) (ledger : Ledger) (diary : List WorkerNote) :
    ((List.replicate count SessionEvent.work).foldl next ledger).state =
      (Shift.working ChunkRender.worker count ⟨ledger.state, diary⟩).state := by
  induction count generalizing ledger diary with
  | zero => rfl
  | succ count ih => exact ih (ledger.next .work) _

namespace Reaches

variable {first : Studio} {before : Ledger}

theorem stopped (reached : Ledger.Reaches ⟨first, []⟩ before) (pause : List SessionEvent) :
    Ledger.Reaches ⟨first, []⟩ (before.stopped pause) :=
  (reached.tail ⟨.stopAll, trivial, rfl⟩).trans (Leads.any pause _)

theorem resumed (reached : Ledger.Reaches ⟨first, []⟩ before) (pause : List SessionEvent) :
    Ledger.Reaches ⟨first, []⟩ (before.resumed pause) :=
  (reached.stopped pause).tail ⟨.finishCancel, trivial, rfl⟩

/-- All jobs come to their ends, and then what was rendered is deleted. -/
theorem clear_eq (new : first.IsNew) (reached : Ledger.Reaches ⟨first, []⟩ before) {fuel : Nat}
    (enough : before.state.scheduler.agenda.length + before.state.scheduler.active.length ≤ fuel) :
    ∃ pause, (∀ event ∈ pause, event.isOwn = true) ∧
      (∀ job ∈ before.state.scheduler.active,
        WorkshopAction.hasEnded (before.stopped pause).state.scheduler job.id = true) ∧
      SessionAction.clear fuel before.state =
        SessionEvent.wipe.action (before.resumed pause).state := by
  have rostered := reached.rostered new
  obtain ⟨count, returned, ended⟩ := WorkshopAction.stopAll_returns ChunkRender.worker_leavesCache
    (rostered.holds.disciplined rostered.order) rostered.holds.dated enough
  have same := studio_works count (before.next .stopAll) []
  refine ⟨List.replicate count .work, fun event hevent => ?_, fun job hjob => ?_, ?_⟩
  · rw [List.eq_of_mem_replicate hevent]
    rfl
  · have alike := congrArg (fun studio => WorkshopAction.hasEnded studio.scheduler job.id) same
    exact alike.trans (ended job hjob)
  · have resumed : (before.resumed (List.replicate count .work)).state = _ :=
      congrArg (leaves WorkshopAction.finishCancel) same
    rw [resumed]
    exact bind_of_ok returned

/-- If no job ends whose place another chunk waits for, nothing waits and no job is left when those who
waited go on, and no chunk has changed. -/
theorem resumes (new : first.IsNew) (reached : Ledger.Reaches ⟨first, []⟩ before)
    {pause : List SessionEvent} (own : ∀ event ∈ pause, event.isOwn = true)
    (ended : ∀ job ∈ before.state.scheduler.active,
      WorkshopAction.hasEnded (before.stopped pause).state.scheduler job.id = true)
    (spares : (before.next .stopAll).Spares pause) :
    (before.resumed pause).state.scheduler.queue = [] ∧
      (before.resumed pause).state.scheduler.active = [] ∧
      (before.resumed pause).state.store.cache = before.state.store.cache := by
  have halts : (before.next .stopAll).state.scheduler.Halts
      (before.state.scheduler.active.map (·.id)) := .stopJobs before.state.scheduler
  obtain ⟨halted, cache⟩ := halts_foldl own halts spares
  have order := ((reached.stopped pause).gaveUp new.gaveUp).order
  have finished : (before.resumed pause).state.scheduler.IsOver := by
    refine halted.isOver order.jobs (List.all_eq_true.mpr fun id known => ?_)
    obtain ⟨job, hjob, rfl⟩ := List.mem_map.mp known
    exact ended job hjob
  have nobody : ShopEvent.readmits ChunkRender.worker .finishCancel (before.stopped pause).state = false :=
    rfl
  have same : (before.resumed pause).state.store.cache = (before.stopped pause).state.store.cache :=
    (halted.next rfl nobody).2 rfl
  exact ⟨finished.queue, finished.active, same.trans cache⟩

/-- A preview is cleared: all jobs are told to stop, nobody calls before they have ended, and what was
rendered is deleted. No file of a chunk is left then. Nothing else is left exactly if nothing waits, no
job is left and no chunk is being rendered when the files are deleted; and unless a job ends whose place
another chunk waits for, that is so exactly if no chunk was being rendered before. The jobs do end. -/
theorem clears (new : first.IsNew) (inside : first.store.cache.folder.Inside)
    (founded : first.store.disk.files.Founded first.store.cache.folder)
    (reached : Ledger.Reaches ⟨first, []⟩ before) :
    (∀ pause, before.Clears pause →
      let resumed := (before.resumed pause).state
      let after := ((before.resumed pause).next .wipe).state
      (∀ name, ¬ after.store.disk.files.ChunkFile after.store.cache.folder name) ∧
      (after.IsCleared ↔ resumed.scheduler.queue = [] ∧ resumed.scheduler.active = [] ∧
        ∀ chunk ∈ resumed.store.cache.chunks, chunk.status ≠ .rendering) ∧
      ((before.next .stopAll).Spares pause →
        (after.IsCleared ↔ ∀ chunk ∈ before.state.store.cache.chunks, chunk.status ≠ .rendering))) ∧
    ∀ fuel, before.state.scheduler.agenda.length + before.state.scheduler.active.length ≤ fuel →
      ∃ pause, (∀ event ∈ pause, event.isOwn = true) ∧
        (∀ job ∈ before.state.scheduler.active,
          WorkshopAction.hasEnded (before.stopped pause).state.scheduler job.id = true) ∧
        SessionAction.clear fuel before.state =
          SessionEvent.wipe.action (before.resumed pause).state := by
  refine ⟨fun pause clears => ?_, fun fuel enough => reached.clear_eq new enough⟩
  intro resumed after
  have house : resumed.Founded := (reached.resumed pause).founded new inside founded
  have wiped : succeeds SessionEvent.wipe.action resumed = true := clears.wiped
  have cleared := house.isCleared_iff wiped
  obtain ⟨-, none, -⟩ := house.wiped wiped
  rw [show after = leaves SessionEvent.wipe.action resumed from Annals.next_state ..]
  refine ⟨none, cleared, fun spares => cleared.trans ?_⟩
  obtain ⟨queue, active, same⟩ := reached.resumes new clears.own clears.ended spares
  have idle : (∀ chunk ∈ resumed.store.cache.chunks, chunk.status ≠ .rendering) ↔
      ∀ chunk ∈ before.state.store.cache.chunks, chunk.status ≠ .rendering := by
    unfold resumed
    rw [same]
  exact ⟨fun h => idle.mp h.2.2, fun h => ⟨queue, active, idle.mpr h⟩⟩

end Reaches

end Ledger

/-! ### A clip that is cleared -/

namespace OneClip

theorem founded_opened : opened.store.disk.files.Founded opened.store.cache.folder :=
  .inr fun name content there => absurd there (by simp [FileTree.node?, opened])

/-- The encoder does what it was asked for, and the job ends. -/
def finishing : List SessionEvent := rendering.drop 2

/-- No chunk of the clip is being rendered. -/
def isResting (studio : Studio) : Bool :=
  studio.store.cache.chunks.all fun chunk => chunk.status ≠ .rendering

end OneClip

/-- A clip that was rendered can be cleared. -/
theorem rendered_clip_is_cleared :
    ∃ before, Ledger.Reaches ⟨OneClip.opened, []⟩ before ∧ before.Clears [] ∧
      before.state.store.cache.chunks ≠ [] ∧
      ((before.resumed []).next .wipe).state.IsCleared := by
  let before := OneClip.ledger OneClip.finishing
  have reached : Ledger.Reaches ⟨OneClip.opened, []⟩ before := OneClip.reaches_ledger _
  have found : (before.state.scheduler.active.isEmpty && OneClip.isResting before.state &&
      !before.state.store.cache.chunks.isEmpty &&
      succeeds SessionEvent.wipe.action (before.resumed []).state) = true := by decide +kernel
  simp only [OneClip.isResting, Bool.and_eq_true, List.isEmpty_iff, List.all_eq_true,
    decide_eq_true_eq, Bool.not_eq_true', List.isEmpty_eq_false_iff] at found
  obtain ⟨⟨⟨active, resting⟩, some⟩, wiped⟩ := found
  have clears : before.Clears [] :=
    ⟨List.forall_mem_nil _, by rw [active]; exact List.forall_mem_nil _, wiped⟩
  obtain ⟨cleared, -⟩ := reached.clears OneClip.opened_isNew OneClip.inside_opened OneClip.founded_opened
  exact ⟨before, reached, clears, some, ((cleared [] clears).2.2 trivial).mpr resting⟩

/-- When a preview is cleared while a clip is being rendered, all goes through, and the chunk stays as one
that renders though no job is left; it is not among the chunks that wait for a render. -/
theorem exists_left_uncleared :
    ∃ before after chunk, Ledger.Reaches ⟨OneClip.opened, []⟩ before ∧
      succeeds (SessionAction.clear 4) before.state = true ∧
      after = leaves (SessionAction.clear 4) before.state ∧
      after.scheduler.queue = [] ∧ after.scheduler.active = [] ∧
      chunk ∈ after.store.cache.chunks ∧ chunk.status = .rendering ∧
      after.store.cache.waitingChunks = [] := by
  let before := OneClip.ledger []
  let after := leaves (SessionAction.clear 4) before.state
  have left : (succeeds (SessionAction.clear 4) before.state && OneClip.isIdle after &&
      after.store.cache.waitingChunks.isEmpty &&
      after.store.cache.chunks.any fun chunk => chunk.status = .rendering) = true := by decide +kernel
  simp only [OneClip.isIdle, Bool.and_eq_true, List.isEmpty_iff, List.any_eq_true,
    decide_eq_true_eq] at left
  obtain ⟨⟨⟨through, queue, active⟩, none⟩, chunk, hchunk, busy⟩ := left
  exact ⟨before, after, chunk, OneClip.reaches_ledger _, through, rfl, queue, active, hchunk, busy, none⟩

end Montage
