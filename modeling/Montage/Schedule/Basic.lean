import Montage.Chunk.Cache
import Montage.Schedule.Queue

/-!
Renders of chunks, so many at a time. A job renders a chunk: it is due, its worker begins and
then waits, it is answered or told to stop, and it comes to its end. Whatever becomes due is done
in the order in which it became due. What a job has rendered is recorded, its slot is given to the
next chunk, and a chunk that was invalidated meanwhile is queued again, all in one step.
-/

namespace Montage

/-- What a worker has made of a chunk. -/
structure RenderOutcome where
  success : Bool := false
  outputPath : Option String := none
  contentHash : Option String := none
  isComplex : Option Bool := none
  error : Option String := none
  cancelled : Bool := false

/-- Where a job stands. `ω` is what a worker that waits keeps, `ρ` what it waits for. -/
inductive JobPhase (ω ρ : Type) where
  /-- The worker is to begin, unless the job was told to stop. -/
  | due (stop : Bool)
  | waiting (kept : ω)
  /-- The worker is to go on with an answer. -/
  | answered (kept : ω) (answer : ρ)
  /-- The worker is to give up. -/
  | stopping (kept : ω)
  /-- The job was stopped before its worker began. -/
  | ended

structure Job (τ ω ρ : Type) where
  id : Nat
  /-- The chunk as it was when the job was made. -/
  chunk : Chunk τ
  phase : JobPhase ω ρ := .due false

namespace Job

variable {τ ω ρ : Type}

def index (job : Job τ ω ρ) : Nat := job.chunk.index

def isWaiting (job : Job τ ω ρ) : Bool :=
  match job.phase with
  | .waiting _ => true
  | _ => false

def isEnded (job : Job τ ω ρ) : Bool :=
  match job.phase with
  | .ended => true
  | _ => false

/-- A job that is told to stop, and whether that is a new thing for it to do. -/
def stop (job : Job τ ω ρ) : Job τ ω ρ × Bool :=
  match job.phase with
  | .due _ => ({ job with phase := .due true }, false)
  | .waiting kept => ({ job with phase := .stopping kept }, true)
  | .answered kept _ => ({ job with phase := .stopping kept }, false)
  | .stopping _ | .ended => (job, false)

end Job

structure Scheduler (τ ω ρ : Type) where
  /-- How many jobs there may be at a time. -/
  limit : Nat
  queue : RenderQueue := []
  /-- The jobs that have a slot, in the order in which they got it. -/
  active : List (Job τ ω ρ) := []
  /-- The jobs that have something to do, in the order in which it became due. -/
  agenda : List Nat := []
  nextJob : Nat := 0
  /-- Whether those who wait for the end of all work may go on. -/
  idle : Bool := true

namespace Scheduler

variable {τ ω ρ : Type}

/-- A scheduler; without a limit of its own it has the configured one. -/
def create (config : Config) (limit : Option Int) : Except Failure (Scheduler τ ω ρ) :=
  let limit := (limit.filter (· ≠ 0)).getD config.maxConcurrent
  if limit < 1 then .error .concurrency else .ok { limit := limit.toNat }

def hasJob (scheduler : Scheduler τ ω ρ) (index : Int) : Bool :=
  scheduler.active.any fun job => (job.index : Int) = index

def job? (scheduler : Scheduler τ ω ρ) (id : Nat) : Option (Job τ ω ρ) :=
  scheduler.active.find? (·.id = id)

/-- The scheduler with a job changed. -/
def putJob (scheduler : Scheduler τ ω ρ) (job : Job τ ω ρ) : Scheduler τ ω ρ :=
  { scheduler with
    active := scheduler.active.map fun other => if other.id = job.id then job else other }

/-- The scheduler without a job. -/
def dropJob (scheduler : Scheduler τ ω ρ) (id : Nat) : Scheduler τ ω ρ :=
  { scheduler with active := scheduler.active.filter (·.id ≠ id) }

/-- The scheduler with a new job for a chunk. -/
def addJob (scheduler : Scheduler τ ω ρ) (chunk : Chunk τ) : Scheduler τ ω ρ :=
  { scheduler with
    active := scheduler.active ++ [{ id := scheduler.nextJob, chunk }]
    agenda := scheduler.agenda ++ [scheduler.nextJob]
    nextJob := scheduler.nextJob + 1 }

/-- Slots for the first entries of a queue. Chunks that are valid or not in the partition need
none. -/
def fill [Scalar τ] :
    RenderQueue → Scheduler τ ω ρ → Cache τ → Scheduler τ ω ρ × Cache τ
  | [], scheduler, cache => ({ scheduler with queue := [] }, cache)
  | entry :: rest, scheduler, cache =>
    if scheduler.limit ≤ scheduler.active.length then
      ({ scheduler with queue := entry :: rest }, cache)
    else
      match cache.get entry.index with
      | .error _ => fill rest scheduler cache
      | .ok chunk =>
        if chunk.status = .valid then fill rest scheduler cache
        else fill rest (scheduler.addJob chunk) (cache.put (Cache.beginRender chunk))

/-- Gives away the free slots. With nothing queued and no job, all work is at its end. -/
def pump [Scalar τ] (scheduler : Scheduler τ ω ρ) (cache : Cache τ) :
    Scheduler τ ω ρ × Cache τ :=
  let (scheduler, cache) := fill scheduler.queue scheduler cache
  ({ scheduler with
      idle := scheduler.idle || (scheduler.queue.isEmpty && scheduler.active.isEmpty) },
    cache)

/-- The first job of those that wait and meet a condition gets an answer. -/
def answer? (scheduler : Scheduler τ ω ρ) (meets : Job τ ω ρ → Bool) (answer : ρ) :
    Option (Scheduler τ ω ρ) := do
  let job ← scheduler.active.find? fun job => job.isWaiting && meets job
  match job.phase with
  | .waiting kept =>
    return {
      scheduler.putJob { job with phase := .answered kept answer } with
      agenda := scheduler.agenda ++ [job.id] }
  | _ => none

/-- A job is told to stop. -/
def stopJob (scheduler : Scheduler τ ω ρ) (job : Job τ ω ρ) : Scheduler τ ω ρ :=
  let (stopped, isNew) := job.stop
  { scheduler.putJob stopped with
    agenda := scheduler.agenda ++ (if isNew then [job.id] else []) }

/-- All jobs are told to stop. -/
def stopJobs (scheduler : Scheduler τ ω ρ) : Scheduler τ ω ρ :=
  { scheduler with
    active := scheduler.active.map (·.stop.1)
    agenda := scheduler.agenda ++ (scheduler.active.filter (·.stop.2)).map (·.id) }

/-- The scheduler without the jobs that ended before they began. -/
def forgetEnded (scheduler : Scheduler τ ω ρ) : Scheduler τ ω ρ :=
  { scheduler with active := scheduler.active.filter (!·.isEnded) }

end Scheduler

/-- A cache whose chunks are rendered. `κ` is what the workers share. -/
structure Workshop (τ κ ω ρ : Type) where
  store : CacheState τ
  scheduler : Scheduler τ ω ρ
  shared : κ

/-- What a worker does, on the cache and on what the workers share. -/
abbrev WorkerAction (τ κ α : Type) := EStateM Failure (CacheState τ × κ) α

/-- Where the first step of a worker leads. -/
inductive WorkerStep (ω : Type) where
  | waits (kept : ω)
  | ends (outcome : RenderOutcome)

/-- How chunks are rendered. -/
structure Worker (τ κ ω ρ : Type) where
  begin : Chunk τ → WorkerAction τ κ (WorkerStep ω)
  /-- Goes on with an answer. -/
  resume : Chunk τ → ω → ρ → WorkerAction τ κ RenderOutcome
  /-- Gives up. -/
  abandon : Chunk τ → ω → κ → κ := fun _ _ shared => shared
  /-- Is told of every chunk whose job has come to its end. -/
  notify : Chunk τ → κ → κ := fun _ shared => shared
  /-- What it says if being told of a chunk goes wrong. -/
  complain : Chunk τ → κ → Option String := fun _ _ => none

/-- What is done in a workshop. -/
abbrev WorkshopAction (τ κ ω ρ α : Type) := EStateM Failure (Workshop τ κ ω ρ) α

namespace WorkshopAction

variable {τ κ ω ρ : Type} {α : Type}

/-- An action on the cache. -/
def onCache (action : CacheAction τ α) : WorkshopAction τ κ ω ρ α := fun shop =>
  match action shop.store with
  | .ok a store => .ok a { shop with store }
  | .error failure store => .error failure { shop with store }

/-- An action of a worker. -/
def onWorker (action : WorkerAction τ κ α) : WorkshopAction τ κ ω ρ α := fun shop =>
  match action (shop.store, shop.shared) with
  | .ok a (store, shared) => .ok a { shop with store, shared }
  | .error failure (store, shared) => .error failure { shop with store, shared }

def scheduler : WorkshopAction τ κ ω ρ (Scheduler τ ω ρ) := return (← get).scheduler

def setScheduler (scheduler : Scheduler τ ω ρ) : WorkshopAction τ κ ω ρ Unit :=
  modify fun shop => { shop with scheduler }

variable [Scalar τ]

/-- Gives away the free slots. -/
def pump : WorkshopAction τ κ ω ρ Unit := do
  let shop ← get
  let (scheduler, cache) := shop.scheduler.pump shop.store.cache
  set { shop with scheduler, store := { shop.store with cache } }

/-- Admits a chunk to the queue, unless it is there or has a job. -/
def queue (index : Int) (urgency : Urgency := .normal) : WorkshopAction τ κ ω ρ Bool := do
  let scheduler ← scheduler
  if scheduler.hasJob index || (scheduler.queue.entryOf? index).isSome then return false
  setScheduler { scheduler with queue := scheduler.queue.enqueue ⟨index, urgency⟩, idle := false }
  pump
  return true

/-- Admits chunks one after the other, and gives those that were admitted. -/
def queueEach (indices : List Int) (urgency : Urgency) : WorkshopAction τ κ ω ρ (List Int) :=
  indices.filterM fun index => queue index urgency

/-- Admits a chunk that is queued anew, with another urgency. -/
def setUrgency (index : Int) (urgency : Urgency) : WorkshopAction τ κ ω ρ Bool := do
  let scheduler ← scheduler
  match scheduler.queue.entryOf? index with
  | none => return false
  | some entry =>
    -- An entry that is urgent enough keeps its place among its equals.
    if entry.urgency = urgency then return false
    setScheduler { scheduler with queue := scheduler.queue.drop index, idle := false }
    queue index urgency

/-! ### Ends of jobs -/

/-- Removes the file that a worker has written. -/
def removeOutput (outcome : RenderOutcome) : WorkshopAction τ κ ω ρ Unit := do
  if let some path := outcome.outputPath.filter (· ≠ "") then
    match (← get).store.disk.files.remove (Path.ofText path).text with
    | .ok files => onCache (CacheAction.setFiles files)
    | .error cause => throw (.file cause)

/-- Admits the chunk of a place, if there is one and it waits for a render. -/
def queueNew (current : Option (Chunk τ)) : WorkshopAction τ κ ω ρ Unit := do
  if let some chunk := current then
    if chunk.status.needsRender then
      let _ ← queue chunk.index

/-- A chunk was dropped while it was rendered: its file is removed, and the chunk that has its
place now is queued. -/
def discard (outcome : RenderOutcome) (current : Option (Chunk τ)) :
    WorkshopAction τ κ ω ρ Unit := do
  removeOutput outcome
  queueNew current

/-- What became of a chunk is recorded. -/
def record (index : Nat) (outcome : RenderOutcome) : WorkshopAction τ κ ω ρ Unit := do
  if outcome.cancelled then return
  match outcome.success, outcome.outputPath.filter (· ≠ "") with
  | true, some path => do
    let chunk ← onCache (CacheAction.finishRender index path outcome.contentHash outcome.isComplex)
    if chunk.status = .stale then
      let _ ← queue index
  | _, _ => do
    let message := (outcome.error.filter (· ≠ "")).getD "Render failed"
    let _ ← onCache (CacheAction.failRender index message outcome.contentHash)

/-- Tells of a chunk whose job has come to its end. -/
def tell (worker : Worker τ κ ω ρ) (chunk : Chunk τ) : WorkshopAction τ κ ω ρ Unit := do
  let complaint := worker.complain chunk (← get).shared
  modify fun shop => { shop with shared := worker.notify chunk shop.shared }
  if let some message := complaint then throw (.told message)

/-- What a job did is recorded, or discarded if its chunk was dropped meanwhile, and its slot is
given away. -/
def conclude (worker : Worker τ κ ω ρ) (job : Job τ ω ρ) (outcome : RenderOutcome) :
    WorkshopAction τ κ ω ρ Unit := do
  -- A chunk that was cut anew has another serial number, even at the same place.
  let current := ((← get).store.cache.get job.index).toOption
  if (current.map (·.serial)) = some job.chunk.serial then
    record job.index outcome
    if let .ok chunk := (← get).store.cache.get job.index then tell worker chunk
  else discard outcome current
  pump

/-- The end of a job. -/
def complete (worker : Worker τ κ ω ρ) (job : Job τ ω ρ) (outcome : RenderOutcome) :
    WorkshopAction τ κ ω ρ Unit := do
  -- The slot is free before anything is recorded, so that a failure cannot keep it.
  setScheduler ((← scheduler).dropJob job.id)
  conclude worker job outcome

/-- What a worker that broke down has made of a chunk. -/
def broken (failure : Failure) : RenderOutcome := { error := some failure.text }

/-- A job does what is due. A failure to record what it did is lost with the job. -/
def runJob (worker : Worker τ κ ω ρ) (job : Job τ ω ρ) : WorkshopAction τ κ ω ρ Unit := do
  let finish (outcome : RenderOutcome) : WorkshopAction τ κ ω ρ Unit :=
    try complete worker job outcome catch _ => pure ()
  match job.phase with
  | .due true => setScheduler ((← scheduler).putJob { job with phase := .ended })
  | .due false =>
    let step ← try onWorker (worker.begin job.chunk) catch failure =>
      pure (WorkerStep.ends (broken failure))
    match step with
    | .waits kept => setScheduler ((← scheduler).putJob { job with phase := .waiting kept })
    | .ends outcome => finish outcome
  | .answered kept answer =>
    let outcome ← try onWorker (worker.resume job.chunk kept answer) catch failure =>
      pure (broken failure)
    finish outcome
  | .stopping kept =>
    modify fun shop => { shop with shared := worker.abandon job.chunk kept shop.shared }
    finish { cancelled := true }
  | .waiting _ | .ended => return

/-- Does what has been due for longest, if anything is due. -/
def runNext (worker : Worker τ κ ω ρ) : WorkshopAction τ κ ω ρ Unit := do
  let scheduler ← scheduler
  match scheduler.agenda with
  | [] => return
  | id :: rest =>
    setScheduler { scheduler with agenda := rest }
    if let some job := scheduler.job? id then runJob worker job

/-! ### Cancellation -/

/-- Where a request to cancel leads: to an answer at once, or to jobs whose end is awaited. -/
inductive CancelStep where
  | answers (found : Bool)
  | awaits (jobs : List Nat)

/-- Takes a chunk off the queue, or tells its job to stop. -/
def requestCancel (index : Int) : WorkshopAction τ κ ω ρ CancelStep := do
  let scheduler ← scheduler
  if (scheduler.queue.entryOf? index).isSome then
    setScheduler { scheduler with queue := scheduler.queue.drop index }
    pump
    return .answers true
  match scheduler.active.find? fun job => (job.index : Int) = index with
  | none => return .answers false
  | some job =>
    setScheduler (scheduler.stopJob job)
    return .awaits [job.id]

/-- Empties the queue and tells all jobs to stop, whose end is then awaited. -/
def requestStopAll : WorkshopAction τ κ ω ρ (List Nat) := do
  let scheduler ← scheduler
  setScheduler { scheduler.stopJobs with queue := [] }
  return scheduler.active.map (·.id)

/-- The jobs that were awaited have ended. -/
def finishCancel : WorkshopAction τ κ ω ρ Unit := do
  setScheduler (← scheduler).forgetEnded
  pump

/-- Whether a job has come to its end. -/
def hasEnded (scheduler : Scheduler τ ω ρ) (id : Nat) : Bool :=
  match scheduler.job? id with
  | none => true
  | some job => job.isEnded

end WorkshopAction

end Montage
