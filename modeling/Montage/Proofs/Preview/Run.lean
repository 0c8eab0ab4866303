import Mathlib.Logic.Function.Basic
import Montage.Preview.Session
import Montage.Proofs.Action

/-!
# Runs of an editing session

A session changes by events: calls from outside, answers of the encoder, and steps of jobs. `Run`
holds of what a session can become by events in any order. A chronicle goes along with it and keeps
what a state forgets: in which session a job began, and how things stood when it went on.

## Main definitions

* `SessionEvent` — what can happen, each with its action on the session
* `Chronicle` — which calls failed, when jobs began, and when they went on
* `Run` — the states that a session reaches, with their chronicles
* `Steady` — a state in which asking whether a proxy exists gives the answers that it always gave
-/

namespace Montage

/-- An editing session with its cache and its jobs. -/
abbrev Studio := Workshop Double (Session Double) ChunkRender EncoderReply

namespace Studio

/-- The hash of what a chunk is to show now. -/
def hashOf (studio : Studio) (chunk : Chunk Double) : String :=
  studio.shared.hashOf studio.store.disk.files chunk

/-- A session before its first call. -/
structure IsNew (studio : Studio) : Prop where
  media : studio.shared.media = []
  chunks : studio.store.cache.chunks = []
  queue : studio.scheduler.queue = []
  active : studio.scheduler.active = []
  inFlight : studio.shared.inFlight = []
  settings : studio.store.cache.settings = studio.shared.settings

end Studio

/-! ### Events -/

inductive SessionEvent where
  | openProject (timeline : Timeline Double) (media : MediaLibrary) (path : Option String)
      (time : Option Double)
  | update (timeline : Timeline Double) (media : Option MediaLibrary)
      (settings : Option (OutputFormat Double))
  | invalidate (start stop : Double)
  | prioritize (t : Double) (radius : Option Int)
  /-- A chunk is taken off the queue, or its job is told to stop. -/
  | cancel (index : Int)
  /-- The queue is emptied, and all jobs are told to stop. -/
  | stopAll
  /-- Those who waited for jobs to stop go on. -/
  | finishCancel
  /-- All files of chunks are deleted. -/
  | wipe
  /-- The encoder that a job waits for has ended. -/
  | answer (job : Nat) (reply : EncoderReply)
  /-- Something that is due gets ahead of all else. -/
  | hurry (place : Nat)
  /-- What is due first is done. -/
  | work

namespace SessionEvent

open WorkshopAction SessionAction in
/-- What an event does. -/
def action : SessionEvent → SessionAction Double Unit
  | .openProject timeline media path time => SessionAction.openProject timeline media path time
  | .update timeline media settings => do let _ ← SessionAction.update timeline media settings
  | .invalidate start stop => do let _ ← SessionAction.invalidate start stop
  | .prioritize t radius => do let _ ← prioritizeNear t radius
  | .cancel index => do let _ ← requestCancel index
  | .stopAll => do let _ ← requestStopAll
  | .finishCancel => WorkshopAction.finishCancel
  | .wipe => onCache CacheAction.wipe
  | .answer id reply => do
    if let some answered := (← scheduler).answer? (·.id = id) reply then setScheduler answered
  | .hurry place => do
    let scheduler ← scheduler
    setScheduler { scheduler with
      agenda := scheduler.agenda[place]?.toList ++ scheduler.agenda.eraseIdx place }
  | .work => runNext ChunkRender.worker

end SessionEvent

/-! ### What a run leaves in memory -/

/-- How things stand when a job begins. -/
structure Moment where
  session : Session Double
  files : FileTree
  /-- How often the output was changed before. -/
  changes : Nat

/-- How things stand when a job goes on. -/
structure Note where
  /-- How things stood when the job began. -/
  start : Option Moment
  calls : Nat
  changes : Nat
  /-- The hash of what the chunk of the job is to show. -/
  hash : String

structure Chronicle where
  /-- The number of calls that came back and left chunks to be queued. -/
  calls : Nat := 0
  /-- How often the output was changed. -/
  changes : Nat := 0
  /-- Whether the last call that was to show another timeline failed. -/
  behind : Bool := false
  /-- Whether settings were not taken in. -/
  unsettled : Bool := false
  /-- When each job began. -/
  starts : Nat → Option Moment := fun _ => none
  /-- When a job last went on that renders the chunk of a serial number. -/
  notes : Nat → Option Note := fun _ => none

namespace Chronicle

/-- A job goes on, and has begun if it was due to. -/
def step (log : Chronicle) (studio : Studio) (job : Job Double ChunkRender EncoderReply) :
    Chronicle :=
  let noted (starts : Nat → Option Moment) : Chronicle :=
    { log with
      starts
      notes := Function.update log.notes job.chunk.serial (some {
        start := starts job.id, calls := log.calls, changes := log.changes
        hash := studio.hashOf job.chunk }) }
  match job.phase with
  | .due false =>
    noted (Function.update log.starts job.id
      (some ⟨studio.shared, studio.store.disk.files, log.changes⟩))
  | .answered _ _ => noted log.starts
  | _ => log

/-- Whether the settings that a call brings are taken in, and not only half of what was rendered for
others invalidated. -/
def takesIn (studio : Studio) (settings : Option (OutputFormat Double)) : Bool :=
  settings.all fun settings => succeeds (CacheAction.applySettings settings) studio.store

/-- Whether a call brings settings that make a difference. -/
def differ (studio : Studio) (settings : Option (OutputFormat Double)) : Bool :=
  settings.any fun settings => !studio.shared.settings.sameOutput settings

/-- The chronicle after an event in some state. -/
def next (log : Chronicle) (event : SessionEvent) (studio : Studio) : Chronicle :=
  match event with
  | .openProject .. =>
    if succeeds event.action studio then { log with calls := log.calls + 1, behind := false }
    else { log with behind := true }
  | .update _ _ settings =>
    if succeeds event.action studio then
      { log with
        calls := log.calls + 1
        changes := log.changes + if differ studio settings then 1 else 0
        behind := false }
    else { log with behind := true, unsettled := log.unsettled || !takesIn studio settings }
  | .invalidate .. =>
    if succeeds event.action studio then { log with calls := log.calls + 1 } else log
  | .work =>
    match studio.scheduler.agenda.head?.bind studio.scheduler.job? with
    | some job => log.step studio job
    | none => log
  | _ => log

end Chronicle

/-! ### Runs -/

/-- The states before each round of a loop, and the one behind the last. -/
def trail {ε σ α : Type} (visit : α → EStateM ε σ PUnit) : List α → σ → List σ
  | [], state => [state]
  | a :: rest, state =>
    state :: match visit a state with
      | .ok _ next => trail visit rest next
      | .error _ next => [next]

/-- The states in which a session that has new contents looks for what is outdated. -/
def reconcileStates {α : Type} (first : SessionAction Double α) (studio : Studio) : List Studio :=
  match first studio with
  | .ok _ next => trail (SessionAction.visit SessionAction.refresh)
      (List.range next.store.cache.chunks.length) next
  | .error _ _ => []

/-- The states on the way of an event in which it is asked whether files exist. -/
def SessionEvent.passes (event : SessionEvent) (studio : Studio) : List Studio :=
  match event with
  | .openProject timeline media path time =>
    reconcileStates (SessionAction.load timeline media path time) studio
  | .update timeline media settings =>
    reconcileStates (SessionAction.change timeline media settings) studio
  | _ => []

/-- Asking whether a proxy exists gives the answers that it always gives. -/
def Steady (answers : PathExists) (studio : Studio) : Prop :=
  ∀ key item, (key, item) ∈ studio.shared.media → ∀ path, item.proxy? = some path →
    studio.store.disk.files.pathExists path = answers path

/-- The states that a session reaches by events that are allowed. Whether a proxy exists does not
change on the way. -/
inductive Run (answers : PathExists) (allowed : Studio → SessionEvent → Prop) (first : Studio) :
    Studio → Chronicle → Prop where
  | start : Run answers allowed first first {}
  | step {studio : Studio} {log : Chronicle} (event : SessionEvent) :
      Run answers allowed first studio log → allowed studio event →
      (∀ state ∈ event.passes studio, Steady answers state) →
      Steady answers (leaves event.action studio) →
      Run answers allowed first (leaves event.action studio) (log.next event studio)

instance (answers : PathExists) (studio : Studio) : Decidable (Steady answers studio) :=
  decidable_of_iff (∀ entry ∈ studio.shared.media, ∀ path ∈ entry.2.proxy?,
      studio.store.disk.files.pathExists path = answers path)
    ⟨fun h key item hitem => h (key, item) hitem, fun h entry => h entry.1 entry.2⟩

section Follow

variable (answers : PathExists) (allowed : Studio → SessionEvent → Prop)
  [∀ studio event, Decidable (allowed studio event)]

/-- What events one after another lead to, if a run may take them. -/
def follow : List SessionEvent → Studio → Chronicle → Option (Studio × Chronicle)
  | [], studio, log => some (studio, log)
  | event :: rest, studio, log =>
    if allowed studio event ∧ (∀ state ∈ event.passes studio, Steady answers state) ∧
        Steady answers (leaves event.action studio) then
      follow rest (leaves event.action studio) (log.next event studio)
    else none

variable {answers allowed} {first studio last : Studio} {log after : Chronicle}

theorem Run.follow (run : Run answers allowed first studio log) {events : List SessionEvent}
    (h : Montage.follow answers allowed events studio log = some (last, after)) :
    Run answers allowed first last after := by
  induction events generalizing studio log with
  | nil =>
    obtain ⟨rfl, rfl⟩ := Prod.mk.inj (Option.some.inj h)
    exact run
  | cons event rest ih =>
    rw [Montage.follow] at h
    split at h
    · next may => exact ih (run.step event may.1 may.2.1 may.2.2) h
    · exact absurd h (by simp)

/-- Events that lead to a state with some property. -/
theorem Run.exists_of_follow {meets : Studio → Chronicle → Bool} (events : List SessionEvent)
    (h : (Montage.follow answers allowed events first {}).any fun state => meets state.1 state.2) :
    ∃ studio log, Run answers allowed first studio log ∧ meets studio log = true := by
  obtain ⟨⟨studio, log⟩, hfollow, hmeets⟩ := (Option.any_eq_true _ _).mp h
  exact ⟨studio, log, Run.start.follow hfollow, hmeets⟩

end Follow

/-! ### Hashes under fixed answers -/

namespace Session

/-- The hash of a window, where it is known which proxies exist. -/
def hashWith (session : Session Double) (answers : PathExists) (window : Window Double) : String :=
  ContentHash.ofWindow session.timeline
    { media := session.media, useProxies := true, pathExists := answers } window

end Session

/-- An item that is found is in the library. -/
theorem MediaLibrary.exists_mem_of_find? {media : MediaLibrary} {mediaId : Option String}
    {item : MediaFile} (h : media.find? mediaId = some item) : ∃ key, (key, item) ∈ media := by
  unfold find? at h
  split at h
  · next key =>
    split at h
    · exact absurd h (by simp)
    · obtain ⟨before, after, hmedia, -⟩ := List.lookup_eq_some_iff.mp h
      exact ⟨key, by simp [hmedia]⟩
  · exact absurd h (by simp)

namespace ContentHash

variable {media : MediaLibrary} {answers answers' : PathExists}

/-- The file that a clip reads depends on what exists only through the proxies of the library. -/
theorem source_congr
    (same : ∀ key item, (key, item) ∈ media → ∀ path, item.proxy? = some path →
      answers path = answers' path) (clip : Clip Double) :
    source { media, useProxies := true, pathExists := answers } clip =
      source { media, useProxies := true, pathExists := answers' } clip := by
  unfold source
  dsimp only
  split
  · next item found =>
    obtain ⟨key, hitem⟩ := media.exists_mem_of_find? found
    have path : item.resolvedPath true answers = item.resolvedPath true answers' := by
      unfold MediaFile.resolvedPath
      split
      · next path hproxy => rw [same key item hitem path hproxy]
      · rfl
    rw [path]
  · rfl

theorem ofWindow_congr
    (same : ∀ key item, (key, item) ∈ media → ∀ path, item.proxy? = some path →
      answers path = answers' path) (timeline : Timeline Double) (window : Window Double) :
    ofWindow timeline { media, useProxies := true, pathExists := answers } window =
      ofWindow timeline { media, useProxies := true, pathExists := answers' } window := by
  have entries (tracks : List (Track Double)) (position : Nat) :
      windowEntries { media, useProxies := true, pathExists := answers } window position tracks =
        windowEntries { media, useProxies := true, pathExists := answers' } window position
          tracks := by
    induction tracks generalizing position with
    | nil => rfl
    | cons track rest ih =>
      rw [windowEntries, windowEntries, ih]
      congr 1
      refine List.map_congr_left fun clip _ => ?_
      rw [windowEntry, windowEntry, source_congr same]
  rw [ofWindow, ofWindow, windowPayload, windowPayload, entries]

end ContentHash

theorem Steady.hashOf {answers : PathExists} {studio : Studio} (steady : Steady answers studio)
    (chunk : Chunk Double) :
    studio.hashOf chunk = studio.shared.hashWith answers chunk.window :=
  ContentHash.ofWindow_congr steady _ _

end Montage
