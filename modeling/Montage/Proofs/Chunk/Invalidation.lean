import Mathlib.Data.List.Induction
import Montage.Proofs.Chunk.Change
import Montage.Proofs.Chunk.Landing
import Montage.Proofs.Chunk.Refusal

/-!
# Invalidations while a chunk renders

Calls on a cache come in any order, and each may fail. When the render of a chunk is recorded as
done, the chunk is valid exactly if nothing has outdated it since that render began: two numbers are
compared, the generation at which the render began and the one that the chunk has now.

## Main definitions

* `CacheCall` — the calls on a cache
* `CacheState.Outdated` — one of some calls outdated what was being rendered for a chunk
* `Cache.Tracks` — the generation of a chunk tells whether its render is outdated

## Main results

* `Cache.Tracks.next` — every call but a new begin of the render keeps the generation telling
* `CacheAction.finishRender_valid_iff` — a chunk is valid at the end of its render exactly if
  nothing has outdated it meanwhile
-/

namespace Montage

variable {τ : Type}

/-! ### Calls -/

/-- A call on a cache. -/
inductive CacheCall (τ : Type) where
  | change (edit : CacheChange τ)
  | startRender (index : Int)
  | finishRender (index : Int) (path : String) (contentHash : Option String)
      (isComplex : Option Bool)
  | failRender (index : Int) (message : String) (contentHash : Option String)

section Calls

variable [Scalar τ]

namespace CacheCall

def action : CacheCall τ → CacheAction τ Unit
  | .change edit => edit.action
  | .startRender index => do let _ ← CacheAction.startRender index
  | .finishRender index path contentHash isComplex => do
    let _ ← CacheAction.finishRender index path contentHash isComplex
  | .failRender index message contentHash => do
    let _ ← CacheAction.failRender index message contentHash

/-- A call makes what is being rendered for a chunk out of date. -/
def Outdates (state : CacheState τ) (chunk : Chunk τ) : CacheCall τ → Prop
  | .change edit => edit.Outdates state chunk
  | _ => False

end CacheCall

namespace CacheState

/-- The state that some calls lead to, whether they return or fail. -/
def after (state : CacheState τ) (calls : List (CacheCall τ)) : CacheState τ :=
  calls.foldl (fun state call => leaves call.action state) state

/-- One of some calls made what was being rendered for a chunk out of date. -/
def Outdated (state : CacheState τ) (calls : List (CacheCall τ)) (serial : Nat) : Prop :=
  ∃ earlier call later, calls = earlier ++ call :: later ∧
    ∃ chunk ∈ (state.after earlier).cache.chunks, chunk.serial = serial ∧
      call.Outdates (state.after earlier) chunk

variable {state : CacheState τ} {calls : List (CacheCall τ)} {call : CacheCall τ} {serial : Nat}

theorem after_append : state.after (calls ++ [call]) = leaves call.action (state.after calls) :=
  List.foldl_append

/-- The last call outdates a chunk, or one before it did. -/
theorem outdated_append : state.Outdated (calls ++ [call]) serial ↔
    state.Outdated calls serial ∨ ∃ chunk ∈ (state.after calls).cache.chunks,
      chunk.serial = serial ∧ call.Outdates (state.after calls) chunk := by
  constructor
  · rintro ⟨earlier, call', later, split, outdated⟩
    rcases split_of_append_singleton split with ⟨-, rfl, rfl⟩ | ⟨rest, -, before⟩
    · exact .inr outdated
    · exact .inl ⟨earlier, call', rest, before, outdated⟩
  · rintro (⟨earlier, call', later, rfl, outdated⟩ | outdated)
    · exact ⟨earlier, call', later ++ [call], by simp, outdated⟩
    · exact ⟨calls, call, [], rfl, outdated⟩

end CacheState

end Calls

/-! ### What the generation tells -/

/-- The begin of a render changes one chunk, if it is there. -/
theorem CacheAction.startRender_spec (index : Int) (state : CacheState τ) :
    Ensures (startRender index) state
      (fun begun next => ∃ chunk, state.cache.get index = .ok chunk ∧
        begun = Cache.beginRender chunk ∧ next.cache = state.cache.put begun)
      (fun next => next.cache = state.cache) := by
  unfold startRender
  rw [ensures_bind, ensures_chunkAt]
  cases found : state.cache.get index with
  | error cause => rfl
  | ok chunk =>
    dsimp only
    rw [if_neg (by simp [ChunkState.allows_rendering])]
    exact ⟨chunk, rfl, rfl, rfl⟩

theorem CacheAction.startRender_leaves (index : Int) (state : CacheState τ) :
    (∃ chunk, state.cache.get index = .ok chunk ∧
      (leaves (startRender index) state).cache = state.cache.put (Cache.beginRender chunk)) ∨
    (leaves (startRender index) state).cache = state.cache := by
  let begun (next : CacheState τ) : Prop := ∃ chunk, state.cache.get index = .ok chunk ∧
    next.cache = state.cache.put (Cache.beginRender chunk)
  have ends : Ensures (startRender index) state (fun _ => begun)
      (fun next => next.cache = state.cache) := by
    refine (startRender_spec index state).mono ?_ fun _ => id
    rintro _ next ⟨chunk, found, rfl, same⟩
    exact ⟨chunk, found, same⟩
  rcases ends.ends with ⟨-, began⟩ | ⟨-, same⟩
  · exact .inl began
  · exact .inr same

namespace Cache

theorem mem_put_beginRender {cache : Cache τ} {chunk other : Chunk τ} (h : chunk ∈ cache.chunks) :
    other ∈ (cache.put (beginRender chunk)).chunks ↔
      other = beginRender chunk ∨ other ∈ cache.chunks ∧ other.serial ≠ chunk.serial := by
  have same : (beginRender chunk).serial = chunk.serial := rfl
  exact mem_put h same

/-- The begin of a render keeps a cache in order. -/
theorem Orderly.begins {cache : Cache τ} {index : Int} {chunk : Chunk τ} (orderly : cache.Orderly)
    (found : cache.get index = .ok chunk) : (cache.put (beginRender chunk)).Orderly := by
  refine orderly.put (mem_of_get found) rfl rfl fun g hg => ?_
  obtain rfl := Option.some.inj hg
  exact Nat.le_refl _

end Cache

section Run

variable [Scalar τ]

/-- Every call keeps a cache in order, whether it returns or fails. -/
theorem CacheCall.keeps_orderly (call : CacheCall τ) {state : CacheState τ}
    (orderly : state.cache.Orderly) : (leaves call.action state).cache.Orderly := by
  cases call with
  | change edit =>
    obtain ⟨settings, recut⟩ := (edit.recuts state).leaves
    exact recut.orderly ⟨orderly.placed, orderly.distinct, orderly.numbered, orderly.begun⟩
  | startRender index =>
    rw [action, leaves_discard]
    rcases CacheAction.startRender_leaves index state with ⟨chunk, found, same⟩ | same
    · rw [same]
      exact orderly.begins found
    · rwa [same]
  | finishRender index path contentHash isComplex =>
    rw [action, leaves_discard]
    exact orderly.concludes
      (CacheAction.finishRender_spec index contentHash path isComplex state).leaves
  | failRender index message contentHash =>
    rw [action, leaves_discard]
    exact orderly.concludes (CacheAction.failRender_spec index contentHash message state).leaves

/-- Calls in any order keep a cache in order. -/
theorem CacheState.orderly_after {state : CacheState τ} (orderly : state.cache.Orderly)
    (calls : List (CacheCall τ)) : (state.after calls).cache.Orderly := by
  induction calls generalizing state with
  | nil => exact orderly
  | cons call rest ih => exact ih (call.keeps_orderly orderly)

end Run

namespace Cache

/-- As long as a chunk renders, its generation differs from the one at which its render began
exactly if that render is outdated. -/
structure Tracks (index : Int) (serial generation : Nat) (outdated : Prop) (cache : Cache τ) :
    Prop where
  made : serial < cache.nextSerial
  placed : ∀ chunk ∈ cache.chunks, chunk.serial = serial → (chunk.index : Int) = index
  tells : ∀ chunk ∈ cache.chunks, chunk.serial = serial → chunk.status = .rendering →
    chunk.renderGeneration = some generation ∧ generation ≤ chunk.generation ∧
      (outdated ↔ generation ≠ chunk.generation)

namespace Tracks

variable {index place : Int} {serial generation : Nat} {outdated : Prop} {cache after : Cache τ}

/-- A render begins. -/
theorem start {chunk : Chunk τ} (orderly : cache.Orderly) (found : cache.get index = .ok chunk) :
    Tracks index chunk.serial chunk.generation False (cache.put (beginRender chunk)) where
  made := orderly.numbered chunk (mem_of_get found)
  placed other hother same := by
    rcases (mem_put_beginRender (mem_of_get found)).mp hother with rfl | ⟨-, differ⟩
    · have place := orderly.index_of_get found
      exact place
    · exact absurd same differ
  tells other hother same _ := by
    rcases (mem_put_beginRender (mem_of_get found)).mp hother with rfl | ⟨-, differ⟩
    · exact ⟨rfl, Nat.le_refl _, by simp [beginRender]⟩
    · exact absurd same differ

/-- The render of a chunk at another place begins. -/
theorem begins (h : Tracks index serial generation outdated cache) (orderly : cache.Orderly)
    {chunk : Chunk τ} (found : cache.get place = .ok chunk) (elsewhere : place ≠ index) :
    Tracks index serial generation outdated (cache.put (beginRender chunk)) := by
  have differ : (beginRender chunk).serial ≠ serial := by
    intro same
    have := h.placed chunk (mem_of_get found) same
    exact elsewhere ((orderly.index_of_get found).symm.trans this)
  refine ⟨h.made, fun other hother same => ?_, fun other hother same => ?_⟩
  · rcases (mem_put_beginRender (mem_of_get found)).mp hother with rfl | ⟨hother, -⟩
    · exact absurd same differ
    · exact h.placed other hother same
  · rcases (mem_put_beginRender (mem_of_get found)).mp hother with rfl | ⟨hother, -⟩
    · exact absurd same differ
    · exact h.tells other hother same

/-- A render ends. -/
theorem concludes (h : Tracks index serial generation outdated cache)
    {leads : Chunk τ → Chunk τ → Prop} (ends : cache.Concludes after place leads) :
    Tracks index serial generation outdated after := by
  rcases ends with rfl | ⟨old, new, found, concluded, -, rfl⟩
  · exact h
  refine ⟨h.made, fun other hother same => ?_, fun other hother same busy => ?_⟩
  · rcases (mem_put (mem_of_get found) concluded.serial).mp hother with rfl | ⟨hother, -⟩
    · rw [concluded.index]
      exact h.placed old (mem_of_get found) (concluded.serial.symm.trans same)
    · exact h.placed other hother same
  · rcases (mem_put (mem_of_get found) concluded.serial).mp hother with rfl | ⟨hother, -⟩
    · exact absurd busy concluded.status
    · exact h.tells other hother same busy

variable [Scalar τ]

/-- The cache changes from outside. -/
theorem changes {state : CacheState τ} (h : Tracks index serial generation outdated state.cache)
    (orderly : state.cache.Orderly) (edit : CacheChange τ) :
    Tracks index serial generation
      (outdated ∨ ∃ chunk ∈ state.cache.chunks, chunk.serial = serial ∧ edit.Outdates state chunk)
      (leaves edit.action state).cache := by
  obtain ⟨settings, recut⟩ := (edit.recuts state).leaves
  have survives {new : Chunk τ} (hnew : new ∈ (leaves edit.action state).cache.chunks)
      (same : new.serial = serial) :
      ∃ old ∈ state.cache.chunks, old.serial = serial ∧ old.Demoted new := by
    rcases recut.chunks new hnew with ⟨old, hold, demoted⟩ | fresh
    · exact ⟨old, hold, demoted.serial.symm.trans same, demoted⟩
    · have : state.cache.nextSerial ≤ new.serial := fresh.serial_le
      have := h.made
      omega
  refine ⟨Nat.lt_of_lt_of_le h.made recut.nextSerial, fun new hnew same => ?_,
    fun new hnew same busy => ?_⟩
  · obtain ⟨old, hold, same', demoted⟩ := survives hnew same
    rw [demoted.index]
    exact h.placed old hold same'
  · obtain ⟨old, hold, same', demoted⟩ := survives hnew same
    have busy' := demoted.rendering_iff.mp busy
    obtain ⟨begun, reached, told⟩ := h.tells old hold same' busy'
    have counted := edit.countsUp orderly hold hnew demoted.serial busy'
    -- No other chunk has its number, so the change outdates this one if it outdates any with it.
    have only : (∃ chunk ∈ state.cache.chunks, chunk.serial = serial ∧ edit.Outdates state chunk) ↔
        edit.Outdates state old := by
      constructor
      · rintro ⟨chunk, hchunk, same'', outdates⟩
        rwa [← orderly.eq_of_serial hchunk hold (same''.trans same'.symm)]
      · exact fun outdates => ⟨old, hold, same', outdates⟩
    refine ⟨demoted.renderGeneration.trans begun, Nat.le_trans reached demoted.generation, ?_⟩
    rw [only]
    rcases counted with ⟨happened, up⟩ | ⟨not, same⟩
    · exact iff_of_true (.inr happened) (by omega)
    · rw [same, told, or_iff_left not]

/-- Every call but a new begin of the render keeps the generation telling. -/
theorem next {state : CacheState τ} (h : Tracks index serial generation outdated state.cache)
    (orderly : state.cache.Orderly) (call : CacheCall τ) (goes : call ≠ .startRender index) :
    Tracks index serial generation
      (outdated ∨ ∃ chunk ∈ state.cache.chunks, chunk.serial = serial ∧ call.Outdates state chunk)
      (leaves call.action state).cache := by
  have kept {next : CacheState τ} (h : Tracks index serial generation outdated next.cache) :
      Tracks index serial generation
        (outdated ∨ ∃ chunk ∈ state.cache.chunks, chunk.serial = serial ∧ False) next.cache := by
    simpa only [and_false, exists_false, or_false] using h
  cases call with
  | change edit => exact h.changes orderly edit
  | startRender place =>
    rw [CacheCall.action, leaves_discard]
    apply kept
    rcases CacheAction.startRender_leaves place state with ⟨chunk, found, same⟩ | same
    · rw [same]
      exact h.begins orderly found fun same => goes (congrArg CacheCall.startRender same)
    · rwa [same]
  | finishRender place path contentHash isComplex =>
    rw [CacheCall.action, leaves_discard]
    have ends := (CacheAction.finishRender_spec place contentHash path isComplex state).leaves
    exact kept (h.concludes ends)
  | failRender place message contentHash =>
    rw [CacheCall.action, leaves_discard]
    have ends := (CacheAction.failRender_spec place contentHash message state).leaves
    exact kept (h.concludes ends)

/-- Calls in any order keep the generation telling, as long as the render does not begin anew. -/
theorem run {state : CacheState τ} (h : Tracks index serial generation False state.cache)
    (orderly : state.cache.Orderly) (calls : List (CacheCall τ))
    (goes : .startRender index ∉ calls) :
    Tracks index serial generation (state.Outdated calls serial) (state.after calls).cache := by
  induction calls using List.reverseRecOn with
  | nil =>
    have fresh : state.Outdated [] serial ↔ False := by simp [CacheState.Outdated]
    rw [fresh]
    exact h
  | append_singleton calls call ih =>
    rw [CacheState.after_append, CacheState.outdated_append]
    rw [List.mem_append, not_or] at goes
    refine (ih goes.1).next (CacheState.orderly_after orderly calls) call ?_
    rintro rfl
    exact goes.2 List.mem_cons_self

end Tracks

end Cache

/-! ### Renders that land -/

namespace CacheAction

/-- Calls come in any order, and each may fail. If the render of a chunk is recorded as done, the
chunk is valid exactly if nothing has outdated it since the latest begin of its render; if it is
outdated, it is stale and without a file. A chunk that does not render any more takes nothing. And an
invalidation changes the valid chunks that it is about, with their files, and counts up the generation
of those that render, and tells which. -/
theorem finishRender_valid_iff [Scalar τ] {first : CacheState τ} (empty : first.cache.chunks = [])
    (earlier since : List (CacheCall τ)) {index : Int} {begun chunk : Chunk τ}
    {started : CacheState τ}
    (starts : startRender index (first.after earlier) = .ok begun started)
    (latest : .startRender index ∉ since)
    (found : (started.after since).cache.get index = .ok chunk)
    (survives : chunk.serial = begun.serial) (path : String) (contentHash : Option String)
    (isComplex : Option Bool) :
    let finish := finishRender index path contentHash isComplex
    (chunk.status ≠ .rendering → finish (started.after since) =
      .error (.render (Cache.refusal chunk .valid)) (started.after since)) ∧
    (chunk.status = .rendering → ∃ ended, ended.serial = begun.serial ∧
      Recorded path (started.Outdated since begun.serial) (started.after since) ended
        (leaves finish (started.after since))) ∧
    ∀ (start stop : τ) (state : CacheState τ),
      let meets (chunk : Chunk τ) : Bool := chunk.window.intersects start stop
      Ensures (invalidate start stop) state
        (fun affected next => affected = Cache.hits meets state.cache.chunks ∧
          ∃ files, FileTree.removeEach (Cache.pathsOf meets state.cache.chunks) state.disk.files =
            .ok files ∧
          let swept : CacheState τ := {
            cache := { state.cache with chunks := Cache.sweep meets state.cache.chunks }
            disk := { state.disk with files } }
          next = if affected = [] then swept else leaves save swept)
        (fun next => ∃ chunks, next.cache = { state.cache with chunks } ∧
          List.Forall₂ (Chunk.PartlyInvalidated meets) state.cache.chunks chunks) := by
  intro finish
  have orderly : (first.after earlier).cache.Orderly :=
    CacheState.orderly_after ⟨by simp [empty], by simp [empty], by simp [empty], by simp [empty]⟩ _
  obtain ⟨old, there, rfl, began⟩ :=
    (ensures_of_ok starts).mp (startRender_spec index (first.after earlier))
  have tracks := Cache.Tracks.start orderly there
  rw [← began] at tracks
  have tracks := tracks.run (by rw [began]; exact orderly.begins there) since latest
  refine ⟨finishRender_idle found path contentHash isComplex, fun busy => ?_,
    fun start stop state => invalidateWhere_changes _ state⟩
  obtain ⟨generation, -, told⟩ := tracks.tells chunk (Cache.mem_of_get found) survives busy
  obtain ⟨ended, serial, -, recorded⟩ := finishRender_records found busy path contentHash isComplex
  refine ⟨ended, serial.trans survives, ?_⟩
  have same : started.Outdated since (Cache.beginRender old).serial ↔
      chunk.renderGeneration ≠ some chunk.generation := by
    rw [generation, ne_eq, Option.some.injEq]
    exact told
  rwa [same]

end CacheAction

/-! ### Three chunks, invalidated while two of them render -/

namespace Overtaken

open CacheAction

def day : Timestamp := { year := 2024, month := 1, day := 1 }

def zero : Double := Double.ofRatio false 0 1

/-- Half a second, the length of a window. -/
def half : Double := Double.ofRatio false 1 2

/-- The length of three windows. -/
def whole : Double := Double.ofRatio false 3 2

/-- A cache in a folder that has a folder of its own. -/
def created : CacheState Double where
  cache := {
    folder := Path.ofText "cache", chunkDuration := half, settings := {}, totalDuration := zero
    createdAt := day }
  disk := { files := ⟨[(["cache"], .folder), (["cache", "inner"], .folder)]⟩, now := day }

/-- The chunk in the middle is rendered. -/
def rendered (path : String) : List (CacheCall Double) :=
  [.change (.repartition whole), .startRender 1, .finishRender 1 path (some "aa") none]

/-- Everything is invalidated. -/
def edit : CacheChange Double := .invalidate zero whole

/-- The status at the end of a render, if it begins and its chunk is still being rendered after some
calls and would meet the edit. -/
def lands? (place : Int) (earlier since : List (CacheCall Double)) : Option ChunkState :=
  match startRender place (created.after earlier) with
  | .error _ _ => none
  | .ok begun started =>
    match (started.after since).cache.get place with
    | .error _ => none
    | .ok chunk =>
      if chunk.serial = begun.serial ∧ chunk.status = .rendering ∧
          chunk.window.intersects zero whole then
        match (leaves (finishRender place "cache/new.mp4" none none)
            (started.after since)).cache.get place with
        | .error _ => none
        | .ok ended => some ended.status
      else none

/-- A render that begins, goes on during some calls that it meets, and lands. -/
def Lands (place : Int) (earlier since : List (CacheCall Double)) (begun : Chunk Double)
    (started : CacheState Double) (chunk ended : Chunk Double) : Prop :=
  startRender place (created.after earlier) = .ok begun started ∧
    (started.after since).cache.get place = .ok chunk ∧ chunk.serial = begun.serial ∧
    chunk.status = .rendering ∧ chunk.window.intersects zero whole = true ∧
    (leaves (finishRender place "cache/new.mp4" none none) (started.after since)).cache.get place =
      .ok ended

theorem lands_of_lands? {place : Int} {earlier since : List (CacheCall Double)}
    {status : ChunkState} (h : lands? place earlier since = some status) :
    ∃ begun started chunk ended,
      Lands place earlier since begun started chunk ended ∧ ended.status = status := by
  unfold lands? at h
  split at h
  · exact absurd h (by simp)
  · next begun started starts =>
    split at h
    · exact absurd h (by simp)
    · next chunk found =>
      split at h
      · next busy =>
        split at h
        · exact absurd h (by simp)
        · next ended there =>
          exact ⟨begun, started, chunk, ended, ⟨starts, found, busy.1, busy.2.1, busy.2.2, there⟩,
            Option.some.inj h⟩
      · exact absurd h (by simp)

end Overtaken

open CacheAction Overtaken

/-- Another render begins, everything is invalidated, and the first render lands: it is stale,
because the invalidation outdated it. -/
theorem overtaken_render_is_stale :
    let since : List (CacheCall Double) := [.startRender 2, .change edit]
    ∃ begun started chunk ended,
      Lands 0 (rendered "cache/chunk-1-aa.mp4") since begun started chunk ended ∧
      created.cache.chunks = [] ∧ .startRender 0 ∉ since ∧
      started.Outdated since begun.serial ∧ ended.status = .stale ∧
      Recorded "cache/new.mp4" (started.Outdated since begun.serial) (started.after since) ended
        (leaves (finishRender 0 "cache/new.mp4" none none) (started.after since)) := by
  intro since
  have landed : lands? 0 (rendered "cache/chunk-1-aa.mp4") since = some .stale := by decide +kernel
  have latest : .startRender 0 ∉ since := by simp [since]
  obtain ⟨begun, started, chunk, ended, lands, stale⟩ := lands_of_lands? landed
  have ⟨starts, found, survives, busy, _, there⟩ := lands
  have whole := finishRender_valid_iff rfl (rendered "cache/chunk-1-aa.mp4") since starts latest
    found survives "cache/new.mp4" none none
  obtain ⟨last, serial, records⟩ := whole.2.1 busy
  -- What is recorded is what stands at the place.
  obtain rfl : last = ended := by
    have put := Cache.get_put found (serial.trans survives.symm)
    rw [records.cache] at there
    exact Except.ok.inj (put.symm.trans there)
  exact ⟨begun, started, chunk, last, lands, rfl, latest, records.stale.mp stale, stale, records⟩

/-- If a file cannot be removed, an invalidation of everything fails: it makes stale what renders in
front of that file, and what renders behind it is valid in the end, although both meet it. -/
theorem exists_valid_invalidated :
    succeeds (invalidate zero whole)
      (created.after (rendered "cache/inner" ++ [.startRender 0, .startRender 2])) = false ∧
    (∃ begun started chunk ended, Lands 0 (rendered "cache/inner") [.startRender 2, .change edit]
      begun started chunk ended ∧ ended.status = .stale) ∧
    ∃ begun started chunk ended, Lands 2 (rendered "cache/inner" ++ [.startRender 0]) [.change edit]
      begun started chunk ended ∧ ended.status = .valid := by
  refine ⟨by decide +kernel, lands_of_lands? ?_, lands_of_lands? ?_⟩
  · decide +kernel
  · decide +kernel

end Montage
