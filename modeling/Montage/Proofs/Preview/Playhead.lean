import Montage.Proofs.Preview.Shop
import Montage.Proofs.Schedule.Front
import Montage.Proofs.Schedule.Lobby

/-!
# The playhead

The chunks around the playhead are to be rendered first, the nearest first. Bringing them to the front
does that with all that waits with less than high urgency, but not with what has high urgency already:
after an edit all chunks that wait have it, and the playhead makes no difference to them.

## Main definitions

* `Chunk.IsAround` — a chunk around the playhead that waits for a render or has failed
* `Nearer` — the order in which these chunks are to be rendered

## Main results

* `Ledger.Reaches.lined` — in every session the queue is made of its lines
* `Ledger.Reaches.playhead_first` — what the queue is made of when the playhead has moved
* `exists_playhead_last` — after an edit the farthest chunk stays first
-/

namespace Montage

open SessionAction

/-! ### The queue of a session -/

/-- The queue of a workshop stays made of its lines. -/
theorem RenderQueue.InLines.survives :
    Scheduler.Survives fun scheduler => scheduler.queue.InLines where
  admits := RenderQueue.InLines.admits
  requeue index _ scheduler lines :=
    (lines.sublist (scheduler.queue.drop_sublist index)).enqueue _
  events studio event order lines := by
    have mirrors := Scheduler.mirrors_lobby lines order.jobs.entries
    rw [(mirrors.next order ChunkRender.worker_leavesCache event).queue]
    exact Lobby.inLines _

/-- In every session the queue is made of its lines. -/
theorem Ledger.Reaches.lined {first : Studio} {ledger : Ledger} (new : first.IsNew)
    (reached : Ledger.Reaches ⟨first, []⟩ ledger) :
    ledger.state.Ordered fun scheduler => scheduler.queue.InLines := by
  refine reached.ordered RenderQueue.InLines.survives new ?_
  rw [new.queue]
  rfl

/-! ### Chunks around the playhead -/

/-- A place that is not farther from the playhead than some number of places. -/
def IsNear (center : Nat) (radius place : Int) : Prop := ((place - center).natAbs : Int) ≤ radius

/-- Of two places the one that is nearer to the playhead, or as near and earlier. -/
def Nearer (center : Nat) (a b : Int) : Prop :=
  (a - center).natAbs < (b - center).natAbs ∨ (a - center).natAbs = (b - center).natAbs ∧ a ≤ b

/-- A chunk around the playhead that waits for a render or has failed. -/
def Chunk.IsAround (center : Nat) (radius : Int) (chunk : Chunk Double) : Prop :=
  IsNear center radius chunk.index ∧ (chunk.status.needsRender = true ∨ chunk.status = .error)

/-- All places around the playhead come before the others, the nearest first. -/
def RenderQueue.PlayheadFirst (center : Nat) (radius : Int) (queue : RenderQueue) : Prop :=
  queue.Pairwise fun a b => IsNear center radius b.index →
    IsNear center radius a.index ∧ Nearer center a.index b.index

/-- The chunks around the playhead are sorted. -/
theorem nearby_sorted (chunks : List (Chunk Double)) (center : Nat) (radius : Int) :
    (nearby chunks center radius).Pairwise fun a b => Nearer center a.index b.index := by
  unfold nearby Nearer
  refine (List.pairwise_mergeSort (fun a b c => ?_) (fun a b => ?_) _).imp fun {a b} sorted => ?_
  · simp only [Bool.or_eq_true, Bool.and_eq_true, decide_eq_true_eq]
    omega
  · simp only [Bool.or_eq_true, Bool.and_eq_true, decide_eq_true_eq]
    omega
  · simpa using sorted

/-- Moving the playhead brings the chunks around it to the front, one after another. -/
theorem ensures_prioritizeNear {studio : Studio} {t : Double} {center : Nat}
    (found : studio.store.cache.indexAt? t = .ok (some center)) (radius : Option Int)
    {returns : List Nat → Studio → Prop} {fails : Studio → Prop} :
    Ensures (prioritizeNear t radius) studio returns fails ↔
      Ensures ((nearby studio.store.cache.chunks center (radius.getD studio.shared.prefetchRadius)).filterM
        fun chunk => WorkshopAction.bring chunk.index) studio
        (fun moved => returns (moved.map (·.index))) fails := by
  have lifted : (liftM (Except.ok (some center) : Except NumberError (Option Nat)) :
      Except Failure (Option Nat)) = .ok (some center) := rfl
  unfold prioritizeNear
  rw [ensures_bind, ensures_cache, ensures_bind, ensures_liftM, found, lifted]
  dsimp only
  rw [ensures_bind, ensures_session, ensures_bind, ensures_cache, ensures_bind]
  rfl

theorem Studio.Ordered.prioritizeNear {studio : Studio}
    (h : studio.Ordered fun scheduler => scheduler.queue.InLines) {t : Double} {center : Nat}
    (found : studio.store.cache.indexAt? t = .ok (some center)) (radius : Option Int) :
    let near := (nearby studio.store.cache.chunks center
      (radius.getD studio.shared.prefetchRadius)).map (·.index)
    Ensures (SessionAction.prioritizeNear t radius) studio
      (fun _ next => next.Brought studio.scheduler.queue near near) (fun _ => False) := by
  intro near
  refine (ensures_prioritizeNear found radius).mpr
    (Workshop.bringEach Chunk.index h.order h.holds fun chunk hchunk => ?_)
  obtain ⟨hchunk, -, waits⟩ := mem_nearby.mp hchunk
  refine ⟨chunk, hchunk, rfl, fun valid => ?_⟩
  simp [valid, ChunkState.needsRender] at waits

/-- The playhead moves to a chunk, in any session. The chunks around it that wait for a render or have
failed get a job or wait; unless they waited with high urgency before, they come in the order of their
distance, in front of all that waited with less. But whoever waited with high urgency before stays in
front of them, near or far, in the same order as before. -/
theorem Ledger.Reaches.playhead_first {first : Studio} {before : Ledger} (new : first.IsNew)
    (reached : Ledger.Reaches ⟨first, []⟩ before) {t : Double} {center : Nat}
    (found : before.state.store.cache.indexAt? t = .ok (some center)) (radius : Option Int) :
    let studio := before.state
    let old := studio.scheduler.queue
    let width := radius.getD studio.shared.prefetchRadius
    ∃ places next urgent moved others, SessionAction.prioritizeNear t radius studio = .ok places next ∧
      next.scheduler.queue = urgent ++ (moved ++ others) ∧
      urgent.Sublist (old.line .high) ∧
      moved.Pairwise (fun a b => Nearer center a.index b.index) ∧
      (∀ entry ∈ moved, entry ∉ old ∧
        ∃ chunk ∈ studio.store.cache.chunks, chunk.IsAround center width ∧ entry = ⟨chunk.index, .high⟩) ∧
      others.Sublist (old.line .normal ++ old.line .low) ∧
      (∀ chunk ∈ studio.store.cache.chunks, chunk.IsAround center width →
        next.scheduler.serves chunk.index = true ∧ ∀ entry ∈ others, entry.index ≠ chunk.index) ∧
      ((∀ entry ∈ others, ¬IsNear center width entry.index) →
        (moved ++ others).PlayheadFirst center width) := by
  intro studio old width
  let near := nearby studio.store.cache.chunks center width
  obtain ⟨places, next, returned, brought⟩ :=
    ((reached.lined new).prioritizeNear found radius).exists_ok
  obtain ⟨urgent, moved, others, queue, parts⟩ := brought.fronted
  have around {chunk : Chunk Double} :
      chunk ∈ near ↔ chunk ∈ studio.store.cache.chunks ∧ chunk.IsAround center width := mem_nearby
  rw [List.map_map] at parts
  have move : moved.Sublist (near.map fun chunk => ⟨chunk.index, .high⟩) := by
    have := parts.move
    rwa [List.map_map] at this
  have sorted : moved.Pairwise fun a b => Nearer center a.index b.index :=
    List.Pairwise.sublist move (List.pairwise_map.mpr (nearby_sorted _ _ _))
  have members : ∀ entry ∈ moved, entry ∉ old ∧
      ∃ chunk ∈ studio.store.cache.chunks, chunk.IsAround center width ∧ entry = ⟨chunk.index, .high⟩ := by
    intro entry hentry
    obtain ⟨chunk, hchunk, rfl⟩ := List.mem_map.mp (move.subset hentry)
    exact ⟨parts.fresh _ hentry, chunk, (around.mp hchunk).1, (around.mp hchunk).2, rfl⟩
  refine ⟨places, next, urgent, moved, others, returned, queue, parts.stay, sorted, members, parts.wait,
    fun chunk hchunk here => ?_, fun far => ?_⟩
  · have hplace : chunk.index ∈ near.map (·.index) := List.mem_map_of_mem (around.mpr ⟨hchunk, here⟩)
    refine ⟨(brought.served _ ⟨hplace, .inl hplace⟩).serves, fun entry hentry same => ?_⟩
    exact parts.gone entry hentry (List.mem_map.mpr ⟨chunk, around.mpr ⟨hchunk, here⟩, same.symm⟩)
  · refine List.pairwise_append.mpr ⟨sorted.imp_of_mem fun {a b} ha _ nearer _ => ⟨?_, nearer⟩, ?_, ?_⟩
    · obtain ⟨-, chunk, -, here, rfl⟩ := members a ha
      exact here.1
    · exact List.pairwise_of_forall_mem_list fun a _ b hb here => absurd here (far b hb)
    · exact fun a _ b hb here => absurd here (far b hb)

/-- Where all that waits has high urgency, as after an edit, the playhead changes nothing. -/
theorem prioritizeNear_of_urgent {studio : Studio} {t : Double} {center : Nat}
    (found : studio.store.cache.indexAt? t = .ok (some center)) (radius : Option Int)
    (urgent : ∀ entry ∈ studio.scheduler.queue, entry.urgency = .high)
    (served : ∀ chunk ∈ studio.store.cache.chunks,
      chunk.IsAround center (radius.getD studio.shared.prefetchRadius) →
      studio.scheduler.serves chunk.index = true) :
    prioritizeNear t radius studio = .ok [] studio := by
  suffices nothing : Ensures (prioritizeNear t radius) studio
      (fun places next => places = [] ∧ next = studio) (fun _ => False) by
    obtain ⟨places, next, returned, rfl, rfl⟩ := nothing.exists_ok
    exact returned
  rw [ensures_prioritizeNear found]
  let near := nearby studio.store.cache.chunks center (radius.getD studio.shared.prefetchRadius)
  let holds (_ moved : List (Chunk Double)) (next : Studio) : Prop := moved = [] ∧ next = studio
  have each (tested moved : List (Chunk Double)) (chunk : Chunk Double) (rest : List (Chunk Double))
      (state : Studio) (split : near = tested ++ chunk :: rest) (h : holds tested moved state) :
      Ensures (WorkshopAction.bring chunk.index) state (fun met next =>
        holds (tested ++ [chunk]) (if met then moved ++ [chunk] else moved) next) (fun _ => False) := by
    obtain ⟨rfl, rfl⟩ := h
    obtain ⟨hchunk, here⟩ := mem_nearby.mp (show chunk ∈ near by simp [split])
    refine (WorkshopAction.bring_of_urgent urgent (served chunk hchunk here)).mono ?_ fun _ => id
    rintro _ _ ⟨rfl, rfl⟩
    exact ⟨rfl, rfl⟩
  refine (Ensures.filterM_tested each ⟨rfl, rfl⟩).mono ?_ fun _ => id
  rintro _ _ ⟨rfl, rfl⟩
  exact ⟨rfl, rfl⟩

/-! ### A clip in four windows -/

namespace FourWindows

/-- A clip of two seconds. -/
def clip : Clip Double :=
  { OneClip.clip with duration := 2, mediaOut := 2, times_nonneg := by decide +kernel }

/-- The clip in a session that renders windows of half a second one by one, after a first call. -/
def ledger (call : SessionEvent) : Ledger := Ledger.next ⟨OneClip.opened, []⟩ call

def opening : SessionEvent := .openProject (OneClip.timeline [clip]) OneClip.media none none

def editing : SessionEvent := .update (OneClip.timeline [clip]) (some OneClip.media) none

/-- A time in the last window. -/
def late : Double := Double.ofRatio false 7 4

theorem reaches_ledger (call : SessionEvent) : Ledger.Reaches ⟨OneClip.opened, []⟩ (ledger call) :=
  .single ⟨call, trivial, rfl⟩

end FourWindows

open FourWindows

/-- After a project was opened, the playhead in the last window brings that to the front. -/
theorem last_window_goes_first :
    ∃ before places next, Ledger.Reaches ⟨OneClip.opened, []⟩ before ∧
      before.state.store.cache.indexAt? late = .ok (some 3) ∧
      before.state.scheduler.queue.map (·.index) = [1, 2, 3] ∧
      prioritizeNear late (some 1) before.state = .ok places next ∧
      next.scheduler.serves 3 = true ∧ next.scheduler.queue.PlayheadFirst 3 1 := by
  have found : (ledger opening).state.store.cache.indexAt? late = .ok (some 3) := by decide +kernel
  have before : (ledger opening).state.scheduler.queue = [⟨1, .normal⟩, ⟨2, .normal⟩, ⟨3, .normal⟩] := by
    decide +kernel
  have missing : ([1, 2, 3].all fun place =>
      (ledger opening).state.store.cache.chunks.any fun chunk =>
        chunk.index = place && chunk.status.needsRender) = true := by decide +kernel
  obtain ⟨places, next, urgent, moved, others, returned, queue, stay, -, -, wait, around, first⟩ :=
    (reaches_ledger opening).playhead_first OneClip.opened_isNew found (some 1)
  have here {place : Nat} (hplace : place ∈ [1, 2, 3]) (near : IsNear 3 1 place) :
      next.scheduler.serves place = true ∧ ∀ entry ∈ others, entry.index ≠ place := by
    obtain ⟨chunk, hchunk, same⟩ := List.any_eq_true.mp (List.all_eq_true.mp missing place hplace)
    rw [Bool.and_eq_true, decide_eq_true_eq] at same
    obtain ⟨rfl, waits⟩ := same
    exact around chunk hchunk ⟨near, .inl waits⟩
  rw [before] at stay wait
  refine ⟨_, places, next, reaches_ledger opening, found, by rw [before]; rfl, returned,
    (here (by simp) (by simp [IsNear])).1, ?_⟩
  rw [queue, List.sublist_nil.mp stay, List.nil_append]
  refine first fun entry hentry near => ?_
  obtain ⟨place, hplace, same⟩ : ∃ place ∈ [1, 2, 3], entry.index = (place : Nat) := by
    have := wait.subset hentry
    simp [RenderQueue.line] at this
    rcases this with rfl | rfl | rfl <;> simp
  exact (here hplace (same ▸ near)).2 entry hentry same

/-- After an edit the playhead in the last window changes nothing: the window that is farthest from it is
rendered first. -/
theorem exists_playhead_last :
    ∃ before, Ledger.Reaches ⟨OneClip.opened, []⟩ before ∧
      before.state.store.cache.indexAt? late = .ok (some 3) ∧
      before.state.scheduler.queue.map (·.index) = [1, 2, 3] ∧
      prioritizeNear late (some 1) before.state = .ok [] before.state ∧
      ¬before.state.scheduler.queue.PlayheadFirst 3 1 := by
  have found : (ledger editing).state.store.cache.indexAt? late = .ok (some 3) := by decide +kernel
  have queue : (ledger editing).state.scheduler.queue = [⟨1, .high⟩, ⟨2, .high⟩, ⟨3, .high⟩] := by
    decide +kernel
  have served : ((ledger editing).state.store.cache.chunks.all fun chunk =>
      (ledger editing).state.scheduler.serves chunk.index) = true := by decide +kernel
  refine ⟨_, reaches_ledger editing, found, by rw [queue]; rfl, ?_, fun first => ?_⟩
  · refine prioritizeNear_of_urgent found (some 1) (by simp [queue]) fun chunk hchunk _ => ?_
    exact List.all_eq_true.mp served chunk hchunk
  · rw [queue] at first
    have behind := (List.pairwise_cons.mp first).1 ⟨3, .high⟩ (by simp)
    exact absurd (behind (by simp [IsNear])).1 (by simp [IsNear])

end Montage
