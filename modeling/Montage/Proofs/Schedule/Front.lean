import Montage.Proofs.Schedule.Lines

/-!
# Places that are brought to the front

Some places are to be rendered before all others, in a given order. One after another they are given
high urgency: who waits with less moves, and who is not served is admitted. So each of them comes
behind those that were brought before it, and all of them come in front of whoever waits with less
urgency. But who waits with high urgency already stays where it is.

## Main definitions

* `WorkshopAction.bring` — a place is brought to the front
* `RenderQueue.Fronted` — what a queue is made of after that: the urgent entries of before, those that
  were brought, and the others

## Main results

* `Workshop.Brought.next` — what bringing one more place to the front keeps
* `Workshop.bringEach` — what it leads to for several places
-/

namespace Montage

variable {τ κ ω ρ : Type}

namespace RenderQueue

/-! ### Queues -/

/-- A queue in its lines stays so whatever is taken off it or admitted to it. -/
theorem InLines.admits :
    Admits fun (scheduler : Scheduler τ ω ρ) (_ : Cache τ) => scheduler.queue.InLines where
  idle _ _ _ h := h
  skip _ _ _ _ _ queue h _ := (queue ▸ h).sublist (List.sublist_cons_self _ _)
  begin _ _ _ _ _ _ queue _ h _ _ := (queue ▸ h).sublist (List.sublist_cons_self _ _)
  enqueue entry _ _ h := h.enqueue entry

/-- Behind all that is urgent, and in front of all else. -/
theorem enqueue_high {front back : RenderQueue} (urgent : ∀ entry ∈ front, entry.urgency = .high)
    (others : ∀ entry ∈ back, entry.urgency ≠ .high) (index : Int) :
    (front ++ back).enqueue ⟨index, .high⟩ = front ++ ⟨index, .high⟩ :: back := by
  have none : back.line .high = [] :=
    List.filter_eq_nil_iff.mpr fun entry hentry => by simpa using others entry hentry
  have place : (front ++ back).place .high = front.length := by
    rw [InLines.place_high, line_append, line_of_forall urgent, if_pos rfl, none, List.append_nil]
  rw [enqueue, place, insertIdx_length_append]

/-- What a queue is made of after some places were brought to the front, one after another: of those that
were urgent before, of those that became so, and of the others. -/
structure Parts (old : RenderQueue) (brought : List Int) (urgent moved others : RenderQueue) : Prop where
  stay : urgent.Sublist (old.line .high)
  move : moved.Sublist (brought.map (⟨·, .high⟩))
  fresh : ∀ entry ∈ moved, entry ∉ old
  wait : others.Sublist (old.line .normal ++ old.line .low)
  gone : ∀ entry ∈ others, entry.index ∉ brought

/-- A queue after some places were brought to the front. -/
def Fronted (old : RenderQueue) (brought : List Int) (queue : RenderQueue) : Prop :=
  ∃ urgent moved others, queue = urgent ++ (moved ++ others) ∧ Parts old brought urgent moved others

namespace Parts

variable {old urgent moved others : RenderQueue} {brought : List Int}

theorem urgency (parts : Parts old brought urgent moved others) :
    ∀ entry ∈ urgent ++ moved, entry.urgency = .high := by
  intro entry hentry
  rcases List.mem_append.mp hentry with h | h
  · exact urgency_of_mem_line (parts.stay.subset h)
  · obtain ⟨index, -, rfl⟩ := List.mem_map.mp (parts.move.subset h)
    rfl

theorem not_urgent (parts : Parts old brought urgent moved others) :
    ∀ entry ∈ others, entry.urgency ≠ .high := by
  intro entry hentry
  rcases List.mem_append.mp (parts.wait.subset hentry) with h | h <;>
    simp [urgency_of_mem_line h]

end Parts

namespace Fronted

variable {old queue part : RenderQueue} {brought : List Int} {index : Int}

theorem first (lines : old.InLines) : Fronted old [] old :=
  ⟨old.line .high, [], old.line .normal ++ old.line .low, lines, .refl _, List.nil_sublist _,
    by simp, .refl _, by simp⟩

theorem sublist (h : Fronted old brought queue) (sub : part.Sublist queue) :
    Fronted old brought part := by
  obtain ⟨urgent, moved, others, rfl, parts⟩ := h
  obtain ⟨urgent', rest, rfl, urgents, sub⟩ := List.sublist_append_iff.mp sub
  obtain ⟨moved', others', rfl, moves, left⟩ := List.sublist_append_iff.mp sub
  exact ⟨urgent', moved', others', rfl, urgents.trans parts.stay, moves.trans parts.move,
    fun entry hentry => parts.fresh entry (moves.subset hentry), left.trans parts.wait,
    fun entry hentry => parts.gone entry (left.subset hentry)⟩

/-- Who is not urgent now was not urgent before. -/
theorem mem_of_not_urgent (h : Fronted old brought queue) {entry : QueueEntry}
    (hentry : entry ∈ queue) (other : entry.urgency ≠ .high) : entry ∈ old := by
  obtain ⟨urgent, moved, others, rfl, parts⟩ := h
  rw [← List.append_assoc] at hentry
  rcases List.mem_append.mp hentry with before | behind
  · exact absurd (parts.urgency entry before) other
  · rcases List.mem_append.mp (parts.wait.subset behind) with h | h <;>
      exact List.mem_of_mem_filter h

/-- A place that waits with high urgency, or does not wait, is passed over. -/
theorem stays (h : Fronted old brought queue)
    (same : ∀ entry ∈ queue, entry.index = index → entry.urgency = .high) :
    Fronted old (brought ++ [index]) queue := by
  obtain ⟨urgent, moved, others, rfl, parts⟩ := h
  refine ⟨urgent, moved, others, rfl, parts.stay, ?_, parts.fresh, parts.wait,
    fun entry hentry here => ?_⟩
  · rw [List.map_append]
    exact parts.move.trans (List.sublist_append_left _ _)
  · rcases List.mem_append.mp here with before | last
    · exact parts.gone entry hentry before
    · exact parts.not_urgent entry hentry
        (same entry (by simp [hentry]) (List.mem_singleton.mp last))

/-- A place that does not wait is admitted behind those that were brought to the front before it. -/
theorem enters (h : Fronted old brought queue) (absent : ∀ entry ∈ queue, entry.index ≠ index)
    (new : ⟨index, .high⟩ ∉ old) :
    Fronted old (brought ++ [index]) (queue.enqueue ⟨index, .high⟩) := by
  obtain ⟨urgent, moved, others, rfl, parts⟩ := h
  refine ⟨urgent, moved ++ [⟨index, .high⟩], others, ?_, parts.stay, ?_,
    fun entry hentry => ?_, parts.wait, fun entry hentry here => ?_⟩
  · rw [← List.append_assoc, enqueue_high parts.urgency parts.not_urgent]
    simp
  · rw [List.map_append]
    exact parts.move.append (.refl _)
  · rcases List.mem_append.mp hentry with before | last
    · exact parts.fresh entry before
    · rwa [List.mem_singleton.mp last]
  · rcases List.mem_append.mp here with before | last
    · exact parts.gone entry hentry before
    · exact absent entry (by simp [hentry]) (List.mem_singleton.mp last)

/-- Whoever gets a slot or needs none leaves the others as they are. -/
theorem pumps (old : RenderQueue) (brought : List Int) :
    Pumps fun (scheduler : Scheduler τ ω ρ) (_ : Cache τ) => Fronted old brought scheduler.queue where
  idle _ _ _ h := h
  skip _ _ _ _ _ queue h _ := (queue ▸ h).sublist (List.sublist_cons_self _ _)
  begin _ _ _ _ _ _ queue _ h _ _ := (queue ▸ h).sublist (List.sublist_cons_self _ _)

end Fronted

end RenderQueue

/-! ### Chunks that need a job -/

/-- A place whose chunk is there and not valid. -/
def Cache.Needs (cache : Cache τ) (place : Nat) : Prop :=
  ∃ chunk ∈ cache.chunks, chunk.index = place ∧ chunk.status ≠ .valid

theorem Cache.Needs.pumps (place : Nat) :
    Pumps fun (_ : Scheduler τ ω ρ) (cache : Cache τ) => cache.Needs place where
  idle _ _ _ h := h
  skip _ _ _ _ _ _ h _ := h
  begin _ _ _ cache chunk order _ _ h found _ := by
    obtain ⟨other, hother, here, waits⟩ := h
    have hchunk := Cache.mem_of_get found
    have serial : (Cache.beginRender chunk).serial = chunk.serial := rfl
    by_cases same : other.serial = chunk.serial
    · obtain rfl := order.chunks.eq_of_serial hother hchunk same
      exact ⟨_, (Cache.mem_put hchunk serial).mpr (.inl rfl), here, by simp [Cache.beginRender]⟩
    · exact ⟨other, (Cache.mem_put hchunk serial).mpr (.inr ⟨hother, same⟩), here, waits⟩

/-- What holds of each of some places survives if it does so of each place. -/
theorem Pumps.all {α : Type} {holds : α → Scheduler τ ω ρ → Cache τ → Prop} (among : α → Prop)
    (pumps : ∀ a, Pumps (holds a)) : Pumps fun scheduler cache => ∀ a, among a → holds a scheduler cache where
  idle s c b h a ha := (pumps a).idle s c b (h a ha)
  skip entry rest s c order queue h valid a ha := (pumps a).skip entry rest s c order queue (h a ha) valid
  begin entry rest s c chunk order queue room h found waits a ha :=
    (pumps a).begin entry rest s c chunk order queue room (h a ha) found waits

/-! ### Bringing places to the front -/

section Bring

variable [Scalar τ]

/-- A place is given high urgency if it waits, and admitted with it if it is not served. Tells whether it
comes behind all that is urgent now. -/
def WorkshopAction.bring (index : Int) : WorkshopAction τ κ ω ρ Bool := do
  if ← setUrgency index .high then return true
  queue index .high

/-- A workshop in order after some places were brought to the front, and which of those that need a job
are served. -/
structure Workshop.Brought (old : RenderQueue) (places brought : List Nat) (shop : Workshop τ κ ω ρ) :
    Prop where
  order : InOrder shop.store.cache shop.scheduler
  fronted : RenderQueue.Fronted old (brought.map Int.ofNat) shop.scheduler.queue
  needs : ∀ place, place ∈ places → shop.store.cache.Needs place
  /-- Who was brought to the front, or was urgent before. -/
  served : ∀ place, place ∈ places ∧ (place ∈ brought ∨ ⟨place, .high⟩ ∈ old) →
    Serving place shop.scheduler shop.store.cache

namespace Workshop.Brought

variable {old : RenderQueue} {places brought : List Nat} {shop : Workshop τ κ ω ρ} {place : Nat}

theorem pumped (h : shop.Brought old places brought) : shop.pumped.Brought old places brought := by
  have pumps := (RenderQueue.Fronted.pumps (τ := τ) (ω := ω) (ρ := ρ) old (brought.map Int.ofNat)).and
    ((Pumps.all (· ∈ places) Cache.Needs.pumps).and
      (Pumps.all (fun place => place ∈ places ∧ (place ∈ brought ∨ ⟨place, .high⟩ ∈ old)) Serving.pumps))
  obtain ⟨order, fronted, needs, served⟩ := pumps.pumped h.order ⟨h.fronted, h.needs, h.served⟩
  exact ⟨order, fronted, needs, served⟩

omit [Scalar τ] in
/-- A place that needs a job is served as soon as it has one or waits. -/
theorem serving (h : shop.Brought old places brought) (hplace : place ∈ places)
    (serves : shop.scheduler.serves place = true) : Serving place shop.scheduler shop.store.cache := by
  rcases Scheduler.serves_iff.mp serves with ⟨job, hjob, here⟩ | waits
  · exact .inl ⟨job, hjob, Int.ofNat.inj here⟩
  · exact .inr ⟨waits, h.needs place hplace⟩

omit [Scalar τ] in
/-- A place that is not in the queue is admitted, and the others stay as they are. -/
theorem admitting (order : InOrder shop.store.cache shop.scheduler)
    (free : shop.scheduler.serves place = false)
    (fronted : RenderQueue.Fronted old (brought.map Int.ofNat) shop.scheduler.queue)
    (new : ⟨place, .high⟩ ∉ old) (needs : ∀ place, place ∈ places → shop.store.cache.Needs place)
    (served : ∀ other, other ∈ places ∧ (other ∈ brought ∨ ⟨other, .high⟩ ∈ old) → other ≠ place →
      Serving other shop.scheduler shop.store.cache) :
    (shop.admitting ⟨place, .high⟩).Brought old places (brought ++ [place]) where
  order := order.admitting free
  fronted := by
    rw [List.map_append]
    exact fronted.enters (Scheduler.entry_index_ne free) new
  needs := needs
  served other := by
    rintro ⟨hother, early⟩
    by_cases same : other = place
    · have here : (⟨place, .high⟩ : QueueEntry) ∈ shop.scheduler.queue.enqueue ⟨place, .high⟩ :=
        RenderQueue.mem_enqueue.mpr (.inl rfl)
      exact .inr ⟨⟨_, here, congrArg Nat.cast same.symm⟩, needs other hother⟩
    · have before : other ∈ brought ∨ ⟨other, .high⟩ ∈ old := by simpa [same] using early
      rcases served other ⟨hother, before⟩ same with held | ⟨⟨entry, hentry, there⟩, needs⟩
      · exact .inl held
      · exact .inr ⟨⟨entry, RenderQueue.mem_enqueue.mpr (.inr hentry), there⟩, needs⟩

/-- One more place is brought to the front, behind those that were brought there before. -/
theorem next (once : (old.map (·.index)).Nodup) (h : shop.Brought old places brought)
    (hplace : place ∈ places) :
    Ensures (WorkshopAction.bring place) shop
      (fun _ after => after.Brought old places (brought ++ [place])) (fun _ => False) := by
  unfold WorkshopAction.bring
  rw [ensures_bind]
  refine (WorkshopAction.setUrgency_cases place .high h.order).mono ?_ fun _ => id
  rintro moved after (⟨rfl, rfl, urgent⟩ | ⟨rfl, ⟨entry, hentry, here, less⟩, free, rfl⟩)
  · refine (WorkshopAction.queue_cases place .high after).mono ?_ fun _ => id
    rintro admitted last (⟨rfl, serves, rfl⟩ | ⟨rfl, free, rfl⟩)
    · -- The place has a job, or waits with high urgency already.
      refine ⟨h.order, ?_, h.needs, fun other hother => ?_⟩
      · rw [List.map_append]
        exact h.fronted.stays urgent
      · by_cases same : other = place
        · exact same ▸ h.serving hplace serves
        · exact h.served other (by simpa [same] using hother)
    · refine (admitting h.order free h.fronted (fun early => ?_) h.needs
        fun other hother _ => h.served other hother).pumped
      exact Bool.eq_false_iff.mp free (h.served place ⟨hplace, .inr early⟩).serves
  · have dropped := shop.scheduler.queue.drop_sublist place
    have order : InOrder (shop.withdrawing place).store.cache (shop.withdrawing place).scheduler :=
      (h.order.dequeue dropped).of_eq rfl rfl rfl
    refine (admitting order free (h.fronted.sublist dropped) (fun early => less ?_) h.needs
      fun other hother away => ?_).pumped
    · have same : entry = ⟨place, .high⟩ :=
        List.inj_on_of_nodup_map once (h.fronted.mem_of_not_urgent hentry less) early here
      rw [same]
    · rcases h.served other hother with held | ⟨⟨entry, hentry, there⟩, needs⟩
      · exact .inl held
      · exact .inr ⟨⟨entry, RenderQueue.mem_drop_of_ne hentry (by omega), there⟩, needs⟩

end Workshop.Brought

/-- Places are brought to the front one after another. -/
theorem Workshop.bringEach {α : Type} (place : α → Nat) {shop : Workshop τ κ ω ρ}
    (order : InOrder shop.store.cache shop.scheduler) (lines : shop.scheduler.queue.InLines)
    {items : List α} (needs : ∀ item ∈ items, shop.store.cache.Needs (place item)) :
    Ensures (items.filterM fun item => WorkshopAction.bring (place item)) shop
      (fun _ next => next.Brought shop.scheduler.queue (items.map place) (items.map place))
      (fun _ => False) := by
  have first : shop.Brought shop.scheduler.queue (items.map place) [] := by
    refine ⟨order, .first lines, fun here hplace => ?_, fun here hplace => ?_⟩
    · obtain ⟨item, hitem, rfl⟩ := List.mem_map.mp hplace
      exact needs item hitem
    · rcases hplace with ⟨hplace, brought | urgent⟩
      · exact absurd brought List.not_mem_nil
      · obtain ⟨item, hitem, rfl⟩ := List.mem_map.mp hplace
        exact .inr ⟨⟨_, urgent, rfl⟩, needs item hitem⟩
  let holds (tested _ : List α) (next : Workshop τ κ ω ρ) : Prop :=
    next.Brought shop.scheduler.queue (items.map place) (tested.map place)
  have each (tested found : List α) (item : α) (rest : List α) (state : Workshop τ κ ω ρ)
      (split : items = tested ++ item :: rest) (hstate : holds tested found state) :
      Ensures (WorkshopAction.bring (place item)) state (fun _ next => holds (tested ++ [item]) [] next)
        (fun _ => False) := by
    unfold holds
    rw [List.map_append]
    exact hstate.next order.jobs.entries (by simp [split])
  exact Ensures.filterM_tested each first

/-- Where all that waits is urgent, a place that is served stays where it is. -/
theorem WorkshopAction.bring_of_urgent {shop : Workshop τ κ ω ρ} {index : Int}
    (urgent : ∀ entry ∈ shop.scheduler.queue, entry.urgency = .high)
    (served : shop.scheduler.serves index = true) :
    Ensures (bring index) shop (fun moved next => moved = false ∧ next = shop) (fun _ => False) := by
  have refused : Ensures (queue index .high) shop (fun moved next => moved = false ∧ next = shop)
      (fun _ => False) := by
    refine (queue_cases index .high shop).mono ?_ fun _ => id
    rintro admitted next (⟨rfl, -, rfl⟩ | ⟨-, free, -⟩)
    · exact ⟨rfl, rfl⟩
    · exact absurd (free.symm.trans served) Bool.false_ne_true
  unfold bring setUrgency
  rw [ensures_bind, ensures_bind, ensures_scheduler]
  split
  · exact refused
  · next entry found =>
    rw [if_pos (urgent entry (List.mem_of_find?_eq_some found))]
    exact refused

end Bring

end Montage
