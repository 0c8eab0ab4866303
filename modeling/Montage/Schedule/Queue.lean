/-!
Chunks that wait for a render. Urgent ones come first, and of those that are equally urgent the
one that was admitted first.
-/

namespace Montage

inductive Urgency where
  | high
  | normal
  | low
  deriving DecidableEq, Repr

namespace Urgency

def name : Urgency → String
  | .high => "high"
  | .normal => "normal"
  | .low => "low"

end Urgency

/-- A chunk that waits for its render. -/
structure QueueEntry where
  index : Int
  urgency : Urgency := .normal
  deriving DecidableEq, Repr

/-- Waiting chunks, the next one first. -/
abbrev RenderQueue := List QueueEntry

namespace RenderQueue

/-- The place of a chunk that is admitted: behind as many as there are of high urgency, in front of
the first of low urgency, or at the end. -/
def place (queue : RenderQueue) : Urgency → Nat
  | .high => queue.countP (·.urgency = .high)
  | .normal => queue.findIdx (·.urgency = .low)
  | .low => queue.length

/-- The queue with an entry at the place for its urgency. -/
def enqueue (queue : RenderQueue) (entry : QueueEntry) : RenderQueue :=
  queue.insertIdx (queue.place entry.urgency) entry

/-- The first entry of a chunk. -/
def entryOf? (queue : RenderQueue) (index : Int) : Option QueueEntry :=
  queue.find? (·.index = index)

/-- The queue without the first entry of a chunk. -/
def drop (queue : RenderQueue) (index : Int) : RenderQueue :=
  queue.eraseP (·.index = index)

end RenderQueue

end Montage
