/-!
The registry of running jobs. A key is reserved before its process is started and released when
the process has ended. A key that is cancelled while it is reserved stays marked until its run has
taken notice.
-/

namespace Montage

/-- Keys in use, in the order of their reservation, with the process of each that has one. `π`
names processes. -/
structure Registry (π : Type) where
  entries : List (String × Option π) := []
  /-- The keys that were cancelled and whose runs have not yet taken notice. -/
  cancelled : List String := []

namespace Registry

variable {π : Type}

def keys (registry : Registry π) : List String := registry.entries.map (·.1)

def contains (registry : Registry π) (key : String) : Bool := registry.keys.contains key

/-- The process of a key that has one. -/
def process? (registry : Registry π) (key : String) : Option π :=
  (registry.entries.lookup key).join

def isMarked (registry : Registry π) (key : String) : Bool := registry.cancelled.contains key

/-- The registry without the mark of a key. -/
def forgetCancelled (registry : Registry π) (key : String) : Registry π :=
  { registry with cancelled := registry.cancelled.filter (· ≠ key) }

/-- The registry with a mark on a key. -/
def markCancelled (registry : Registry π) (key : String) : Registry π :=
  { registry with
    cancelled := if registry.isMarked key then registry.cancelled
      else registry.cancelled ++ [key] }

/-- The registry without a key. -/
def release (registry : Registry π) (key : String) : Registry π :=
  { registry with entries := registry.entries.filter (·.1 ≠ key) }

/-- The registry with a key reserved; nothing if it is in use. -/
def reserve? (registry : Registry π) (key : String) : Option (Registry π) :=
  if registry.contains key then none
  else some ({ registry with entries := registry.entries ++ [(key, none)] }.forgetCancelled key)

/-- Entries with a process under a key. -/
def setProcess (key : String) (process : π) :
    List (String × Option π) → List (String × Option π)
  | [] => [(key, some process)]
  | (other, p) :: rest =>
    if other = key then (key, some process) :: rest else (other, p) :: setProcess key process rest

/-- Where an attempt to attach a process leads. -/
inductive Attachment (π : Type) where
  | attached (registry : Registry π)
  /-- The key was cancelled while the process was started. -/
  | cancelled
  /-- The key has another process. -/
  | inUse

/-- Attaches a process to its key. -/
def attach (registry : Registry π) (key : String) (process : π) : Attachment π :=
  if registry.isMarked key then .cancelled
  else if (registry.process? key).isSome then .inUse
  else .attached { registry with entries := setProcess key process registry.entries }

/-- Takes a key out to cancel it, with its process if it has one; nothing if the key is not in
use. -/
def cancel? (registry : Registry π) (key : String) : Option (Option π × Registry π) :=
  if registry.contains key then
    some (registry.process? key, (registry.release key).markCancelled key)
  else none

/-- The keys that start with some text. -/
def keysFrom (registry : Registry π) (start : String) : List String :=
  registry.keys.filter fun key => start.toList.isPrefixOf key.toList

/-- The registry that a new runner gets: that of another runner, unless nothing is in use there. -/
def handOver (registry : Registry π) : Registry π :=
  if registry.entries.isEmpty then {} else registry

end Registry

end Montage
