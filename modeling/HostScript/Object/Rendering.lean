import HostScript.Object.View

/-!
# Rendering under locks

Each container has a lock, which is held while the texts of its elements are worked out. A container
whose lock is held already is abbreviated, so that nothing waits for itself. What
`World.describeWithin` says by carrying the containers that are open is here what the locks say.
-/

namespace HostScript

structure Heap (P : Platform) where
  world : World P
  locked : List Address

namespace Heap

variable {P : Platform}

def lock (heap : Heap P) (r : Address) : Heap P :=
  { heap with locked := r :: heap.locked }

def unlock (heap : Heap P) (r : Address) : Heap P :=
  { heap with locked := heap.locked.erase r }

@[simp] theorem unlock_lock (heap : Heap P) (r : Address) : (heap.lock r).unlock r = heap := by
  simp [lock, unlock]

end Heap

/-- Work on a text that goes through a heap. It comes to nothing if it is not over after the steps
that it is given. -/
abbrev Rendering (P : Platform) := StateT (Heap P) Option String

namespace Rendering

variable {P : Platform}

def tryLock (r : Address) : StateT (Heap P) Option Bool := do
  if r ∈ (← get).locked then return false
  else
    modify (·.lock r)
    return true

/-- The text that is worked out while the lock of a container is held, or what stands for it if the
lock cannot be taken. -/
def underLock (r : Address) (short : String) (x : Rendering P) : Rendering P := do
  if ← tryLock r then
    let text ← x
    modify (·.unlock r)
    return text
  else return short

def ofValue (object : Address → Rendering P) : Value → Rendering P
  | .pair key v => return key ++ ": " ++ (← ofValue object v)
  | .ref r => object r
  | v => return v.text fun _ => ""

def ofObject : Nat → Address → Rendering P
  | 0, _ => failure
  | n + 1, r => do
    match (← get).world.object? r with
    | some (.list items) =>
      underLock r "[...]" do
        let parts ← items.toList.mapM (ofValue (ofObject n))
        return "[" ++ Text.commaSeparated parts ++ "]"
    | some (.map entries) =>
      underLock r "\x7b...\x7d" do
        let parts ← entries.pairs.mapM fun (key, v) =>
          return key ++ ": " ++ (← ofValue (ofObject n) v)
        return "\x7b" ++ Text.commaSeparated parts ++ "\x7d"
    | some o => return o.text fun _ => ""
    | none => return "<nothing>"

end Rendering

end HostScript
