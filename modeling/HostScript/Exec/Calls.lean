import HostScript.Failure.Basic

/-!
# Calls in progress

The calls of script functions that have not returned. A limit on their number keeps scripts from
recursing without end; a call beyond it fails and leaves the stack alone.
-/

namespace HostScript

/-- The calls in progress, the most recent first, and how many there may be. -/
structure Calls where
  frames : List Frame
  limit : Option Nat

namespace Calls

def empty (limit : Option Nat) : Calls := ⟨[], limit⟩

def depth (calls : Calls) : Nat :=
  calls.frames.length

def exhausted? (calls : Calls) : Option Nat :=
  calls.limit.filter fun limit => decide (limit ≤ calls.depth)

def push (calls : Calls) (frame : Frame) : Except Failure Calls :=
  match calls.exhausted? with
  | some limit => .error (.of (.stackOverflow limit))
  | none => .ok { calls with frames := frame :: calls.frames }

def pop (calls : Calls) : Calls :=
  { calls with frames := calls.frames.tail }

def backtrace (calls : Calls) : Backtrace :=
  calls.frames

def attach (calls : Calls) (e : Failure) : Failure :=
  if calls.frames.isEmpty then e else e.through calls.backtrace

end Calls

end HostScript
