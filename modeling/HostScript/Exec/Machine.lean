import HostScript.Calculator.Basic
import HostScript.Exec.Calls
import HostScript.Names.Functions
import HostScript.Names.Registry
import HostScript.Names.Scopes
import HostScript.Object.Host

/-!
# The machine

What a running script reads and changes, and the ways in which a part of it can end. The machine
keeps a journal of what happens in a run, in the order in which it happens.
-/

namespace HostScript

/-- What a script finds when it starts and cannot change. -/
structure Program (P : Platform) where
  host : Host P
  functions : Functions
  registry : Registry P

inductive Event (P : Platform) where
  /-- A script function starts while another runs or none, its own call now the most recent
  one in progress. -/
  | entered (f : Declaration) (caller : Option Declaration) (calls : List Frame)
  /-- A script function is left, perhaps by a failure, with its call still in progress and its scope
  still on the stack. -/
  | left (f : Declaration) (calls : List Frame) (scopes : List Handle) (failure : Option Failure)
  /-- A call is one too many. -/
  | refused (f : Declaration)
  /-- A block is left, with its scope still on the stack. -/
  | leftBlock (scopes : List Handle)
  | invoked (f : Callable P) (args : List Value)
  | faulted (e : Failure)
  | created (object : Address)
  | closed (object : Address)
  /-- What was set up as a resource would be closed, but is a resource no more. -/
  | lapsed (object : Address)
  /-- An iterating object gives an element, which the body of a range receives with its number. -/
  | delivered (object : Address) (key v : Value)
  /-- An iterating object, asked for an element, has none or fails. -/
  | stopped (object : Address)

structure Machine (P : Platform) where
  operands : Operands
  scopes : Scopes
  calls : Calls
  current : Option Declaration
  world : World P
  /-- What has happened, the latest first. -/
  journal : List (Event P)

inductive Halt where
  | failed (e : Failure)
  | outOfFuel

def Halt.failure? : Halt → Option Failure
  | .failed e => some e
  | .outOfFuel => none

inductive Signal where
  | normal | brk | cont
  | ret (v : Value)

end HostScript
