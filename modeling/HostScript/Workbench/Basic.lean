import HostScript.Object.Host

/-!
# The workbench

A small host with one kind of object for each capability, on which scripts and the library itself
can be tried out. What it is made to do is kept in a log.
-/

namespace HostScript.Workbench

open Numeral

inductive Cell where
  | point (x y : Int64)
  /-- Iterates down to one step above zero; it can be set to fail at a step. -/
  | countdown (limit failAt next : Int64)
  /-- A resource with a name. A `c` in its mode makes setting up fail, an `x` closing, and with a
  `d` there is nothing to set up. -/
  | tracked (name mode : String)
  | box (v : Value)
  /-- A sequence of a length, of which only some items are there; others are missing, or out of
  bounds unless it has holes. -/
  | seq (length : Nat) (items : List Value) (holes indexable : Bool)
  | plain (typeName : String)

inductive Routine where
  | log | trace | sum | list | map | multi | typed | opt | floats | type | fail
  | panic | panicStatic | panicAny
  | point | box | countdown | tracked | plain | function
  | distance (x y : Int64)

abbrev Log := List String

def Cell.typeName : Cell → String
  | .point .. => "point"
  | .countdown .. => "countdown"
  | .tracked _ mode => if mode.toList.contains 'd' then "closer" else "tracked"
  | .box _ => "box"
  | .seq .. => "seq"
  | .plain typeName => typeName

def Cell.describe : Cell → String
  | .countdown _ _ next => "<countdown at " ++ intText next.toInt ++ ">"
  | cell => "<" ++ cell.typeName ++ ">"

def Cell.scalar? : Cell → Option Value
  | .point x y => some (.int (x + y))
  | .box v => some v
  | _ => none

def platform : Platform where
  Cell := Cell
  Code := Routine
  State := Log
  typeName := Cell.typeName
  describe := Cell.describe
  scalar? := Cell.scalar?

def world : World platform := ⟨#[], []⟩

def note {m : Type → Type} [Monad m] [MonadStateOf (World platform) m] (line : String) : m Unit :=
  modify fun w => { w with state := line :: w.state }

end HostScript.Workbench
