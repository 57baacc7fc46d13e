import HostScript.Exec.Evaluator
import HostScript.Object.Cursor

/-!
# Loops and ranges

All loops are one: a start, a condition before the body, the body, a step, and a condition after it,
most of them missing. The loop goes on while its conditions have the wanted truth value. `continue`
still takes the step and the condition after it, `break` and `return` take neither.

A range runs its body for each key and element of a value. It asks for the next element only when
the body is about to receive it.
-/

namespace HostScript

variable {P : Platform}

structure Loop where
  init : Option Expr
  pre : Option Expr
  body : List Stmt
  step : Option Expr
  post : Option Expr
  wanted : Bool

structure Range where
  key : Option String
  value : Option String
  source : Position
  body : List Stmt

namespace Evaluator

def holds (E : Evaluator P) (wanted : Bool) : Option Expr → Exec P Bool
  | none => return true
  | some cond => return (← E.condition cond) == wanted

def goRound (E : Evaluator P) (loop : Loop) : Nat → Exec P Signal
  | 0 => throw .outOfFuel
  | n + 1 => do
    if ← E.holds loop.wanted loop.pre then
      match ← E.block loop.body with
      | .brk => return .normal
      | .ret v => return .ret v
      | .normal | .cont =>
        E.discard loop.step
        if ← E.holds loop.wanted loop.post then E.goRound loop n else return .normal
    else return .normal

def loop (E : Evaluator P) (loop : Loop) : Exec P Signal :=
  Exec.withScope do
    E.discard loop.init
    E.goRound loop E.rounds

/-- Gives a variable of a range its next value; one that no scope binds is bound in the scope
of the range. -/
def setVariable (name : Option String) (v : Value) : Exec P Unit :=
  match name with
  | some name => Exec.scoping (·.store name v)
  | none => return ()

def declareVariable : Option String → Exec P Unit
  | some name => Exec.scoping (·.declare name)
  | none => return ()

def heard : Cursor → Except Halt (Option ((Value × Value) × Cursor)) → List (Event P)
  | .iterator object _, .ok (some ((key, v), _)) => [.delivered object key v]
  | .iterator object _, _ => [.stopped object]
  | _, _ => []

def advance (prog : Program P) (cursor : Cursor) :
    Exec P (Option ((Value × Value) × Cursor)) :=
  (Exec.act (cursor.next? prog.host)).noting (heard cursor)

def walk (E : Evaluator P) (prog : Program P) (range : Range) : Nat → Cursor → Exec P Signal
  | 0, _ => throw .outOfFuel
  | n + 1, cursor => do
    match ← Exec.located range.source (advance prog cursor) with
    | none => return .normal
    | some ((key, v), cursor) =>
      setVariable range.key key
      setVariable range.value v
      match ← E.block range.body with
      | .brk => return .normal
      | .ret v => return .ret v
      | .normal | .cont => E.walk prog range n cursor

def range (E : Evaluator P) (prog : Program P) (key value : Option String) (declare : Bool)
    (source : Expr) (body : List Stmt) : Exec P Signal := do
  let range : Range := ⟨key, value, source.pos, body⟩
  let v ← E.value source "range"
  let cursor ← Exec.located source.pos do
    Exec.ofExcept (Cursor.start prog.host (← Exec.world) v)
  Exec.withScope do
    if declare then
      declareVariable key
      declareVariable value
    E.walk prog range E.rounds cursor

end Evaluator

end HostScript
