import HostScript.Exec.Reference

/-!
# Evaluating parts

Every construct is evaluated in terms of how its parts are. An expression puts its value on the
operand stack, or nothing if it is a call without a result; what the construct itself consumes is
evaluated on a stack of its own.
-/

namespace HostScript

/-- How the parts of a construct are evaluated, and how often a loop may go round. -/
structure Evaluator (P : Platform) where
  rounds : Nat
  expr : Expr → Exec P Unit
  stmt : Stmt → Exec P Signal

namespace Evaluator

variable {P : Platform}

def isolated (E : Evaluator P) (e : Expr) : Exec P (Option Value) :=
  Exec.top (E.expr e)

/-- Evaluates an expression that has to have a value, for the use that is named. -/
def value (E : Evaluator P) (e : Expr) (what : String) : Exec P Value := do
  match ← E.isolated e with
  | some v => return v
  | none => Exec.located e.pos (Exec.fail (.noResult what))

def condition (E : Evaluator P) (e : Expr) : Exec P Bool := do
  let v ← E.value e "condition"
  Exec.located e.pos do Exec.ofExcept ((← Exec.view).asBool v)

def operand (E : Evaluator P) (e : Expr) : Exec P Unit :=
  Exec.operand e.pos (E.expr e)

def discard (E : Evaluator P) : Option Expr → Exec P Unit
  | none => return ()
  | some e => do
    let _ ← E.isolated e

def stmts (E : Evaluator P) : List Stmt → Exec P Signal
  | [] => return .normal
  | s :: rest => do
    match ← E.stmt s with
    | .normal => E.stmts rest
    | signal => return signal

def block (E : Evaluator P) (body : List Stmt) : Exec P Signal :=
  Exec.withScope (E.stmts body)

end Evaluator

end HostScript
