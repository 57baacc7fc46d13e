import HostScript.Exec.Evaluator

/-!
# Conditionals and switches

A conditional runs one of two branches. A switch runs the body of the first case that matches: the
values of its cases are evaluated in order up to the first that equals the subject, or without a
subject up to the first that is true. A value that cannot be compared, or is no truth value, does
not match.
-/

namespace HostScript.Evaluator

variable {P : Platform}

def conditional (E : Evaluator P) (cond : Expr) (yes : List Stmt) (otherwise : Option Stmt) :
    Exec P Signal := do
  if ← E.condition cond then E.block yes
  else match otherwise with
    | some s => E.stmt s
    | none => return .normal

def caseMatches (view : View) (subject : Option Value) (candidate : Value) : Bool :=
  let answer := match subject with
    | some v => view.equals v candidate
    | none => view.asBool candidate
  answer.toOption.getD false

/-- Whether one of the values of a case matches; those after it are not evaluated. -/
def anyMatches (E : Evaluator P) (subject : Option Value) : List Expr → Exec P Bool
  | [] => return false
  | e :: rest => do
    let v ← E.value e "case"
    if caseMatches (← Exec.view) subject v then return true else E.anyMatches subject rest

def firstMatch (E : Evaluator P) (subject : Option Value) :
    List Case → Exec P (Option Case)
  | [] => return none
  | c :: rest => do
    if ← E.anyMatches subject c.values then return some c else E.firstMatch subject rest

def subject (E : Evaluator P) : Option Expr → Exec P (Option Value)
  | some e => return some (← E.value e "switch")
  | none => return none

def switch (E : Evaluator P) (subject : Option Expr) (cases : List Case)
    (default : Option (List Stmt)) : Exec P Signal := do
  let subject ← E.subject subject
  match ← E.firstMatch subject cases, default with
  | some c, _ => Exec.located c.pos (E.block c.body)
  | none, some body => E.block body
  | none, none => return .normal

end HostScript.Evaluator
