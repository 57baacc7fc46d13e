import HostScript.Exec.Call
import HostScript.Exec.Place

/-!
# Expressions

What each expression does, in terms of its parts. A chain of operators applies each as soon as its
right operand is there, and no operator keeps an operand from being evaluated. A failure stands at
the innermost expression that it comes from.
-/

namespace HostScript.Evaluator

variable {P : Platform}

def chain (E : Evaluator P) : List (BinaryOp × Expr) → Exec P Unit
  | [] => return ()
  | (op, e) :: rest => do
    E.operand e
    Exec.binary op
    E.chain rest

def exprForm (E : Evaluator P) (prog : Program P) : ExprForm → Exec P Unit
  | .int n => Exec.push (.int n)
  | .float x => Exec.push (.float x)
  | .str s => Exec.push (.str s)
  | .bool b => Exec.push (.bool b)
  | .null => Exec.push .nil
  | .paren inner => E.expr inner
  | .path path => do Exec.push (← E.read prog path)
  | .unary op operand => do
    E.operand operand
    Exec.unary op
  | .binary first rest => do
    E.operand first
    E.chain rest
  | .ternary cond yes no => do
    if ← E.condition cond then E.expr yes else E.expr no
  | .assign target op value => do Exec.push (← E.assign prog target op value)
  | .incDec target increment before => do Exec.push (← E.incDec prog target increment before)
  | .call call => do
    match ← E.call prog call with
    | some v => Exec.push v
    | none => return ()
  | .keyValue key value => do Exec.push (.pair key (← E.value value "key/value"))

def evalExpr (E : Evaluator P) (prog : Program P) (e : Expr) : Exec P Unit :=
  Exec.located e.pos (E.exprForm prog e.form)

end HostScript.Evaluator
