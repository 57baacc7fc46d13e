import HostScript.Exec.Expression
import HostScript.Exec.Iteration
import HostScript.Exec.Protection
import HostScript.Exec.Selection

/-!
# Statements

What each statement does, in terms of its parts, and the evaluator that ties the knot: it evaluates
the parts of a node with one step less than the node itself.
-/

namespace HostScript

variable {P : Platform}

namespace Evaluator

def stmtForm (E : Evaluator P) (prog : Program P) : StmtForm → Exec P Signal
  | .block body => E.block body
  | .expr e => do
    let _ ← E.isolated e
    return .normal
  | .ite cond yes otherwise => E.conditional cond yes otherwise
  | .forLoop init cond step body => E.loop ⟨init, cond, body, step, none, true⟩
  | .whileLoop cond body => E.loop ⟨none, some cond, body, none, none, true⟩
  | .doWhile body cond => E.loop ⟨none, none, body, none, some cond, true⟩
  | .repeatUntil body cond => E.loop ⟨none, none, body, none, some cond, false⟩
  | .forRange key value declare source body => E.range prog key value declare source body
  | .ret (some e) => return .ret (← E.value e "return")
  | .ret none => return .ret .nil
  | .brk => return .brk
  | .cont => return .cont
  | .switch subject cases default => E.switch subject cases default
  | .tryBlock resources body handler cleanup => E.tryBlock prog resources body handler cleanup
  | .empty => return .normal

def execStmt (E : Evaluator P) (prog : Program P) (s : Stmt) : Exec P Signal :=
  Exec.located s.pos (E.stmtForm prog s.form)

end Evaluator

namespace Program

mutual

def evalExpr (prog : Program P) : Nat → Expr → Exec P Unit
  | 0, _ => throw .outOfFuel
  | n + 1, e => Evaluator.evalExpr ⟨n, prog.evalExpr n, prog.execStmt n⟩ prog e

def execStmt (prog : Program P) : Nat → Stmt → Exec P Signal
  | 0, _ => throw .outOfFuel
  | n + 1, s => Evaluator.execStmt ⟨n, prog.evalExpr n, prog.execStmt n⟩ prog s

end

/-- The evaluator of a program that takes at most so many steps into the depth of a run, and goes
round each loop at most so often. -/
def evaluator (prog : Program P) (fuel : Nat) : Evaluator P :=
  ⟨fuel, prog.evalExpr fuel, prog.execStmt fuel⟩

end Program

end HostScript
