import HostScript.Failure.Basic
import HostScript.Syntax.Basic

/-!
# Where jumps may stand

`break` and `continue` stand in a loop of the same function. Blocks, conditionals, switches and
statements with handlers are no loops: a jump in them is one of the loop around them. The check
counts the loops around a statement.
-/

namespace HostScript

def misplaced (jump : Jump) (pos : Position) : Failure :=
  (Failure.of (.invalidControl jump)).locate pos

mutual

/-- The first jump of a statement, in the order of the source, that stands in no loop. -/
def Stmt.misplaced? (loops : Nat) : Stmt → Option Failure
  | ⟨form, pos⟩ => form.misplaced? loops pos

def StmtForm.misplaced? (loops : Nat) (pos : Position) : StmtForm → Option Failure
  | .brk => if loops = 0 then some (misplaced .brk pos) else none
  | .cont => if loops = 0 then some (misplaced .cont pos) else none
  | .block body => misplacedIn? loops body
  | .ite _ yes otherwise => (misplacedIn? loops yes).or (misplacedOtherwise? loops otherwise)
  | .forLoop _ _ _ body | .forRange _ _ _ _ body | .whileLoop _ body | .doWhile body _
  | .repeatUntil body _ => misplacedIn? (loops + 1) body
  | .switch _ cases default => (misplacedCase? loops cases).or (misplacedBody? loops default)
  | .tryBlock _ body handler cleanup =>
    ((misplacedIn? loops body).or (misplacedHandler? loops handler)).or
      (misplacedBody? loops cleanup)
  | .expr _ | .ret _ | .empty => none

def misplacedOtherwise? (loops : Nat) : Option Stmt → Option Failure
  | none => none
  | some s => s.misplaced? loops

def misplacedBody? (loops : Nat) : Option (List Stmt) → Option Failure
  | none => none
  | some body => misplacedIn? loops body

def misplacedHandler? (loops : Nat) : Option Handler → Option Failure
  | none => none
  | some ⟨_, body⟩ => misplacedIn? loops body

def misplacedCase? (loops : Nat) : List Case → Option Failure
  | [] => none
  | ⟨_, body, _⟩ :: rest => (misplacedIn? loops body).or (misplacedCase? loops rest)

def misplacedIn? (loops : Nat) : List Stmt → Option Failure
  | [] => none
  | s :: rest => (s.misplaced? loops).or (misplacedIn? loops rest)

end

def Stmt.checkPlacement (s : Stmt) : Except Failure Unit :=
  (s.misplaced? 0).elim (.ok ()) .error

def Declaration.checkPlacement (f : Declaration) : Except Failure Unit :=
  (misplacedIn? 0 f.body).elim (.ok ()) .error

end HostScript
