import HostScript.Syntax.Basic

/-!
# Equality of syntax trees

Two trees are the same if all their parts are, positions included. Floats are compared as numbers,
so a tree that holds a NaN differs from itself.
-/

namespace HostScript

mutual

def Expr.same : Expr → Expr → Bool
  | ⟨form, pos⟩, ⟨form', pos'⟩ => form.same form' && pos == pos'

/-- Whether two expressions are the same but for their own positions. -/
def ExprForm.same : ExprForm → ExprForm → Bool
  | .assign target op value, .assign target' op' value' =>
    target.same target' && op == op' && value.same value'
  | .ternary cond yes no, .ternary cond' yes' no' =>
    cond.same cond' && yes.same yes' && no.same no'
  | .binary first rest, .binary first' rest' => first.same first' && sameOperands rest rest'
  | .unary op operand, .unary op' operand' => op == op' && operand.same operand'
  | .int n, .int n' => n == n'
  | .float x, .float x' => x == x'
  | .str s, .str s' => s == s'
  | .bool b, .bool b' => b == b'
  | .null, .null => true
  | .path path, .path path' => path.same path'
  | .incDec target increment before, .incDec target' increment' before' =>
    target.same target' && increment == increment' && before == before'
  | .paren inner, .paren inner' => inner.same inner'
  | .call call, .call call' => call.same call'
  | .keyValue key value, .keyValue key' value' => key == key' && value.same value'
  | _, _ => false

def Call.same : Call → Call → Bool
  | ⟨name, args, spread, pos⟩, ⟨name', args', spread', pos'⟩ =>
    name == name' && sameExprs args args' && spread == spread' && pos == pos'

def Path.same : Path → Path → Bool
  | ⟨segments⟩, ⟨segments'⟩ => sameSegments segments segments'

def sameOperands : List (BinaryOp × Expr) → List (BinaryOp × Expr) → Bool
  | [], [] => true
  | (op, e) :: rest, (op', e') :: rest' => op == op' && e.same e' && sameOperands rest rest'
  | _, _ => false

def sameSegments : List Segment → List Segment → Bool
  | [], [] => true
  | ⟨name, index⟩ :: rest, ⟨name', index'⟩ :: rest' =>
    name == name' && sameExprs index index' && sameSegments rest rest'
  | _, _ => false

def sameExprs : List Expr → List Expr → Bool
  | [], [] => true
  | e :: rest, e' :: rest' => e.same e' && sameExprs rest rest'
  | _, _ => false

end

def sameOptional : Option Expr → Option Expr → Bool
  | none, none => true
  | some e, some e' => e.same e'
  | _, _ => false

mutual

def Stmt.same : Stmt → Stmt → Bool
  | ⟨form, pos⟩, ⟨form', pos'⟩ => form.same form' && pos == pos'

def StmtForm.same : StmtForm → StmtForm → Bool
  | .block body, .block body' => sameStmts body body'
  | .expr e, .expr e' => e.same e'
  | .ite cond yes otherwise, .ite cond' yes' otherwise' =>
    cond.same cond' && sameStmts yes yes' && sameOtherwise otherwise otherwise'
  | .forLoop init cond step body, .forLoop init' cond' step' body' =>
    sameOptional init init' && sameOptional cond cond' && sameOptional step step'
      && sameStmts body body'
  | .forRange key value declare source body, .forRange key' value' declare' source' body' =>
    key == key' && value == value' && declare == declare' && source.same source'
      && sameStmts body body'
  | .whileLoop cond body, .whileLoop cond' body' => cond.same cond' && sameStmts body body'
  | .doWhile body cond, .doWhile body' cond' => sameStmts body body' && cond.same cond'
  | .repeatUntil body cond, .repeatUntil body' cond' => sameStmts body body' && cond.same cond'
  | .ret value, .ret value' => sameOptional value value'
  | .brk, .brk => true
  | .cont, .cont => true
  | .switch subject cases default, .switch subject' cases' default' =>
    sameOptional subject subject' && sameCases cases cases' && sameBody default default'
  | .tryBlock resources body handler cleanup, .tryBlock resources' body' handler' cleanup' =>
    sameExprs resources resources' && sameStmts body body' && sameHandler handler handler'
      && sameBody cleanup cleanup'
  | .empty, .empty => true
  | _, _ => false

def sameOtherwise : Option Stmt → Option Stmt → Bool
  | none, none => true
  | some s, some s' => s.same s'
  | _, _ => false

def sameBody : Option (List Stmt) → Option (List Stmt) → Bool
  | none, none => true
  | some body, some body' => sameStmts body body'
  | _, _ => false

def sameHandler : Option Handler → Option Handler → Bool
  | none, none => true
  | some ⟨name, body⟩, some ⟨name', body'⟩ => name == name' && sameStmts body body'
  | _, _ => false

def sameCases : List Case → List Case → Bool
  | [], [] => true
  | ⟨values, body, pos⟩ :: rest, ⟨values', body', pos'⟩ :: rest' =>
    sameExprs values values' && sameStmts body body' && pos == pos' && sameCases rest rest'
  | _, _ => false

def sameStmts : List Stmt → List Stmt → Bool
  | [], [] => true
  | s :: rest, s' :: rest' => s.same s' && sameStmts rest rest'
  | _, _ => false

end

end HostScript
