import HostScript.Numeral.Decimal
import HostScript.Syntax.Basic
import HostScript.Text.Layout

/-!
# Syntax trees as text

Every node on one line, with its structure: an expression or a statement shows what it is and then
its position.
-/

namespace HostScript

open Numeral Text

namespace BinaryOp

def dump : BinaryOp → String
  | .add => "Add"
  | .sub => "Sub"
  | .mul => "Mul"
  | .div => "Div"
  | .mod => "Mod"
  | .eq => "Eq"
  | .notEq => "NotEq"
  | .lt => "Lt"
  | .ltEq => "LtEq"
  | .gt => "Gt"
  | .gtEq => "GtEq"
  | .and => "And"
  | .or => "Or"
  | .bitAnd => "BitAnd"
  | .bitOr => "BitOr"
  | .bitXor => "BitXor"
  | .bitClear => "BitClear"
  | .shl => "Shl"
  | .shr => "Shr"

end BinaryOp

namespace UnaryOp

def dump : UnaryOp → String
  | .neg => "Neg"
  | .not => "Not"

end UnaryOp

namespace AssignOp

def dump : AssignOp → String
  | .set => "Set"
  | .declare => "Declare"
  | .compound op => tuple "Compound" [op.dump]

end AssignOp

mutual

def Expr.dump : Expr → String
  | ⟨form, pos⟩ => form.dump ++ " @ " ++ pos.text

def ExprForm.dump : ExprForm → String
  | .assign target op value =>
    record "Assign" [("target", target.dump), ("op", op.dump), ("value", value.dump)]
  | .ternary cond yes no =>
    record "Ternary" [("cond", cond.dump), ("then", yes.dump), ("otherwise", no.dump)]
  | .binary first rest =>
    record "Binary" [("first", first.dump), ("rest", sequence (dumpOperands rest))]
  | .unary op operand => record "Unary" [("op", op.dump), ("operand", operand.dump)]
  | .int n => tuple "Int" [intText n.toInt]
  | .float x => tuple "Float" [literalText x]
  | .str s => tuple "Str" [quote s]
  | .bool b => tuple "Bool" [boolean b]
  | .null => "Null"
  | .path path => tuple "Path" [path.dump]
  | .incDec target increment before =>
    record "IncDec"
      [("target", target.dump), ("increment", boolean increment), ("prefix", boolean before)]
  | .paren inner => tuple "Paren" [inner.dump]
  | .call call => tuple "Call" [call.dump]
  | .keyValue key value => record "KeyValue" [("key", quote key), ("value", value.dump)]

def Call.dump : Call → String
  | ⟨name, args, spread, pos⟩ =>
    record "CallExpr"
      [("name", quote name), ("args", sequence (dumpExprs args)), ("spread", boolean spread),
        ("pos", pos.text)]

def Path.dump : Path → String
  | ⟨segments⟩ => record "Path" [("segments", sequence (dumpSegments segments))]

def dumpOperands : List (BinaryOp × Expr) → List String
  | [] => []
  | (op, e) :: rest => tuple "" [op.dump, e.dump] :: dumpOperands rest

def dumpSegments : List Segment → List String
  | [] => []
  | ⟨name, index⟩ :: rest =>
    record "Segment" [("name", quote name), ("index", sequence (dumpExprs index))]
      :: dumpSegments rest

def dumpExprs : List Expr → List String
  | [] => []
  | e :: rest => e.dump :: dumpExprs rest

end

def dumpOptional (e : Option Expr) : String :=
  optional (e.map Expr.dump)

mutual

def Stmt.dump : Stmt → String
  | ⟨form, pos⟩ => form.dump ++ " @ " ++ pos.text

def StmtForm.dump : StmtForm → String
  | .block body => tuple "Block" [sequence (dumpStmts body)]
  | .expr e => tuple "Expr" [e.dump]
  | .ite cond yes otherwise =>
    record "If"
      [("cond", cond.dump), ("then", sequence (dumpStmts yes)),
        ("otherwise", optional (dumpOtherwise otherwise))]
  | .forLoop init cond step body =>
    record "For"
      [("init", dumpOptional init), ("cond", dumpOptional cond), ("step", dumpOptional step),
        ("body", sequence (dumpStmts body))]
  | .forRange key value declare source body =>
    record "ForRange"
      [("key", optional (key.map quote)), ("value", optional (value.map quote)),
        ("declare", boolean declare), ("source", source.dump),
        ("body", sequence (dumpStmts body))]
  | .whileLoop cond body =>
    record "While" [("cond", cond.dump), ("body", sequence (dumpStmts body))]
  | .doWhile body cond =>
    record "DoWhile" [("body", sequence (dumpStmts body)), ("cond", cond.dump)]
  | .repeatUntil body cond =>
    record "RepeatUntil" [("body", sequence (dumpStmts body)), ("cond", cond.dump)]
  | .ret value => tuple "Return" [dumpOptional value]
  | .brk => "Break"
  | .cont => "Continue"
  | .switch subject cases default =>
    record "Switch"
      [("subject", dumpOptional subject), ("cases", sequence (dumpCases cases)),
        ("default", dumpBody default)]
  | .tryBlock resources body handler cleanup =>
    record "Try"
      [("resources", sequence (dumpExprs resources)), ("body", sequence (dumpStmts body)),
        ("catch", optional (dumpHandler handler)), ("finally", dumpBody cleanup)]
  | .empty => "Empty"

def dumpOtherwise : Option Stmt → Option String
  | none => none
  | some s => some s.dump

def dumpBody : Option (List Stmt) → String
  | none => optional none
  | some body => optional (some (sequence (dumpStmts body)))

def dumpHandler : Option Handler → Option String
  | none => none
  | some ⟨name, body⟩ =>
    some (record "CatchClause" [("name", quote name), ("body", sequence (dumpStmts body))])

def dumpCases : List Case → List String
  | [] => []
  | ⟨values, body, pos⟩ :: rest =>
    record "SwitchCase"
        [("values", sequence (dumpExprs values)), ("body", sequence (dumpStmts body)),
          ("pos", pos.text)]
      :: dumpCases rest

def dumpStmts : List Stmt → List String
  | [] => []
  | s :: rest => s.dump :: dumpStmts rest

end

def Declaration.dump (f : Declaration) : String :=
  record "FuncDecl"
    [("name", quote f.name), ("params", sequence (f.params.map quote)),
      ("body", sequence (dumpStmts f.body)), ("pos", f.pos.text)]

def Script.dump (s : Script) : String :=
  record "Script" [("functions", sequence (s.functions.map Declaration.dump))]

end HostScript
