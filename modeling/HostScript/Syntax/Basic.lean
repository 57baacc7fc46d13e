import HostScript.Source.Position
import HostScript.Syntax.Operator

/-!
# Scripts

The syntax trees of scripts. A node is what it is and where it stands; two nodes of one shape at
different positions are different nodes.
-/

namespace HostScript

mutual

structure Expr where
  form : ExprForm
  pos : Position

inductive ExprForm where
  | assign (target : Path) (op : AssignOp) (value : Expr)
  | ternary (cond yes no : Expr)
  /-- A chain `first op₁ e₁ op₂ e₂ …` of one precedence, applied from left to right. -/
  | binary (first : Expr) (rest : List (BinaryOp × Expr))
  | unary (op : UnaryOp) (operand : Expr)
  | int (n : Int64)
  | float (x : Float)
  | str (s : String)
  | bool (b : Bool)
  | null
  | path (path : Path)
  /-- `++x`, `x++`, `--x` or `x--`; the value is the one after the step if the sign is `before`. -/
  | incDec (target : Path) (increment before : Bool)
  | paren (inner : Expr)
  | call (call : Call)
  | keyValue (key : String) (value : Expr)

/-- A call of a possibly dotted name. With `spread` the elements of the last argument
take its place. -/
structure Call where
  name : String
  args : List Expr
  spread : Bool
  pos : Position

structure Path where
  segments : List Segment

structure Segment where
  name : String
  index : List Expr

end

mutual

structure Stmt where
  form : StmtForm
  pos : Position

inductive StmtForm where
  | block (body : List Stmt)
  | expr (e : Expr)
  /-- `otherwise` is a block or another conditional. -/
  | ite (cond : Expr) (yes : List Stmt) (otherwise : Option Stmt)
  | forLoop (init cond step : Option Expr) (body : List Stmt)
  /-- `for key, value := range source`, or with `=` unless `declare`. -/
  | forRange (key value : Option String) (declare : Bool) (source : Expr) (body : List Stmt)
  | whileLoop (cond : Expr) (body : List Stmt)
  | doWhile (body : List Stmt) (cond : Expr)
  | repeatUntil (body : List Stmt) (cond : Expr)
  | ret (value : Option Expr)
  | brk
  | cont
  /-- Without a subject a case is a condition. -/
  | switch (subject : Option Expr) (cases : List Case) (default : Option (List Stmt))
  /-- `try (resources) { body } catch … finally { cleanup }`. -/
  | tryBlock (resources : List Expr) (body : List Stmt) (handler : Option Handler)
      (cleanup : Option (List Stmt))
  | empty

structure Case where
  values : List Expr
  body : List Stmt
  pos : Position

structure Handler where
  name : String
  body : List Stmt

end

structure Declaration where
  name : String
  params : List String
  body : List Stmt
  pos : Position

def isPrivateName (name : String) : Bool :=
  name.toList.head? == some '_'

def Declaration.isPrivate (f : Declaration) : Bool :=
  isPrivateName f.name

structure Script where
  functions : List Declaration

def Script.merge (s t : Script) : Script :=
  ⟨s.functions ++ t.functions⟩

end HostScript
