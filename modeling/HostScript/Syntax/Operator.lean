/-!
# Operators

The operators of expressions and assignments. The calculator looks them up by symbol.
-/

namespace HostScript

inductive BinaryOp where
  | add | sub | mul | div | mod
  | eq | notEq | lt | ltEq | gt | gtEq
  | and | or
  | bitAnd | bitOr | bitXor | bitClear | shl | shr
  deriving DecidableEq, Repr

inductive UnaryOp where
  | neg | not
  deriving DecidableEq, Repr

inductive AssignOp where
  /-- Updates the nearest binding and declares a local name if there is none. -/
  | set
  /-- Always declares in the current scope. -/
  | declare
  | compound (op : BinaryOp)
  deriving DecidableEq, Repr

namespace BinaryOp

def all : List BinaryOp :=
  [.add, .sub, .mul, .div, .mod, .eq, .notEq, .lt, .ltEq, .gt, .gtEq, .and, .or,
    .bitAnd, .bitOr, .bitXor, .bitClear, .shl, .shr]

def symbol : BinaryOp → String
  | .add => "+"
  | .sub => "-"
  | .mul => "*"
  | .div => "/"
  | .mod => "%"
  | .eq => "=="
  | .notEq => "!="
  | .lt => "<"
  | .ltEq => "<="
  | .gt => ">"
  | .gtEq => ">="
  | .and => "&&"
  | .or => "||"
  | .bitAnd => "&"
  | .bitOr => "|"
  | .bitXor => "^"
  | .bitClear => "&^"
  | .shl => "<<"
  | .shr => ">>"

def ofSymbol? (symbol : String) : Option BinaryOp :=
  all.find? fun op => op.symbol == symbol

end BinaryOp

namespace UnaryOp

def symbol : UnaryOp → String
  | .neg => "-"
  | .not => "!"

def ofSymbol? (symbol : String) : Option UnaryOp :=
  [neg, not].find? fun op => op.symbol == symbol

end UnaryOp

def AssignOp.symbol : AssignOp → String
  | .set => "="
  | .declare => ":="
  | .compound op => op.symbol ++ "="

end HostScript
