import HostScript.Operator.Tables

/-!
# Applying operators

A binary operator brings its operands to one kind and looks itself up in the table of that kind;
what no table answers is unsupported, and the message names the types of the scalars given.
-/

namespace HostScript.View

def applyUnary (view : View) (op : UnaryOp) (v : Value) : Except Failure Value :=
  let v := view.scalar v
  (op.onScalar v).elim (.error (.of (.unsupportedUnary op.symbol (view.valueType v)))) .ok

def applyBinary (view : View) (op : BinaryOp) (a b : Value) : Except Failure Value := do
  let (x, y) ← view.unify a b
  match ← op.onUnified x y with
  | some v => return v
  | none =>
    throw (.of (.unsupportedBinary (view.valueType (view.scalar a)) op.symbol
      (view.valueType (view.scalar b))))

def unaryNamed (view : View) (name : String) (v : Value) : Except Failure Value :=
  match UnaryOp.ofSymbol? name with
  | some op => view.applyUnary op v
  | none => .error (.of (.undefinedOperation name))

def binaryNamed (view : View) (name : String) (a b : Value) : Except Failure Value :=
  match BinaryOp.ofSymbol? name with
  | some op => view.applyBinary op a b
  | none => .error (.of (.undefinedOperation name))

end HostScript.View
