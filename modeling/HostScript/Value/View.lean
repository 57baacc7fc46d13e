import HostScript.Value.Basic

/-!
# Seeing through values

Operators and coercions work on scalars. They look through names, and through objects that stand for
a scalar; of an object they see no more than what a `View` shows.
-/

namespace HostScript

/-- What can be seen of the objects behind references: how many there are, the value that one stands
for, how its type is called, its text, and its structure if that is shown. -/
structure View where
  size : Nat
  scalar? : Address → Option Value
  typeName : Address → String
  describe : Address → String
  dump? : Address → Option String

namespace View

def scalarWithin (view : View) : Nat → Value → Value
  | 0, v => v.unwrapped
  | n + 1, v =>
    match v.unwrapped with
    | .ref r =>
      match view.scalar? r with
      | some s => view.scalarWithin n s
      | none => .ref r
    | s => s

/-- The value that operators and coercions take a value for. No chain of objects that ends is longer
than there are objects. -/
def scalar (view : View) (v : Value) : Value :=
  view.scalarWithin view.size v

def valueType (view : View) : Value → String
  | .nil => "nil"
  | .bool _ => "bool"
  | .int _ => "int"
  | .float _ => "float"
  | .str _ => "string"
  | .pair .. => "keyvalue"
  | .ref r => view.typeName r

end View

end HostScript
