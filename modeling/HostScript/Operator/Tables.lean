import HostScript.Failure.Basic
import HostScript.Syntax.Operator
import HostScript.Value.Coercion

/-!
# What operators do on each kind

One table for each kind of operand. An operator that a table leaves out is not defined on that kind.
Ints wrap around, floats compare up to the tolerance, and no operator skips an operand.
-/

namespace HostScript

/-- The number shifted up. Sixty-four places or more leave nothing. -/
def shiftLeft (a amount : Int64) : Except Failure Int64 :=
  if amount < 0 then .error (.of (.negativeShift amount))
  else .ok (if amount < 64 then a <<< amount else 0)

/-- The number shifted down. Sixty-four places or more leave the sign. -/
def shiftRight (a amount : Int64) : Except Failure Int64 :=
  if amount < 0 then .error (.of (.negativeShift amount))
  else .ok (a >>> (if amount < 63 then amount else 63))

def quotient (a b : Int64) : Except Failure Int64 :=
  if b = 0 then .error (.of .divisionByZero) else .ok (a / b)

def modulo (a b : Int64) : Except Failure Int64 :=
  if b = 0 then .error (.of .moduloByZero) else .ok (a % b)

namespace BinaryOp

def onInts (op : BinaryOp) (a b : Int64) : Except Failure (Option Value) :=
  match op with
  | .add => .ok (some (.int (a + b)))
  | .sub => .ok (some (.int (a - b)))
  | .mul => .ok (some (.int (a * b)))
  | .div => (quotient a b).map (some <| .int ·)
  | .mod => (modulo a b).map (some <| .int ·)
  | .eq => .ok (some (.bool (a == b)))
  | .notEq => .ok (some (.bool (a != b)))
  | .lt => .ok (some (.bool (a < b)))
  | .ltEq => .ok (some (.bool (a ≤ b)))
  | .gt => .ok (some (.bool (b < a)))
  | .gtEq => .ok (some (.bool (b ≤ a)))
  | .bitAnd => .ok (some (.int (a &&& b)))
  | .bitOr => .ok (some (.int (a ||| b)))
  | .bitXor => .ok (some (.int (a ^^^ b)))
  | .bitClear => .ok (some (.int (a &&& ~~~b)))
  | .shl => (shiftLeft a b).map (some <| .int ·)
  | .shr => (shiftRight a b).map (some <| .int ·)
  | .and | .or => .ok none

/-- The operator on two floats. Equal floats are neither less nor greater. -/
def onFloats (op : BinaryOp) (a b : Float) : Option Value :=
  match op with
  | .add => some (.float (a + b))
  | .sub => some (.float (a - b))
  | .mul => some (.float (a * b))
  | .div => some (.float (a / b))
  | .mod => some (.float (Numeral.remainder a b))
  | .eq => some (.bool (nearlyEqual a b))
  | .notEq => some (.bool (!nearlyEqual a b))
  | .lt => some (.bool (!nearlyEqual a b && a < b))
  | .ltEq => some (.bool (nearlyEqual a b || a ≤ b))
  | .gt => some (.bool (!nearlyEqual a b && b < a))
  | .gtEq => some (.bool (nearlyEqual a b || b ≤ a))
  | _ => none

def onStrings (op : BinaryOp) (a b : String) : Option Value :=
  match op with
  | .add => some (.str (a ++ b))
  | .eq => some (.bool (a == b))
  | .notEq => some (.bool (a != b))
  | .lt => some (.bool (a < b))
  | .ltEq => some (.bool (!decide (b < a)))
  | .gt => some (.bool (b < a))
  | .gtEq => some (.bool (!decide (a < b)))
  | _ => none

/-- The operator on two truth values, both of which have been computed. -/
def onBools (op : BinaryOp) (a b : Bool) : Option Value :=
  match op with
  | .eq => some (.bool (a == b))
  | .notEq => some (.bool (a != b))
  | .and => some (.bool (a && b))
  | .or => some (.bool (a || b))
  | _ => none

def onUnified (op : BinaryOp) : Value → Value → Except Failure (Option Value)
  | .float a, .float b => .ok (op.onFloats a b)
  | .int a, .int b => op.onInts a b
  | .str a, .str b => .ok (op.onStrings a b)
  | .bool a, .bool b => .ok (op.onBools a b)
  | _, _ => .ok none

end BinaryOp

def UnaryOp.onScalar : UnaryOp → Value → Option Value
  | .not, .bool b => some (.bool !b)
  | .not, .int n => some (.bool (n == 0))
  | .neg, .int n => some (.int (-n))
  | .neg, .float x => some (.float (-x))
  | .neg, .bool b => some (.bool !b)
  | _, _ => none

end HostScript
