import HostScript.Failure.Basic
import HostScript.Numeral.Reader
import HostScript.Value.Text

/-!
# Coercion

How a value becomes an int, a float, a string or a truth value, and how two operands are brought to
one kind. The left operand decides which, but an int that meets a float widens.
-/

namespace HostScript

open Numeral Text

/-- Floats closer than this are equal, and a float closer than this to zero is false. -/
def tolerance : Float := 1e-9

def nearlyEqual (a b : Float) : Bool :=
  (a - b).abs < tolerance

def trueWords : List String := ["true", "yes", "t", "y"]

def falseWords : List String := ["false", "no", "f", "n"]

def boolOfWord? (s : String) : Option Bool :=
  if trueWords.contains s then some true
  else if falseWords.contains s then some false
  else none

namespace Value

/-- A scalar as an int: floats lose their decimals, strings are read, truth values count
one or zero. -/
def int? : Value → Option Int64
  | .int n => some n
  | .float x => some (wholePart x)
  | .str s => int64? s
  | .bool b => some (if b then 1 else 0)
  | _ => none

def float? : Value → Option Float
  | .float x => some x
  | .int n => some (floatOfInt n)
  | .str s => Numeral.float? s
  | .bool b => some (if b then 1.0 else 0.0)
  | _ => none

/-- A scalar as a string: floats have six decimals. -/
def str? : Value → Option String
  | .str s => some s
  | .int n => some (intText n.toInt)
  | .float x => some (fixedText 6 x)
  | .bool b => some (boolean b)
  | _ => none

/-- A scalar as a truth value: numbers are true unless zero, strings must be one of the words. -/
def bool? : Value → Option Bool
  | .bool b => some b
  | .str s => boolOfWord? s
  | .int n => some (n != 0)
  | .float x => some (tolerance ≤ x.abs)
  | _ => none

def toKind? (v : Value) : Kind → Option Value
  | .any => some v
  | .int => v.int?.map .int
  | .float => v.float?.map .float
  | .bool => v.bool?.map .bool
  | .str => v.str?.map .str

end Value

namespace View

def conversionFailure (view : View) (v : Value) (target : Kind) : Failure :=
  .of (.conversion (view.text v) target)

def asInt (view : View) (v : Value) : Except Failure Int64 :=
  ((view.scalar v).int?).elim (.error (view.conversionFailure v .int)) .ok

def asFloat (view : View) (v : Value) : Except Failure Float :=
  ((view.scalar v).float?).elim (.error (view.conversionFailure v .float)) .ok

def asString (view : View) (v : Value) : Except Failure String :=
  ((view.scalar v).str?).elim (.error (view.conversionFailure v .str)) .ok

def asBool (view : View) (v : Value) : Except Failure Bool :=
  ((view.scalar v).bool?).elim (.error (view.conversionFailure v .bool)) .ok

def unify (view : View) (a b : Value) : Except Failure (Value × Value) :=
  let a := view.scalar a
  let b := view.scalar b
  match a, b with
  | .int n, .float _ => .ok (.float (floatOfInt n), b)
  | .float _, _ => return (a, .float (← view.asFloat b))
  | .int _, _ => return (a, .int (← view.asInt b))
  | .str _, _ => return (a, .str (← view.asString b))
  | .bool _, _ => return (a, .bool (← view.asBool b))
  | _, _ => .error (.of (.unsupportedConversion (view.valueType a) (view.valueType b)))

def equals (view : View) (a b : Value) : Except Failure Bool := do
  match ← view.unify a b with
  | (.float x, .float y) => return nearlyEqual x y
  | (a, b) => return a.same b

def cast (view : View) (v : Value) (kind : Kind) (index : Nat) : Except Failure Value :=
  match kind with
  | .any => .ok v
  | kind =>
    ((view.scalar v).toKind? kind).elim (.error (.of (.cast index (view.text v) kind))) .ok

end View

end HostScript
