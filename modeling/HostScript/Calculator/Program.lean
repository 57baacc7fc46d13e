import HostScript.Calculator.Basic

/-!
# Stack programs

Short programs for the calculator, and the routine `between` written as one.
-/

namespace HostScript

inductive Instruction where
  | push (v : Value)
  | swap | dup | drop | dupSecond | rot
  | unary (name : String)
  | binary (name : String)

namespace Calculator

def perform (view : View) : Instruction → Calculator Unit
  | .push v => push v
  | .swap => swap
  | .dup => dup
  | .drop => drop
  | .dupSecond => dupSecond
  | .rot => rot
  | .unary name => unary view name
  | .binary name => binary view name

def process (view : View) : List Instruction → Calculator Unit
  | [] => pure ()
  | i :: rest => do
    perform view i
    process view rest

/-- Leaves on the stack whether a value is at least `low` and at most `high`. -/
def betweenProgram (v low high : Value) : List Instruction :=
  [.push v, .dup, .push low, .binary ">=", .swap, .push high, .binary "<=", .binary "&&"]

def between (view : View) (v low high : Value) : Calculator Bool := do
  match ← calculate (process view (betweenProgram v low high)) with
  | some result => ofExcept (view.asBool result)
  | none => return false

end Calculator

end HostScript
