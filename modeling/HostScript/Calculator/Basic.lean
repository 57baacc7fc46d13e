import HostScript.Operator.Apply

/-!
# The calculator

A stack of operands and the operations on it. An operation that needs more operands than there are
fails and leaves the stack alone; an operator that fails has used up its operands.
-/

namespace HostScript

/-- Operands, the top first. -/
abbrev Operands := List Value

/-- A computation on the stack. What it did to the stack stays when it fails. -/
abbrev Calculator := ExceptT Failure (StateM Operands)

namespace Calculator

def underflow {α : Type} : Calculator α :=
  throw (.of .emptyStack)

def ofExcept {α : Type} (result : Except Failure α) : Calculator α :=
  ExceptT.mk (pure result)

def push (v : Value) : Calculator Unit :=
  modify (v :: ·)

def pop : Calculator Value := do
  match ← get with
  | v :: rest => set rest; return v
  | [] => underflow

def popTwo : Calculator (Value × Value) := do
  match ← get with
  | b :: a :: rest => set rest; return (a, b)
  | _ => underflow

def peek : Calculator Value := do
  match ← get with
  | v :: _ => return v
  | [] => underflow

def swap : Calculator Unit := do
  match ← get with
  | b :: a :: rest => set (a :: b :: rest)
  | _ => underflow

def dup : Calculator Unit := do
  match ← get with
  | a :: rest => set (a :: a :: rest)
  | [] => underflow

def drop : Calculator Unit := do
  match ← get with
  | _ :: rest => set rest
  | [] => underflow

def dupSecond : Calculator Unit := do
  match ← get with
  | b :: a :: rest => set (a :: b :: a :: rest)
  | _ => underflow

def rot : Calculator Unit := do
  match ← get with
  | c :: b :: a :: rest => set (a :: c :: b :: rest)
  | _ => underflow

def unary (view : View) (name : String) : Calculator Unit := do
  let v ← pop
  push (← ofExcept (view.unaryNamed name v))

def binary (view : View) (name : String) : Calculator Unit := do
  let (a, b) ← popTwo
  push (← ofExcept (view.binaryNamed name a b))

/-- Runs a computation on an empty stack. The stack is afterwards what it was,
whatever the outcome. -/
def isolated {α : Type} (task : Calculator α) : Calculator α :=
  fun operands => ((task []).1, operands)

def calculate (task : Calculator Unit) : Calculator (Option Value) :=
  isolated do
    task
    return (← get).head?

def dump (view : View) (operands : Operands) : String :=
  let line (index : Nat) (v : Value) : String :=
    Numeral.natText index ++ ": " ++ (view.valueDump? v).getD (view.text v) ++ "\n"
  String.join (operands.reverse.mapIdx line)

end Calculator

end HostScript
