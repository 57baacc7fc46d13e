import HostScript.Calculator.Program

/-!
# Tasks

Trees of calculator steps, in which stacks of their own nest to any depth. Steps go on after one
that fails; only a panic stops them, up to the step that is set to catch it.
-/

namespace HostScript

inductive Step where
  | push (v : Value)
  | pop | popTwo | peek | swap | dup | drop | dupSecond | rot
  | unary (name : String)
  | binary (name : String)
  | measure
  | dump
  /-- Installs other operands, given with the top first. -/
  | replace (operands : Operands)
  | process (program : List Instruction)
  | between (v low high : Value)
  /-- Runs steps on an empty stack for the value they leave on top. -/
  | calculate (steps : List Step)
  | isolated (steps : List Step)
  | panic
  /-- Runs steps, and stops a panic among them. -/
  | guarded (steps : List Step)

/-- What a step answers. The answers of the steps inside come with the operands left by each. -/
inductive Answer where
  | done
  | value (v : Value)
  | two (lower top : Value)
  | truth (b : Bool)
  | size (n : Nat)
  | text (s : String)
  | replaced (previous : Operands)
  | failed (e : Failure)
  | calculated (top : Option Value) (inner : List (Answer × Operands))
  | isolated (size : Nat) (inner : List (Answer × Operands))
  | guarded (panicked : Bool)
  | panicked

namespace Answer

def failure? : Answer → Option Failure
  | .failed e => some e
  | _ => none

def isPanic : Answer → Bool
  | .panicked => true
  | _ => false

def ofResult {α : Type} (answer : α → Answer) :
    Except Failure α × Operands → Answer × Operands
  | (.ok a, s) => (answer a, s)
  | (.error e, s) => (.failed e, s)

end Answer

mutual

def Step.run (view : View) : Step → Operands → Answer × Operands
  | .push v, s => Answer.ofResult (fun _ => .done) (Calculator.push v s)
  | .pop, s => Answer.ofResult .value (Calculator.pop s)
  | .popTwo, s => Answer.ofResult (fun (a, b) => .two a b) (Calculator.popTwo s)
  | .peek, s => Answer.ofResult .value (Calculator.peek s)
  | .swap, s => Answer.ofResult (fun _ => .done) (Calculator.swap s)
  | .dup, s => Answer.ofResult (fun _ => .done) (Calculator.dup s)
  | .drop, s => Answer.ofResult (fun _ => .done) (Calculator.drop s)
  | .dupSecond, s => Answer.ofResult (fun _ => .done) (Calculator.dupSecond s)
  | .rot, s => Answer.ofResult (fun _ => .done) (Calculator.rot s)
  | .unary name, s => Answer.ofResult (fun _ => .done) (Calculator.unary view name s)
  | .binary name, s => Answer.ofResult (fun _ => .done) (Calculator.binary view name s)
  | .measure, s => (.size s.length, s)
  | .dump, s => (.text (Calculator.dump view s), s)
  | .replace operands, s => (.replaced s, operands)
  | .process program, s => Answer.ofResult (fun _ => .done) (Calculator.process view program s)
  | .between v low high, s => Answer.ofResult .truth (Calculator.between view v low high s)
  | .calculate steps, s =>
    let (inner, left) := runSteps view steps []
    if inner.any (·.1.isPanic) then (.panicked, s)
    else match inner.findSome? (·.1.failure?) with
      | some e => (.failed e, s)
      | none => (.calculated left.head? inner, s)
  | .isolated steps, s =>
    let (inner, left) := runSteps view steps []
    if inner.any (·.1.isPanic) then (.panicked, s) else (.isolated left.length inner, s)
  | .panic, s => (.panicked, s)
  | .guarded steps, s =>
    let (inner, left) := runSteps view steps s
    (.guarded (inner.any (·.1.isPanic)), left)

def runSteps (view : View) : List Step → Operands → List (Answer × Operands) × Operands
  | [], s => ([], s)
  | step :: rest, s =>
    let (answer, s) := step.run view s
    if answer.isPanic then ([(answer, s)], s)
    else
      let (answers, left) := runSteps view rest s
      ((answer, s) :: answers, left)

end

end HostScript
