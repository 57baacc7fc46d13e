import HostScript.Exec.Statement
import HostScript.Syntax.Placement

/-!
# Sessions

A session is a program with the machine that it has left behind. The host sets one up from scripts,
what it registers and some globals, and then runs functions, statements and expressions in it; a
failure ends one of them, not the session.
-/

namespace HostScript

variable {P : Platform}

structure Setup (P : Platform) where
  scripts : List Script
  registry : Registry P
  limit : Option Nat
  /-- Names bound in the global scope, in order. -/
  globals : List (String × Value)

structure Session (P : Platform) where
  program : Program P
  machine : Machine P

namespace Functions

/-- The table with more functions, in order. Each has its jumps checked before it is registered. -/
def load : Functions → List Declaration → Except Failure Functions
  | table, [] => .ok table
  | table, f :: rest => do
    f.checkPlacement
    load (← table.register f) rest

end Functions

namespace Session

def start (setup : Setup P) (world : World P) : Machine P where
  operands := []
  scopes := setup.globals.foldl (fun scopes (name, v) => scopes.define name v) .initial
  calls := .empty setup.limit
  current := none
  world := world
  journal := []

def build (host : Host P) (setup : Setup P) (world : World P) : Except Failure (Session P) := do
  let functions ← Functions.empty.load (setup.scripts.flatMap Script.functions)
  return ⟨⟨host, functions, setup.registry⟩, start setup world⟩

/-- A number of steps that no run takes. -/
def ample : Nat := Nat.pow 2 62

def perform {α : Type} (s : Session P) (x : Exec P α) : Except Halt α × Session P :=
  let (outcome, machine) := x s.machine
  (outcome, { s with machine })

def scoping (s : Session P) (f : Scopes → Scopes) : Session P :=
  { s with machine := { s.machine with scopes := f s.machine.scopes } }

end Session

inductive Entry where
  | main
  | call (name : String) (args : List Value)
  | execute (s : Stmt)
  | evaluate (e : Expr)

inductive Reply where
  | done
  | value (v : Option Value)
  | signal (s : Signal)

namespace Program

def runMain (prog : Program P) (fuel : Nat) : Exec P Unit := do
  match prog.functions.lookup? Position.hostUnit "main" with
  | some f =>
    let _ ← (prog.evaluator fuel).callScript f [] none
  | none => Exec.fail .mainNotDefined

/-- Calls a public script function, or else a registered function, from the host. -/
def callByName (prog : Program P) (fuel : Nat) (name : String) (args : List Value) :
    Exec P (Option Value) := do
  match prog.functions.lookup? Position.hostUnit name with
  | some f => (prog.evaluator fuel).callScript f args none
  | none =>
    match prog.registry.builtin? name with
    | some f =>
      match f.signature.bind (← Exec.view) args with
      | .ok args => Evaluator.invoke prog f args
      | .error (_, e) => throw (.failed e)
    | none => Exec.fail (.undefinedFunction name)

def execute (prog : Program P) (fuel : Nat) (s : Stmt) : Exec P Signal := do
  Exec.ofExcept s.checkPlacement
  prog.execStmt fuel s

def evaluate (prog : Program P) (fuel : Nat) (e : Expr) : Exec P (Option Value) :=
  (prog.evaluator fuel).isolated e

def enter (prog : Program P) (fuel : Nat) : Entry → Exec P Reply
  | .main => do
    prog.runMain fuel
    return .done
  | .call name args => return .value (← prog.callByName fuel name args)
  | .execute s => return .signal (← prog.execute fuel s)
  | .evaluate e => return .value (← prog.evaluate fuel e)

end Program

end HostScript
