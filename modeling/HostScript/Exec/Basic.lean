import HostScript.Exec.Machine

/-!
# Computations on the machine

A computation keeps what it did to the machine also when it fails, so that a script can go on after
a failure that it catches. What a computation sets up only for a part of itself, it takes down again
however that part ends.
-/

namespace HostScript

abbrev Exec (P : Platform) := ExceptT Halt (StateM (Machine P))

variable {P : Platform} {α : Type}

namespace Machine

def enterBlock (m : Machine P) : Machine P :=
  { m with scopes := m.scopes.push }

def leaveBlock (m : Machine P) : Machine P :=
  { m with
    scopes := m.scopes.pop
    journal := .leftBlock m.scopes.stack :: m.journal }

def enterCall (m : Machine P) (f : Declaration) (calls : Calls) : Machine P :=
  { m with
    calls
    scopes := m.scopes.pushRoot
    current := some f
    journal := .entered f m.current calls.frames :: m.journal }

def leaveCall (m : Machine P) (f : Declaration) (caller : Option Declaration)
    (failure : Option Failure) : Machine P :=
  { m with
    calls := m.calls.pop
    scopes := m.scopes.pop
    current := caller
    journal := .left f m.calls.frames m.scopes.stack failure :: m.journal }

end Machine

namespace Exec

def fail (cause : Cause) : Exec P α :=
  throw (.failed (.of cause))

def ofExcept : Except Failure α → Exec P α
  | .ok a => return a
  | .error e => throw (.failed e)

def ofOutcome (outcome : Except Halt α) : Exec P α :=
  ExceptT.mk (pure outcome)

def attempt (x : Exec P α) : Exec P (Except Halt α) :=
  fun m => let (outcome, m) := x m; (.ok outcome, m)

def mapFailure (f : Machine P → Failure → Failure) (x : Exec P α) : Exec P α := fun m =>
  match x m with
  | (.error (.failed e), m) => (.error (.failed (f m e)), m)
  | result => result

/-- Positions a failure that has no position yet. -/
def located (p : Position) (x : Exec P α) : Exec P α :=
  x.mapFailure fun _ e => e.locate p

def traced (x : Exec P α) : Exec P α :=
  x.mapFailure fun m e => m.calls.attach e

/-- Goes on with a handler after a failure. Running out of steps is none. -/
def recover (x : Exec P α) (handler : Failure → Exec P α) : Exec P α := fun m =>
  match x m with
  | (.error (.failed e), m) => handler e m
  | result => result

/-- Runs a second computation whatever becomes of the first. The first of them to fail counts. -/
def andThen (x : Exec P α) (y : Exec P Unit) : Exec P α := do
  let outcome ← attempt x
  let after ← attempt y
  match outcome, after with
  | .ok _, .error halt => throw halt
  | outcome, _ => ofOutcome outcome

/-- Runs a cleanup however the first computation ends. Unless the cleanup ends normally, how it ends
is how the whole ends. -/
def finish (x cleanup : Exec P Signal) : Exec P Signal := do
  match ← attempt x with
  | .error .outOfFuel => throw .outOfFuel
  | outcome =>
    match ← cleanup with
    | .normal => ofOutcome outcome
    | signal => return signal

def act (x : Act P α) : Exec P α := fun m =>
  match x m.world with
  | (.ok a, world) => (.ok a, { m with world })
  | (.error e, world) =>
    (.error (.failed e), { m with world, journal := .faulted e :: m.journal })

def ask (f : World P → Except Failure α) : Exec P α :=
  act fun w => (f w, w)

def operate (x : Calculator α) : Exec P α := fun m =>
  let (result, operands) := x m.operands
  (result.mapError .failed, { m with operands })

def note (event : Event P) : Exec P Unit :=
  modify fun m => { m with journal := event :: m.journal }

def noting (events : Except Halt α → List (Event P)) (x : Exec P α) : Exec P α := fun m =>
  let (outcome, m) := x m
  (outcome, { m with journal := events outcome ++ m.journal })

def scoping (f : Scopes → Scopes) : Exec P Unit :=
  modify fun m => { m with scopes := f m.scopes }

def world : Exec P (World P) :=
  return (← get).world

def view : Exec P View :=
  return (← world).view

def withScope (x : Exec P α) : Exec P α := fun m =>
  let (outcome, m) := x m.enterBlock
  (outcome, m.leaveBlock)

def isolated (x : Exec P α) : Exec P α := fun m =>
  let operands := m.operands
  let (outcome, m) := x { m with operands := [] }
  (outcome, { m with operands })

def top (x : Exec P Unit) : Exec P (Option Value) :=
  isolated do
    x
    return (← get).operands.head?

def operand (p : Position) (x : Exec P Unit) : Exec P Unit := do
  let before := (← get).operands.length
  x
  if (← get).operands.length = before then located p (fail (.noResult "operand"))

def push (v : Value) : Exec P Unit :=
  operate (Calculator.push v)

def unary (op : UnaryOp) : Exec P Unit := do
  operate (Calculator.unary (← view) op.symbol)

def binary (op : BinaryOp) : Exec P Unit := do
  operate (Calculator.binary (← view) op.symbol)

def failure? : Except Halt α → Option Failure
  | .ok _ => none
  | .error halt => halt.failure?

/-- Runs as the body of a script function, in a scope that sees only the global one. A call beyond
the limit changes nothing. -/
def withFunction (f : Declaration) (site : Option Position) (x : Exec P α) : Exec P α := fun m =>
  match m.calls.push ⟨f.name, site⟩ with
  | .error e => (.error (.failed e), { m with journal := .refused f :: m.journal })
  | .ok calls =>
    let (outcome, m') := x (m.enterCall f calls)
    (outcome, m'.leaveCall f m.current (failure? outcome))

end Exec

end HostScript
