import HostScript.Exec.Evaluator

/-!
# Calls

What is called is settled first, then the arguments are evaluated, and then they are checked. Script
functions take exactly their parameters; host functions get what their signature declares.
-/

namespace HostScript.Evaluator

variable {P : Platform}

def values (E : Evaluator P) : List Expr → Exec P (List Value)
  | [] => return []
  | e :: rest => do
    let v ← E.value e "argument"
    return v :: (← E.values rest)

def arguments (E : Evaluator P) (prog : Program P) (call : Call) : Exec P (List Value) := do
  let args ← E.values call.args
  if call.spread then
    match args.getLast?, call.args.getLast? with
    | some last, some e =>
      return args.dropLast ++ (← Exec.located e.pos (Exec.items prog last))
    | _, _ => Exec.fail .spreadWithoutArguments
  else return args

def invoke (prog : Program P) (f : Callable P) (args : List Value) : Exec P (Option Value) := do
  Exec.note (.invoked f args)
  let results ← Exec.act (f.call prog.host args)
  Exec.act (Act.collect results)

/-- Calls a host function. An argument that cannot be what is declared is where
the failure stands. -/
def callHost (E : Evaluator P) (prog : Program P) (f : Callable P) (call : Call) :
    Exec P (Option Value) := do
  let args ← E.arguments prog call
  match f.signature.bind (← Exec.view) args with
  | .ok args => invoke prog f args
  | .error (index, e) =>
    match index.bind (call.args[·]?) with
    | some arg => throw (.failed (e.locate arg.pos))
    | none => throw (.failed e)

def bindParams : List String → List Value → Exec P Unit
  | param :: params, arg :: args => do
    Exec.scoping (·.define param arg)
    bindParams params args
  | _, _ => return ()

def body (E : Evaluator P) (f : Declaration) (args : List Value) : Exec P (Option Value) := do
  bindParams f.params args
  match ← Exec.traced (E.stmts f.body) with
  | .ret v => return some v
  | _ => return none

def callScript (E : Evaluator P) (f : Declaration) (args : List Value) (site : Option Position) :
    Exec P (Option Value) := do
  if args.length = f.params.length then Exec.withFunction f site (E.body f args)
  else Exec.fail (.parameterMismatch f.params.length args.length)

def call (E : Evaluator P) (prog : Program P) (call : Call) : Exec P (Option Value) := do
  match ← Exec.callee prog call with
  | some (.host f) => E.callHost prog f call
  | some (.script f) =>
    let args ← E.arguments prog call
    E.callScript f args (some call.pos)
  | none => Exec.fail (.undefinedFunction call.name)

end HostScript.Evaluator
