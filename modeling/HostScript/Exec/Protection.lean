import HostScript.Exec.Evaluator

/-!
# Resources and failures

Resources are set up in order, in the scope of the body. Those that were set up are closed in
reverse order after the body, and every one is, whatever happens to the others. The first failure to
close is that of the whole if nothing failed before it. What has failed goes to the handler, and the
cleanup comes last: unless it ends normally, how it ends is how the statement ends.
-/

namespace HostScript.Evaluator

variable {P : Platform}

def acquire (prog : Program P) (p : Position) (v : Option Value) : Exec P (Option Address) := do
  match v.bind Value.address? with
  | some r =>
    match prog.host.resourceOf? (← Exec.world) r with
    | some resource =>
      Exec.located p (Exec.act resource.create)
      Exec.note (.created r)
      return some r
    | none => return none
  | none => return none

def create (E : Evaluator P) (prog : Program P) (e : Expr) : Exec P (Option Address) := do
  acquire prog e.pos (← E.isolated e)

/-- Sets up resources in order up to the first failure. Gives those that were set up, the latest
first, and the failure. -/
def createAll (E : Evaluator P) (prog : Program P) (created : List Address) :
    List Expr → Exec P (List Address × Except Halt Unit)
  | [] => return (created, .ok ())
  | e :: rest => do
    match ← Exec.attempt (E.create prog e) with
    | .ok (some r) => E.createAll prog (r :: created) rest
    | .ok none => E.createAll prog created rest
    | .error halt => return (created, .error halt)

def close (prog : Program P) (r : Address) : Exec P Unit := do
  match prog.host.resourceOf? (← Exec.world) r with
  | some resource =>
    Exec.note (.closed r)
    Exec.act resource.close
  | none => Exec.note (.lapsed r)

/-- Closes resources in order, all of them, and then fails if one has failed, as the first did. -/
def closeAll (prog : Program P) : List Address → Exec P Unit
  | [] => return ()
  | r :: rest => (close prog r).andThen (closeAll prog rest)

def withResources (E : Evaluator P) (prog : Program P) (resources : List Expr) (body : List Stmt) :
    Exec P Signal := do
  let (created, setUp) ← E.createAll prog [] resources
  let started : Exec P Signal := match setUp with
    | .ok () => E.block body
    | .error halt => throw halt
  started.andThen (closeAll prog created)

def handle (E : Evaluator P) (clause : Handler) (e : Failure) : Exec P Signal :=
  Exec.withScope do
    Exec.scoping (·.define clause.name (.str e.text))
    E.stmts clause.body

def guarded (E : Evaluator P) (attempted : Exec P Signal) : Option Handler → Exec P Signal
  | some clause => attempted.recover (E.handle clause)
  | none => attempted

def tryBlock (E : Evaluator P) (prog : Program P) (resources : List Expr) (body : List Stmt)
    (handler : Option Handler) (cleanup : Option (List Stmt)) : Exec P Signal :=
  let handled := E.guarded (Exec.withScope (E.withResources prog resources body)) handler
  match cleanup with
  | some cleanup => handled.finish (E.block cleanup)
  | none => handled

end HostScript.Evaluator
