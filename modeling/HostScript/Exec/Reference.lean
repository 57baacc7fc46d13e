import HostScript.Exec.Basic
import HostScript.Object.Access
import HostScript.Syntax.Path

/-!
# What names mean

A name means what a scope binds it to, else the package of that name. A dotted name goes on through
the fields of what its first part means. What a call calls is settled by the name alone, before any
argument is looked at.
-/

namespace HostScript

variable {P : Platform}

inductive Callee (P : Platform) where
  | host (f : Callable P)
  | script (f : Declaration)

namespace Program

def resolveRoot? (prog : Program P) (m : Machine P) (name : String) : Option Value :=
  (m.scopes.lookup name).or (prog.registry.package? name)

def projectAll? (prog : Program P) (w : World P) : Value → List String → Option Value
  | v, [] => some v
  | v, name :: rest => (prog.host.project? w v name).bind (prog.projectAll? w · rest)

def resolve? (prog : Program P) (m : Machine P) (name : String) : Option Value :=
  match dottedParts name with
  | [] => none
  | root :: fields => (prog.resolveRoot? m root).bind (prog.projectAll? m.world · fields)

/-- The function that a dotted name leads to, as a value or as a method of what stands before its
last dot. -/
def hostCallee? (prog : Program P) (m : Machine P) (name : String) : Option (Callable P) :=
  match (prog.resolve? m name).bind Value.address? |>.bind (prog.host.callableOf? m.world) with
  | some f => some f
  | none => do
    let (receiver, member) ← receiverAndMember? name
    match ← prog.resolve? m receiver with
    | .ref r => prog.host.methodOf? m.world r member
    | .pair _ v => prog.host.methodOf? m.world (← v.address?) member
    | _ => none

def callingUnit (m : Machine P) (call : Call) : String :=
  match m.current with
  | some f => f.pos.unit
  | none => call.pos.unit

/-- What a call calls: a registered function, else a script function that the call sees, else what
the name leads to. -/
def callee? (prog : Program P) (m : Machine P) (call : Call) : Option (Callee P) :=
  match prog.registry.builtin? call.name with
  | some f => some (.host f)
  | none =>
    match prog.functions.lookup? (callingUnit m call) call.name with
    | some f => some (.script f)
    | none => (prog.hostCallee? m call.name).map .host

def noField (w : World P) (v : Value) (name : String) : Failure :=
  .of (.noField (w.view.valueType v) name)

end Program

namespace Exec

def index (prog : Program P) (container key : Value) : Exec P Value :=
  ask (prog.host.index · container key)

def items (prog : Program P) (v : Value) : Exec P (List Value) :=
  ask (prog.host.items · v)

def field (prog : Program P) (v : Value) (name : String) : Exec P Value := do
  let w ← world
  match prog.host.project? w v name with
  | some v => return v
  | none => throw (.failed (Program.noField w v name))

def root (prog : Program P) (name : String) : Exec P Value := do
  match prog.resolveRoot? (← get) name with
  | some v => return v
  | none => fail (.undefinedVariable name)

def callee (prog : Program P) (call : Call) : Exec P (Option (Callee P)) :=
  return prog.callee? (← get) call

end Exec

end HostScript
