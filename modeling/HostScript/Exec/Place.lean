import HostScript.Exec.Evaluator

/-!
# Places

A path starts at a variable and goes on through fields and indices. Reading follows all of it;
storing follows all but the last, and resolves a place that knows how to store into what it ends on.
An assignment computes its value first, then finds the place, and then stores; the value stored is
that of the assignment.
-/

namespace HostScript

variable {P : Platform}

inductive Access where
  | field (name : String)
  | index (e : Expr)

def Path.accesses (p : Path) : List Access :=
  match p.segments with
  | [] => []
  | first :: rest =>
    first.index.map .index ++ rest.flatMap fun s => .field s.name :: s.index.map .index

inductive Place where
  | binding (name : String)
  | field (container : Value) (name : String)
  | index (container key : Value)

namespace Place

def read (prog : Program P) : Place → Exec P Value
  | .binding name => Exec.root prog name
  | .field container name => Exec.field prog container name
  | .index container key => Exec.index prog container key

/-- Stores into a place. A variable that is not bound yet is bound in the current scope; what cannot
be stored into fails. -/
def write (prog : Program P) (v : Value) : Place → Exec P Unit
  | .binding name => Exec.scoping (·.store name v)
  | .field container name => do
    match container.unwrapped with
    | .ref r =>
      match prog.host.fieldsOf? (← Exec.world) r with
      | some fields => Exec.act (fields.put name v)
      | none => Exec.fail (.cannotSet name)
    | _ => Exec.fail (.cannotSet name)
  | .index container key => do
    let w ← Exec.world
    let target := container.unwrapped
    let refused := Exec.fail (.cannotSet (w.view.valueType target ++ "[" ++ w.view.text key ++ "]"))
    match target with
    | .ref r =>
      match prog.host.indexedOf? w r with
      | some indexed => Exec.act (indexed.put key v)
      | none => refused
    | _ => refused

end Place

namespace Evaluator

def follow (E : Evaluator P) (prog : Program P) : Value → List Access → Exec P Value
  | v, [] => return v
  | v, .field name :: rest => do
    E.follow prog (← Exec.field prog v name) rest
  | v, .index e :: rest => do
    let key ← E.value e "index"
    E.follow prog (← Exec.located e.pos (Exec.index prog v key)) rest

def read (E : Evaluator P) (prog : Program P) (p : Path) : Exec P Value := do
  E.follow prog (← Exec.root prog p.root) p.accesses

/-- The place that a path leads to. Each of its indices is evaluated once. -/
def place (E : Evaluator P) (prog : Program P) (p : Path) : Exec P Place := do
  match p.accesses.getLast? with
  | none => return .binding p.root
  | some last =>
    let container ← E.follow prog (← Exec.root prog p.root) p.accesses.dropLast
    match last with
    | .field name => return .field container name
    | .index e => return .index container (← E.value e "index")

def assign (E : Evaluator P) (prog : Program P) (target : Path) (op : AssignOp) (e : Expr) :
    Exec P Value := do
  let v ← E.value e "assignment"
  match op with
  | .declare =>
    if target.isSimple then
      Exec.scoping (·.define target.root v)
      return v
    else Exec.fail (.cannotSet target.text)
  | .set =>
    let place ← E.place prog target
    place.write prog v
    return v
  | .compound op =>
    let place ← E.place prog target
    let old ← place.read prog
    let new ← Exec.ofExcept ((← Exec.view).binaryNamed op.symbol old v)
    place.write prog new
    return new

def incDec (E : Evaluator P) (prog : Program P) (target : Path) (increment before : Bool) :
    Exec P Value := do
  let op : BinaryOp := if increment then .add else .sub
  let place ← E.place prog target
  let old ← place.read prog
  let new ← Exec.ofExcept ((← Exec.view).binaryNamed op.symbol old (.int 1))
  place.write prog new
  return if before then new else old

end Evaluator

end HostScript
