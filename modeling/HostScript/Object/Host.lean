import HostScript.Calculator.Program
import HostScript.Object.View

/-!
# What objects can do

A host reaches into a script through its objects and functions. An object answers for the
capabilities that it has: named fields, access by key, entries, a length, iteration, being a
resource, being called, and methods. Reading leaves the world as it is; all else may change it.
-/

namespace HostScript

/-- An act on the world. What it did stays when it fails. -/
abbrev Act (P : Platform) := ExceptT Failure (StateM (World P))

/-- Why a function of the host did not return: it reports a failure, or it panics, with
words or without. -/
inductive Crash where
  | failed (e : Failure)
  | panicked (message : Option String)

structure Fields (P : Platform) where
  get? : World P → String → Option Value
  put : String → Value → Act P Unit

structure Indexed (P : Platform) where
  get? : World P → Value → Except Failure (Option Value)
  put : Value → Value → Act P Unit

structure Iterable (P : Platform) where
  hasNext : StateM (World P) Bool
  next : Act P Value

structure Resource (P : Platform) where
  create : Act P Unit
  close : Act P Unit

/-- The capabilities of the host's own objects, each given where the object stands, and what its own
functions do. -/
structure Host (P : Platform) where
  fields? : Address → P.Cell → Option (Fields P)
  indexed? : Address → P.Cell → Option (Indexed P)
  entries? : P.Cell → Option (List (Value × Value))
  length? : P.Cell → Option Nat
  iterable? : Address → P.Cell → Option (Iterable P)
  resource? : Address → P.Cell → Option (Resource P)
  callable? : P.Cell → Option (Callable P)
  method? : Address → P.Cell → String → Option (Callable P)
  run : P.Code → List Value → ExceptT Crash (StateM (World P)) (List Value)

variable {P : Platform}

namespace Act

def ofExcept {α : Type} (result : Except Failure α) : Act P α :=
  ExceptT.mk (pure result)

end Act

namespace Fields

def readOnly (get? : World P → String → Option Value) : Fields P where
  get? := get?
  put name _ := throw (.of (.cannotSet name))

def ofMap (r : Address) : Fields P where
  get? w name :=
    match w.object? r with
    | some (.map entries) => entries.get? name
    | _ => none
  put name v := modify fun w =>
    match w.object? r with
    | some (.map entries) => w.put r (.map (entries.insert name v))
    | _ => w

def ofPackage (p : Package) : Fields P :=
  readOnly fun _ name => (p.constants.lookup name).or ((p.functions.lookup name).map .ref)

end Fields

def placeIn (size : Nat) (index : Int64) : Except Failure Nat :=
  let place := index.toInt
  if 0 ≤ place ∧ place < size then .ok place.toNat else .error (.of (.indexOutOfBounds index))

namespace Indexed

def readOnly (get? : World P → Value → Except Failure (Option Value)) : Indexed P where
  get? := get?
  put key _ := do throw (.of (.cannotSet ("[" ++ (← get).view.text key ++ "]")))

/-- The items of a list by position. The list is open while its key is looked at. -/
def ofList (r : Address) : Indexed P where
  get? w key :=
    match w.object? r with
    | some (.list items) => return items[← placeIn items.size (← (w.viewWithin [r]).asInt key)]?
    | _ => .ok none
  put key v := do
    let w ← get
    match w.object? r with
    | some (.list items) =>
      let place ← Act.ofExcept do placeIn items.size (← (w.viewWithin [r]).asInt key)
      set (w.put r (.list (items.setIfInBounds place v)))
    | _ => return ()

def ofMap (r : Address) : Indexed P where
  get? w key :=
    match w.object? r with
    | some (.map entries) => return entries.get? (← w.view.asString key)
    | _ => .ok none
  put key v := do
    let name ← Act.ofExcept ((← get).view.asString key)
    (Fields.ofMap r).put name v

end Indexed

namespace Host

def fieldsOf? (H : Host P) (w : World P) (r : Address) : Option (Fields P) :=
  match w.object? r with
  | some (.map _) => some (.ofMap r)
  | some (.package p) => some (.ofPackage p)
  | some (.foreign cell) => H.fields? r cell
  | _ => none

def indexedOf? (H : Host P) (w : World P) (r : Address) : Option (Indexed P) :=
  match w.object? r with
  | some (.list _) => some (.ofList r)
  | some (.map _) => some (.ofMap r)
  | some (.foreign cell) => H.indexed? r cell
  | _ => none

def entriesOf? (H : Host P) (w : World P) (r : Address) : Option (List (Value × Value)) :=
  match w.object? r with
  | some (.map entries) => some (entries.pairs.map fun (key, v) => (.str key, v))
  | some (.foreign cell) => H.entries? cell
  | _ => none

def lengthOf? (H : Host P) (w : World P) (r : Address) : Option Nat :=
  match w.object? r with
  | some (.list items) => some items.size
  | some (.map entries) => some entries.size
  | some (.foreign cell) => H.length? cell
  | _ => none

def iterableOf? (H : Host P) (w : World P) (r : Address) : Option (Iterable P) :=
  match w.object? r with
  | some (.foreign cell) => H.iterable? r cell
  | _ => none

def resourceOf? (H : Host P) (w : World P) (r : Address) : Option (Resource P) :=
  match w.object? r with
  | some (.foreign cell) => H.resource? r cell
  | _ => none

def callableOf? (H : Host P) (w : World P) (r : Address) : Option (Callable P) :=
  match w.object? r with
  | some (.function f) => some f
  | some (.foreign cell) => H.callable? cell
  | _ => none

def methodOf? (H : Host P) (w : World P) (r : Address) (name : String) : Option (Callable P) :=
  match w.object? r with
  | some (.list _) =>
    match name with
    | "len" => some ⟨"len", .fixed [], .length r⟩
    | "append" => some ⟨"append", .variadic [] .any, .append r⟩
    | _ => none
  | some (.map _) =>
    match name with
    | "keys" => some ⟨"keys", .fixed [], .keys r⟩
    | _ => none
  | some (.package p) => (p.functions.lookup name).bind w.function?
  | some (.foreign cell) => H.method? r cell name
  | _ => none

end Host

namespace Act

def alloc (o : Object P) : Act P Address :=
  modifyGet fun w => w.alloc o

def newList (items : List Value) : Act P Value :=
  return .ref (← alloc (.list items.toArray))

end Act

namespace Code

def run (H : Host P) (code : Code P) (args : List Value) :
    ExceptT Crash (StateM (World P)) (List Value) :=
  match code, args with
  | .length r, _ => do
    match (← get).object? r with
    | some (.list items) => return [.int (.ofNat items.size)]
    | _ => return []
  | .append r, args => do
    let w ← get
    match w.object? r with
    | some (.list items) => set (w.put r (.list (items ++ args)))
    | _ => pure ()
    return []
  | .keys r, _ => do
    match (← get).object? r with
    | some (.map entries) =>
      let keys := entries.keys.map Value.str
      return [.ref (← modifyGet fun w => w.alloc (.list keys.toArray))]
    | _ => return []
  | .between, [v, low, high] => do
    match (Calculator.between (← get).view v low high []).1 with
    | .ok inside => return [.bool inside]
    | .error e => throw (.failed e)
  | .between, args => throw (.failed (.of (.parameterMismatch 3 args.length)))
  | .float₁ f, [.float x] => return [.float (f x)]
  | .float₁ _, args => throw (.failed (.of (.parameterMismatch 1 args.length)))
  | .float₂ f, [.float x, .float y] => return [.float (f x y)]
  | .float₂ _, args => throw (.failed (.of (.parameterMismatch 2 args.length)))
  | .foreign code, args => H.run code args

end Code

def Crash.failure : Crash → Failure
  | .failed e => e
  | .panicked message => .of (.hostPanic (message.getD "host function panicked"))

def Callable.call (H : Host P) (f : Callable P) (args : List Value) : Act P (List Value) :=
  fun w =>
    let (result, w) := f.code.run H args w
    (result.mapError Crash.failure, w)

/-- The results of a call as one value: none, the only one, or a new list of them. -/
def Act.collect : List Value → Act P (Option Value)
  | [] => return none
  | [v] => return some v
  | results => return some (← newList results)

end HostScript
