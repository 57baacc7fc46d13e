import HostScript.Object.Entries
import HostScript.Object.Signature

/-!
# Objects

The objects that values refer to. Lists, maps, packages and functions belong to the library; all
others belong to the host, which says on its `Platform` what they are and how they look.
-/

namespace HostScript

open Text

/-- What the host brings along: its own kind of object, its own kind of function body, and a state
of its own. An object of the host is seen through the name of its type, its text and the value that
it stands for. -/
structure Platform where
  Cell : Type
  Code : Type
  State : Type
  typeName : Cell → String
  describe : Cell → String
  scalar? : Cell → Option Value

inductive Code (P : Platform) where
  | length (list : Address)
  | append (list : Address)
  /-- A new list of the keys of a map. -/
  | keys (map : Address)
  | between
  | float₁ (f : Float → Float)
  | float₂ (f : Float → Float → Float)
  | foreign (code : P.Code)

structure Callable (P : Platform) where
  name : String
  signature : Signature
  code : Code P

namespace Callable

variable {P : Platform}

def ofFloat₁ (name : String) (f : Float → Float) : Callable P :=
  ⟨name, .fixed [.float], .float₁ f⟩

def ofFloat₂ (name : String) (f : Float → Float → Float) : Callable P :=
  ⟨name, .fixed [.float, .float], .float₂ f⟩

def between : Callable P :=
  ⟨"between", .fixed [.any, .any, .any], .between⟩

def dump (f : Callable P) : String :=
  openRecord "HostFunction" [("name", quote f.name), ("signature", f.signature.dump)]

end Callable

/-- A named set of constants and functions. A constant hides a function of its name. -/
structure Package where
  name : String
  constants : List (String × Value)
  functions : List (String × Address)

inductive Object (P : Platform) where
  | list (items : Array Value)
  | map (entries : Entries)
  | package (package : Package)
  | function (function : Callable P)
  | foreign (cell : P.Cell)

structure World (P : Platform) where
  objects : Array (Object P)
  state : P.State

namespace World

variable {P : Platform}

def object? (w : World P) (r : Address) : Option (Object P) :=
  w.objects[r]?

def put (w : World P) (r : Address) (o : Object P) : World P :=
  { w with objects := w.objects.setIfInBounds r o }

def alloc (w : World P) (o : Object P) : Address × World P :=
  (w.objects.size, { w with objects := w.objects.push o })

def function? (w : World P) (r : Address) : Option (Callable P) :=
  match w.object? r with
  | some (.function f) => some f
  | _ => none

end World

end HostScript
