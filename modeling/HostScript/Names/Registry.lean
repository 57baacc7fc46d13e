import HostScript.Object.Basic
import HostScript.Names.Table

/-!
# What the host registers

Functions that scripts call by name before all others, and packages, which a dotted name can start
from where no scope binds its root. Each name can be registered once.
-/

namespace HostScript

variable {P : Platform}

inductive RegistryError where
  | duplicateBuiltin (name : String)
  | duplicatePackage (name : String)
  deriving DecidableEq, Repr

def RegistryError.message : RegistryError → String
  | .duplicateBuiltin name => "function " ++ Text.quote name ++ " already registered"
  | .duplicatePackage name => "package " ++ Text.quote name ++ " already registered"

structure Registry (P : Platform) where
  builtins : Table (Callable P)
  packages : Table Value

namespace Registry

def empty : Registry P := ⟨[], []⟩

def builtin? (g : Registry P) (name : String) : Option (Callable P) :=
  g.builtins.get? name

def package? (g : Registry P) (name : String) : Option Value :=
  g.packages.get? name

def addBuiltin (g : Registry P) (name : String) (f : Callable P) :
    Except RegistryError (Registry P) :=
  if g.builtins.has name then .error (.duplicateBuiltin name)
  else .ok { g with builtins := g.builtins.put name f }

def addPackage (g : Registry P) (name : String) (v : Value) :
    Except RegistryError (Registry P) :=
  if g.packages.has name then .error (.duplicatePackage name)
  else .ok { g with packages := g.packages.put name v }

def core : Registry P :=
  ⟨[("between", .between)], []⟩

def dump (g : Registry P) : String :=
  Text.record "Registry"
    [("builtins", Text.sequence (g.builtins.keys.map Text.quote)),
      ("packages", Text.sequence (g.packages.keys.map Text.quote))]

end Registry

end HostScript
