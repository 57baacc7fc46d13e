import HostScript.Failure.Basic
import HostScript.Syntax.Basic
import HostScript.Names.Table

/-!
# Script functions

Public functions are found by name from everywhere, private ones only from the unit that declares
them, so that two units can each have one of a name.
-/

namespace HostScript

structure Functions where
  entries : Table Declaration

namespace Functions

def empty : Functions := ⟨[]⟩

def key (unit name : String) : String :=
  if isPrivateName name then "!" ++ unit ++ "!" ++ name else name

def lookup? (table : Functions) (unit name : String) : Option Declaration :=
  table.entries.get? (key unit name)

/-- The table with another function. One whose key is taken fails, and the failure names the
position of the earlier one. -/
def register (table : Functions) (f : Declaration) : Except Failure Functions :=
  match table.lookup? f.pos.unit f.name with
  | some previous =>
    .error ((Failure.of (.duplicateFunction f.isPrivate f.name previous.pos)).locate f.pos)
  | none => .ok ⟨table.entries ++ [(key f.pos.unit f.name, f)]⟩

def size (table : Functions) : Nat :=
  table.entries.length

end Functions

end HostScript
