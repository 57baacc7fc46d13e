import HostScript.Exec.Session
import HostScript.Workbench.Host

/-!
# Scripts on the workbench

Programs and machines for small scripts, and parts of these.
-/

namespace HostScript.Workbench

def bare : Program platform :=
  ⟨host, .empty, .empty⟩

def logging : Program platform :=
  ⟨host, .empty, ⟨[("log", ⟨"log", .variadic [] .any, .foreign .log⟩)], []⟩⟩

def idle : Machine platform :=
  Session.start ⟨[], .empty, none, []⟩ world

/-- A machine with two resources, of which the second cannot be closed. -/
def supplied : Machine platform :=
  Session.start ⟨[], .empty, none, [("outer", .ref 0), ("inner", .ref 1)]⟩
    ⟨#[.foreign (.tracked "outer" ""), .foreign (.tracked "inner" "x")], []⟩

def here : Position := ⟨"main", 1, 1⟩

def variableNamed (name : String) : Expr :=
  ⟨.path ⟨[⟨name, []⟩]⟩, ⟨"main", 1, 1⟩⟩

def number? : Except Halt (Option Value) → Option Int64
  | .ok (some (.int n)) => some n
  | _ => none

def returned? : Except Halt Signal → Option String
  | .ok (.ret (.str text)) => some text
  | _ => none

def logged (m : Machine platform) : List String :=
  m.world.state

end HostScript.Workbench
