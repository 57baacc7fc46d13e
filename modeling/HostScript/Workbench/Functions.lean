import HostScript.Workbench.Basic

/-!
# The functions of the workbench

Each has a name, a signature, and a routine.
-/

namespace HostScript.Workbench

def function? (name : String) : Option (Callable platform) :=
  let fixed (params : List Kind) (routine : Routine) : Option (Callable platform) :=
    some ⟨name, .fixed params, .foreign routine⟩
  let variadic (params : List Kind) (rest : Kind) (routine : Routine) :
      Option (Callable platform) :=
    some ⟨name, .variadic params rest, .foreign routine⟩
  match name with
  | "between" => some .between
  | "sqrt" => some (.ofFloat₁ name Float.sqrt)
  | "abs" => some (.ofFloat₁ name Float.abs)
  | "fsub" => some (.ofFloat₂ name fun a b => a - b)
  | "log" => variadic [] .any .log
  | "trace" => fixed [.any] .trace
  | "sum" => variadic [] .int .sum
  | "list" => variadic [] .any .list
  | "map" => fixed [] .map
  | "multi" => variadic [] .any .multi
  | "typed" => fixed [.int, .float, .bool, .str] .typed
  | "opt" => variadic [.str] .any .opt
  | "floats" => variadic [.int] .float .floats
  | "type" => fixed [.any] .type
  | "fail" => fixed [.str] .fail
  | "panic" => fixed [.str] .panic
  | "panic_static" => fixed [] .panicStatic
  | "panic_any" => fixed [] .panicAny
  | "point" => fixed [.int, .int] .point
  | "box" => fixed [.any] .box
  | "countdown" => fixed [.int] .countdown
  | "tracked" => fixed [.str, .str] .tracked
  | "opaque" => fixed [] .plain
  | "fn" => fixed [.str] .function
  | _ => none

abbrev Body := ExceptT Crash (StateM (World platform)) (List Value)

def failWith (message : String) : Body :=
  throw (.failed (.of (.custom message)))

def texts (args : List Value) : ExceptT Crash (StateM (World platform)) String := do
  let view := (← get).view
  return " ".intercalate (args.map view.text)

def made (o : Object platform) : Body := do
  return [.ref (← modifyGet fun w => w.alloc o)]

def distance (x y : Int64) : Int64 :=
  let size (n : Int64) : Int64 := if n < 0 then -n else n
  size x + size y

def run : Routine → List Value → Body
  | .log, args => do
    note ("log " ++ (← texts args))
    return []
  | .trace, args => do
    let view := (← get).view
    note ("trace " ++ " ".intercalate (args.map fun v => view.valueType v ++ " " ++ view.text v))
    return args
  | .sum, args => return [.int ((args.filterMap Value.int?).foldl (· + ·) 0)]
  | .list, args | .typed, args | .floats, args => made (.list args.toArray)
  | .map, _ => made (.map .empty)
  | .multi, args => return args
  | .opt, args => return [.str (← texts args)]
  | .type, args => do
    let view := (← get).view
    return args.map fun v => .str (view.valueType v)
  | .fail, [.str message] => failWith message
  | .panic, [.str message] => throw (.panicked (some message))
  | .panicStatic, _ => throw (.panicked (some "fuse lit"))
  | .panicAny, _ => throw (.panicked none)
  | .point, [.int x, .int y] => made (.foreign (.point x y))
  | .box, [v] => made (.foreign (.box v))
  | .countdown, [.int limit] => made (.foreign (.countdown limit (-1) 0))
  | .tracked, [.str name, .str mode] => made (.foreign (.tracked name mode))
  | .plain, _ => made (.foreign (.plain "opaque"))
  | .function, [.str name] =>
    match function? name with
    | some f => made (.function f)
    | none => failWith ("no function " ++ name)
  | .distance x y, _ => return [.int (distance x y)]
  | _, _ => return []

end HostScript.Workbench
