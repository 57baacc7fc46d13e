/-!
# Values

What scripts compute with. Strings, numbers and truth values are held in the value; lists, maps,
functions and all that the host owns are reached by address, so that they are shared and not copied.
-/

namespace HostScript

/-- Where an object stands in the world. Objects are the same exactly if their addresses are. -/
abbrev Address := Nat

inductive Value where
  | nil
  | bool (b : Bool)
  | int (n : Int64)
  | float (x : Float)
  | str (s : String)
  /-- A named value, as an argument by name makes it. -/
  | pair (key : String) (value : Value)
  | ref (address : Address)
  deriving Inhabited

inductive Kind where
  | any
  | int | float | bool | str
  deriving DecidableEq, Repr

def Kind.name : Kind → String
  | .any => "any"
  | .int => "int"
  | .float => "float"
  | .bool => "bool"
  | .str => "string"

def Kind.dump : Kind → String
  | .any => "Any"
  | .int => "Int"
  | .float => "Float"
  | .bool => "Bool"
  | .str => "Str"

namespace Value

def unwrapped : Value → Value
  | .pair _ v => v.unwrapped
  | v => v

def isNil : Value → Bool
  | .nil => true
  | _ => false

def string? : Value → Option String
  | .str s => some s
  | _ => none

def address? : Value → Option Address
  | .ref r => some r
  | _ => none

/-- Whether two values are the same: floats as numbers, objects by address. -/
def same : Value → Value → Bool
  | .nil, .nil => true
  | .bool a, .bool b => a == b
  | .int a, .int b => a == b
  | .float a, .float b => a == b
  | .str a, .str b => a == b
  | .pair k v, .pair l w => k == l && v.same w
  | .ref a, .ref b => a == b
  | _, _ => false

def hasKind : Value → Kind → Bool
  | _, .any => true
  | .int _, .int => true
  | .float _, .float => true
  | .bool _, .bool => true
  | .str _, .str => true
  | _, _ => false

end Value

end HostScript
