/-!
# Tables

Keys with what stands under them, each key once. New keys come last.
-/

namespace HostScript

abbrev Table (α : Type) := List (String × α)

namespace Table

variable {α : Type}

def put (key : String) (a : α) : Table α → Table α
  | [] => [(key, a)]
  | (k, b) :: rest => if k = key then (k, a) :: rest else (k, b) :: put key a rest

def get? (table : Table α) (key : String) : Option α :=
  table.lookup key

def has (table : Table α) (key : String) : Bool :=
  (table.get? key).isSome

def keys (table : Table α) : List String :=
  (table.map (·.1)).mergeSort fun a b => decide (a ≤ b)

end Table

end HostScript
