import HostScript.Text.Quoted

/-!
# Structure shown on one line

How a record, a tuple, a sequence or an optional part is laid out when a value is shown with its
structure.
-/

namespace HostScript.Text

def sequence (parts : List String) : String :=
  "[" ++ commaSeparated parts ++ "]"

def tuple (name : String) (parts : List String) : String :=
  name ++ "(" ++ commaSeparated parts ++ ")"

def record (name : String) (fields : List (String × String)) : String :=
  name ++ " \x7b " ++
    commaSeparated (fields.map fun (field, part) => field ++ ": " ++ part) ++ " \x7d"

def openRecord (name : String) (fields : List (String × String)) : String :=
  name ++ " \x7b " ++
    commaSeparated ((fields.map fun (field, part) => field ++ ": " ++ part) ++ [".."])
    ++ " \x7d"

def optional : Option String → String
  | none => "None"
  | some part => tuple "Some" [part]

def boolean (b : Bool) : String :=
  if b then "true" else "false"

end HostScript.Text
