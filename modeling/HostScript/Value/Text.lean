import HostScript.Numeral.Decimal
import HostScript.Text.Layout
import HostScript.Value.View

/-!
# Values as text

The plain text of a value, as scripts and messages show it, and the text that shows its structure.
-/

namespace HostScript

open Numeral Text

def Value.text (describe : Address → String) : Value → String
  | .nil => "nil"
  | .bool b => boolean b
  | .int n => intText n.toInt
  | .float x => floatText x
  | .str s => s
  | .pair k v => k ++ ": " ++ v.text describe
  | .ref r => describe r

/-- The structure of a value, given that of objects; none if it holds an object whose structure is
not shown. -/
def Value.dump? (object : Address → Option String) : Value → Option String
  | .nil => some "Nil"
  | .bool b => some (tuple "Bool" [boolean b])
  | .int n => some (tuple "Int" [intText n.toInt])
  | .float x => some (tuple "Float" [floatText x])
  | .str s => some (tuple "Str" [quote s])
  | .pair k v => (v.dump? object).map fun part => tuple "KeyValue" [quote k ++ ": " ++ part]
  | .ref r => (object r).map fun part => tuple "Ref" [part]

def View.text (view : View) (v : Value) : String :=
  v.text view.describe

def View.valueDump? (view : View) (v : Value) : Option String :=
  v.dump? view.dump?

end HostScript
