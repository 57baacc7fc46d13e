import HostScript.Numeral.Integer

/-!
# Positions

Where a node stands: in which unit of source text, on which line, in which column.
-/

namespace HostScript

/-- A place in a unit of source text. The unit is the identity of the text, and private functions
belong to it. -/
structure Position where
  unit : String
  line : Nat
  column : Nat
  deriving DecidableEq, Repr, Inhabited

namespace Position

def hostUnit : String := "<host>"

def host : Position := ⟨hostUnit, 0, 0⟩

def text (p : Position) : String :=
  p.unit ++ ":" ++ Numeral.natText p.line ++ ":" ++ Numeral.natText p.column

end Position

end HostScript
