import HostScript.Text.Layout
import HostScript.Value.Coercion

/-!
# Signatures

What a host function declares of its arguments: a kind for each, and perhaps one kind for all
further ones. Binding checks the number of arguments and turns each into what is declared, so that a
function only ever sees arguments as it declares them.
-/

namespace HostScript

open Text

structure Signature where
  params : List Kind
  rest : Option Kind
  deriving DecidableEq, Repr

namespace Signature

def fixed (params : List Kind) : Signature := ⟨params, none⟩

def variadic (params : List Kind) (rest : Kind) : Signature := ⟨params, some rest⟩

def takes (s : Signature) (count : Nat) : Bool :=
  match s.rest with
  | some _ => decide (s.params.length ≤ count)
  | none => decide (s.params.length = count)

def kindAt (s : Signature) (index : Nat) : Kind :=
  (s.params[index]?.or s.rest).getD .any

/-- The arguments from an index on as what the signature declares; the first that cannot be stops
the others. -/
def castFrom (view : View) (s : Signature) :
    Nat → List Value → Except (Option Nat × Failure) (List Value)
  | _, [] => .ok []
  | index, v :: rest =>
    match view.cast v (s.kindAt index) index with
    | .error e => .error (some index, e)
    | .ok v => (s.castFrom view (index + 1) rest).map (v :: ·)

/-- The arguments as what the signature declares. A failure comes with the index of the argument
that is to blame; a wrong number of arguments is the fault of none. -/
def bind (view : View) (s : Signature) (args : List Value) :
    Except (Option Nat × Failure) (List Value) :=
  if s.takes args.length then s.castFrom view 0 args
  else .error (none, .of (.parameterMismatch s.params.length args.length))

def dump (s : Signature) : String :=
  record "Signature"
    [("params", sequence (s.params.map Kind.dump)), ("variadic", optional (s.rest.map Kind.dump))]

end Signature

end HostScript
