import HostScript.Object.Host
import HostScript.Text.Bytes

/-!
# Fields, indices and elements

How a script looks into a value. Named values are looked through, except for their own two fields
`key` and `value`; a string is the sequence of its bytes.
-/

namespace HostScript

variable {P : Platform}

def Value.ofByte (b : UInt8) : Value :=
  .int (.ofNat b.toNat)

def Value.ofNat (n : Nat) : Value :=
  .int (.ofNat n)

namespace Host

/-- `value.name`: a field of that name, else what stands under that key. -/
def project? (H : Host P) (w : World P) : Value → String → Option Value
  | .pair key v, name =>
    if name = "key" then some (.str key)
    else if name = "value" then some v
    else H.project? w v name
  | .ref r, name =>
    match (H.fieldsOf? w r).bind (·.get? w name) with
    | some v => some v
    | none =>
      match H.indexedOf? w r with
      | some indexed =>
        match indexed.get? w (.str name) with
        | .ok found => found
        | .error _ => none
      | none => none
  | _, _ => none

def index (H : Host P) (w : World P) : Value → Value → Except Failure Value
  | .pair _ v, key => H.index w v key
  | .ref r, key =>
    match H.indexedOf? w r with
    | some indexed => return (← indexed.get? w key).getD .nil
    | none => .error (.of (.cannotIndex (w.view.typeName r)))
  | .str s, key => do
    let index ← w.view.asInt key
    let bytes := Text.bytes s
    let place ← placeIn bytes.length index
    return (bytes[place]?.map Value.ofByte).getD .nil
  | v, _ => .error (.of (.cannotIndex (w.view.valueType v)))

def element (w : World P) (indexed : Indexed P) (position : Nat) : Except Failure Value :=
  return (← indexed.get? w (.ofNat position)).getD .nil

def items (H : Host P) (w : World P) : Value → Except Failure (List Value)
  | .str s => .ok ((Text.bytes s).map Value.ofByte)
  | .pair _ v => H.items w v
  | .ref r =>
    match H.lengthOf? w r, H.indexedOf? w r with
    | some length, some indexed => (List.range length).mapM (element w indexed)
    | _, _ => .error (.of (.cannotRange (w.view.typeName r)))
  | v => .error (.of (.cannotRange (w.view.valueType v)))

end Host

end HostScript
