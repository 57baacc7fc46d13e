import HostScript.Object.Access

/-!
# Ranging

A cursor walks a value one key and element at a time, so that what has not been walked yet is still
there after an early end. How far it can walk is settled when it is made, except over an object that
iterates itself.
-/

namespace HostScript

variable {P : Platform}

inductive Cursor where
  | count (stop next : Int64)
  | bytes (rest : List UInt8) (next : Nat)
  | iterator (object : Address) (next : Nat)
  /-- The entries of an object as they were at the start. -/
  | entries (rest : List (Value × Value))
  /-- The positions of a sequence from one on, up to its length at the start. -/
  | sequence (object : Address) (length next : Nat)

namespace Cursor

/-- The start of a walk. An object that can be walked in more than one way iterates itself, else
gives its entries, else its elements. -/
def start (H : Host P) (w : World P) : Value → Except Failure Cursor
  | .int n => .ok (.count n 0)
  | .str s => .ok (.bytes (Text.bytes s) 0)
  | .pair _ v => start H w v
  | .ref r =>
    match H.iterableOf? w r, H.entriesOf? w r, H.lengthOf? w r, H.indexedOf? w r with
    | some _, _, _, _ => .ok (.iterator r 0)
    | none, some pairs, _, _ => .ok (.entries pairs)
    | none, none, some length, some _ => .ok (.sequence r length 0)
    | _, _, _, _ => .error (.of (.cannotRange (w.view.typeName r)))
  | v => .error (.of (.cannotRange (w.view.valueType v)))

def next? (H : Host P) : Cursor → Act P (Option ((Value × Value) × Cursor))
  | .count stop next =>
    return if next < stop then some ((.int next, .int next), .count stop (next + 1)) else none
  | .bytes [] _ => return none
  | .bytes (b :: rest) next => return some ((.ofNat next, .ofByte b), .bytes rest (next + 1))
  | .iterator r next => do
    match H.iterableOf? (← get) r with
    | some iterable =>
      if ← iterable.hasNext then
        return some ((.ofNat next, ← iterable.next), .iterator r (next + 1))
      else return none
    | none => return none
  | .entries [] => return none
  | .entries (entry :: rest) => return some (entry, .entries rest)
  | .sequence r length next => do
    if next < length then
      let w ← get
      let v ← match H.indexedOf? w r with
        | some indexed => Act.ofExcept (Host.element w indexed next)
        | none => pure .nil
      return some ((.ofNat next, v), .sequence r length (next + 1))
    else return none

end Cursor

end HostScript
