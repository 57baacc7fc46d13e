import HostScript.Object.Basic

/-!
# How objects look

The text of a list or a map holds those of its elements. Objects may contain themselves, so a
container that is open already, because its text or one of its elements is being worked out further
up, is abbreviated.
-/

namespace HostScript

namespace Object

variable {P : Platform}

def typeName : Object P → String
  | .list _ => "list"
  | .map _ => "map"
  | .package p => p.name
  | .function _ => "function"
  | .foreign cell => P.typeName cell

def scalar? : Object P → Option Value
  | .foreign cell => P.scalar? cell
  | _ => none

def dump? : Object P → Option String
  | .function f => some f.dump
  | _ => none

def text (inner : Address → String) : Object P → String
  | .list items => "[" ++ Text.commaSeparated (items.toList.map (Value.text inner)) ++ "]"
  | .map entries =>
    "\x7b"
      ++ Text.commaSeparated (entries.pairs.map fun (key, v) => key ++ ": " ++ v.text inner)
      ++ "\x7d"
  | .package p => "<package " ++ p.name ++ ">"
  | .function f => "<function " ++ f.name ++ ">"
  | .foreign cell => P.describe cell

def abbreviation? : Object P → Option String
  | .list _ => some "[...]"
  | .map _ => some "\x7b...\x7d"
  | _ => none

end Object

namespace World

variable {P : Platform}

/-- The text of the object at an address while some containers are open. Every step down opens
another container, so more steps than there are objects are never taken. -/
def describeWithin (w : World P) : Nat → List Address → Address → String
  | 0, _, _ => ""
  | n + 1, opened, r =>
    match w.object? r with
    | none => "<nothing>"
    | some o =>
      match o.abbreviation?, opened.contains r with
      | some short, true => short
      | _, _ => o.text (w.describeWithin n (r :: opened))

def viewWithin (w : World P) (opened : List Address) : View where
  size := w.objects.size
  scalar? r := (w.object? r).bind Object.scalar?
  typeName r := ((w.object? r).map Object.typeName).getD "nothing"
  describe := w.describeWithin (w.objects.size + 1) opened
  dump? r := (w.object? r).bind Object.dump?

def view (w : World P) : View :=
  w.viewWithin []

end World

end HostScript
