import HostScript.Syntax.Basic

/-!
# Dotted names

A dotted name is split at every dot, so that each text is the name of exactly one path without
indices; the member of a call stands behind the last dot.
-/

namespace HostScript

def dottedParts (name : String) : List String :=
  (name.toList.splitOn '.').map String.ofList

def joinDotted (parts : List String) : String :=
  ".".intercalate parts

namespace Segment

def named (name : String) : Segment := ⟨name, []⟩

/-- The name, and a pair of brackets for each index. -/
def text (s : Segment) : String :=
  s.name ++ String.join (s.index.map fun _ => "[]")

end Segment

namespace Path

def ofDotted (name : String) : Path :=
  ⟨(dottedParts name).map Segment.named⟩

/-- The path that a dotted name writes, with indices behind its last part. -/
def indexed (name : String) (index : List Expr) : Path :=
  let segments := (ofDotted name).segments
  ⟨segments.modify (segments.length - 1) fun s => { s with index }⟩

def root (p : Path) : String :=
  (p.segments.head?.map Segment.name).getD ""

def isSimple (p : Path) : Bool :=
  match p.segments with
  | [s] => s.index.isEmpty
  | _ => false

def text (p : Path) : String :=
  joinDotted (p.segments.map Segment.text)

end Path

def receiverAndMember? (name : String) : Option (String × String) :=
  match (dottedParts name).reverse with
  | member :: second :: rest => some (joinDotted (second :: rest).reverse, member)
  | _ => none

end HostScript
