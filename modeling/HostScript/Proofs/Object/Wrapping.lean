import HostScript.Proofs.Object.Acts

/-!
# Looking through names

A named value is a value that a script can look through, however often it is named: its own two
fields are all that the name adds. Access by key, ranging and spreading take it for what is named,
and so does access to a field, but for these two.
-/

namespace HostScript

variable {P : Platform}

def Value.ownFields : List String := ["key", "value"]

/-- A value under names, the outermost first. -/
def Value.wrapped (v : Value) : List String → Value
  | [] => v
  | key :: keys => .pair key (v.wrapped keys)

@[simp] theorem Value.unwrapped_ref (r : Address) : (Value.ref r).unwrapped = .ref r := rfl

@[simp] theorem Value.unwrapped_wrapped (v : Value) (keys : List String) :
    (v.wrapped keys).unwrapped = v.unwrapped := by
  induction keys with
  | nil => rfl
  | cons key keys ih => exact ih

namespace Host

variable (H : Host P) (w : World P)

theorem project?_unwrapped {name : String} (hname : name ∉ Value.ownFields) (v : Value) :
    H.project? w v name = H.project? w v.unwrapped name := by
  have hkey : name ≠ "key" := fun h => hname (by simp [h, Value.ownFields])
  have hvalue : name ≠ "value" := fun h => hname (by simp [h, Value.ownFields])
  induction v with
  | pair key v ih => rwa [project?, if_neg hkey, if_neg hvalue, Value.unwrapped]
  | _ => rfl

theorem project?_own (key : String) (v : Value) {name : String} (hname : name ∈ Value.ownFields) :
    H.project? w (.pair key v) name = some (if name = "key" then .str key else v) := by
  simp only [Value.ownFields, List.mem_cons, List.not_mem_nil, or_false] at hname
  rcases hname with rfl | rfl <;> simp [project?]

theorem index_unwrapped (v key : Value) : H.index w v key = H.index w v.unwrapped key := by
  induction v with
  | pair _ v ih => exact ih
  | _ => rfl

theorem items_unwrapped (v : Value) : H.items w v = H.items w v.unwrapped := by
  induction v with
  | pair _ v ih => exact ih
  | _ => rfl

end Host

theorem Cursor.start_unwrapped (H : Host P) (w : World P) (v : Value) :
    Cursor.start H w v = Cursor.start H w v.unwrapped := by
  induction v with
  | pair _ v ih => exact ih
  | _ => rfl

end HostScript
