import HostScript.Value.Basic

/-!
# Entries of a map

A finite function from strings to values, held as pairs in strictly ascending order of their keys.
-/

namespace HostScript

structure Entries where
  pairs : List (String × Value)
  ascending : pairs.Pairwise fun p q => p.1 < q.1

namespace Entries

def empty : Entries := ⟨[], .nil⟩

def put (key : String) (v : Value) : List (String × Value) → List (String × Value)
  | [] => [(key, v)]
  | p :: rest =>
    if key < p.1 then (key, v) :: p :: rest
    else if p.1 < key then p :: put key v rest
    else (p.1, v) :: rest

theorem mem_put {key : String} {v : Value} {pairs : List (String × Value)} {q : String × Value}
    (h : q ∈ put key v pairs) : q.1 = key ∨ q.1 ∈ pairs.map (·.1) := by
  induction pairs with
  | nil => simp_all [put]
  | cons p rest ih =>
    simp only [put] at h
    split at h
    · simp only [List.mem_cons] at h
      grind
    · split at h <;> grind

theorem ascending_put {key : String} {v : Value} {pairs : List (String × Value)}
    (h : pairs.Pairwise fun p q => p.1 < q.1) :
    (put key v pairs).Pairwise fun p q => p.1 < q.1 := by
  induction pairs with
  | nil => exact List.pairwise_singleton _ _
  | cons p rest ih =>
    obtain ⟨hp, hrest⟩ := List.pairwise_cons.mp h
    simp only [put]
    split
    next hlt =>
      -- the new key comes before all others
      refine List.pairwise_cons.mpr ⟨fun q hq => ?_, h⟩
      rcases List.mem_cons.mp hq with rfl | hq
      · exact hlt
      · exact String.lt_trans hlt (hp q hq)
    next =>
      split
      next hgt =>
        refine List.pairwise_cons.mpr ⟨fun q hq => ?_, ih hrest⟩
        rcases mem_put hq with he | he
        · exact he ▸ hgt
        · obtain ⟨x, hx, hxq⟩ := List.mem_map.mp he
          exact hxq ▸ hp x hx
      next => exact List.pairwise_cons.mpr ⟨hp, hrest⟩

def insert (entries : Entries) (key : String) (v : Value) : Entries :=
  ⟨put key v entries.pairs, ascending_put entries.ascending⟩

/-- The entries of pairs in any order; of two values of a key the later counts. -/
def ofList (pairs : List (String × Value)) : Entries :=
  pairs.foldl (fun entries (key, v) => entries.insert key v) empty

def get? (entries : Entries) (key : String) : Option Value :=
  entries.pairs.lookup key

def keys (entries : Entries) : List String :=
  entries.pairs.map (·.1)

def size (entries : Entries) : Nat :=
  entries.pairs.length

end Entries

end HostScript
