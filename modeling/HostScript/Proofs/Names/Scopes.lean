import HostScript.Names.Scopes

/-!
# The shape of scopes

The shape of scopes is all but what they bind: which scopes there are, where each one looks names
up, and which of them are on the stack. Binding names keeps it (`SameShape.defineIn`), and a scope
that is pushed and then popped leaves no trace in it (`SameShape.pop_pushBelow`).
-/

namespace HostScript.Scopes

def parents (s : Scopes) : Array (Option Handle) :=
  s.cells.map Scope.parent

/-- The same scopes on the same stack, whatever they bind. -/
structure SameShape (s s' : Scopes) : Prop where
  stack : s'.stack = s.stack
  parents : s'.parents = s.parents
  held : s'.held = s.held

namespace SameShape

variable {s s' s'' : Scopes}

theorem refl (s : Scopes) : SameShape s s := ⟨rfl, rfl, rfl⟩

theorem trans (h : SameShape s s') (h' : SameShape s' s'') : SameShape s s'' :=
  ⟨h'.stack.trans h.stack, h'.parents.trans h.parents, h'.held.trans h.held⟩

theorem size (h : SameShape s s') : s'.cells.size = s.cells.size := by
  simpa [Scopes.parents] using congrArg Array.size h.parents

theorem defineIn (s : Scopes) (h : Handle) (name : String) (v : Value) :
    SameShape s (s.defineIn h name v) := by
  unfold Scopes.defineIn
  split
  · exact .refl s
  · refine ⟨rfl, ?_, rfl⟩
    apply Array.ext_getElem?
    intro i
    simp only [Scopes.parents, Array.getElem?_map, Array.getElem?_modify]
    split
    · rw [Option.map_map]
      rfl
    · rfl

theorem define (s : Scopes) (name : String) (v : Value) : SameShape s (s.define name v) :=
  .defineIn s s.current name v

theorem store (s : Scopes) (name : String) (v : Value) : SameShape s (s.store name v) := by
  unfold Scopes.store assign assignFrom
  cases s.binder? s.current name with
  | none => exact .define s name v
  | some h => exact .defineIn s h name v

theorem pop_eq {parent : Handle} (hp : parent < s.cells.size)
    (h : SameShape (s.pushBelow parent hp) s') :
    s'.pop.cells = s'.cells.pop ∧ s'.pop.stack = s.stack ∧ s'.pop.held = s'.held := by
  obtain ⟨next, rest, hnext⟩ := List.exists_cons_of_ne_nil s.stack_ne_nil
  have hstack : s'.stack = s.cells.size :: next :: rest := by rw [h.stack, ← hnext]; rfl
  have hsize : s'.cells.size = s.cells.size + 1 := h.size.trans (Array.size_push _)
  have hcells : s'.cellsWithout s.cells.size = s'.cells.pop :=
    if_pos ⟨h.held ▸ s.grounded.held_le, hsize.symm⟩
  rw [← hcells, hnext]
  unfold Scopes.pop
  split
  · rename_i heq
    rw [hstack] at heq
    cases heq
    exact ⟨rfl, rfl, rfl⟩
  · rename_i hno
    exact absurd hstack (hno _ _ _)

theorem pop_pushBelow {parent : Handle} (hp : parent < s.cells.size)
    (h : SameShape (s.pushBelow parent hp) s') : SameShape s s'.pop := by
  obtain ⟨hcells, hstack, hheld⟩ := pop_eq hp h
  refine ⟨hstack, ?_, hheld.trans h.held⟩
  rw [Scopes.parents, hcells, Array.map_pop]
  have hparents := congrArg Array.pop h.parents
  rw [Scopes.parents, Scopes.parents, Scopes.pushBelow, Array.map_push, Array.pop_push] at hparents
  exact hparents

end SameShape

/-- A stack whose top was not there when the scopes were `s`, and stands above all that was. -/
def Above (s : Scopes) (stack : List Handle) : Prop :=
  ∃ top below, stack = top :: below ∧ top ∉ s.stack ∧ s.stack <:+ below

namespace Above

variable {s s' : Scopes} {stack : List Handle}

theorem pushed {parent : Handle} (hp : parent < s.cells.size)
    (h : SameShape (s.pushBelow parent hp) s') : Above s s'.stack := by
  refine ⟨s.cells.size, s.stack, h.stack, fun hm => ?_, List.suffix_rfl⟩
  exact Nat.lt_irrefl _ (s.grounded.present _ hm)

theorem of_pushBelow {parent : Handle} (hp : parent < s.cells.size)
    (h : Above (s.pushBelow parent hp) stack) : Above s stack := by
  obtain ⟨top, below, rfl, hnew, hbelow⟩ := h
  exact ⟨top, below, rfl, fun hm => hnew (List.mem_cons_of_mem _ hm),
    (List.suffix_cons _ _).trans hbelow⟩

theorem congr (hs : SameShape s s') (h : Above s' stack) : Above s stack := by
  simpa only [Above, hs.stack] using h

theorem not_global (h : Above s stack) :
    ∃ top below, stack = top :: below ∧ top ≠ global ∧ s.stack <:+ below := by
  obtain ⟨top, below, rfl, hnew, hbelow⟩ := h
  refine ⟨top, below, rfl, ?_, hbelow⟩
  rintro rfl
  exact hnew (List.mem_of_getLast? s.grounded.bottom)

end Above

end HostScript.Scopes
