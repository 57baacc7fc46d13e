import HostScript.Numeral.Integer
import HostScript.Names.Table
import HostScript.Text.Layout
import HostScript.Value.Basic

/-!
# Scopes

Scopes stand on a stack with the global one at the bottom. Names are looked up along a chain of
parents, which is not the stack: the parent of a function's scope is the global scope, although its
caller's scopes are still below it. A scope that the host holds on to outlives its place on the
stack; all others go when they leave it.
-/

namespace HostScript

/-- Which scope. Parents have smaller handles than their children, and the global scope
has the least. -/
abbrev Handle := Nat

def blank : String := "_"

structure Scope where
  bindings : Table Value
  parent : Option Handle

/-- What holds of scopes by handle, of a stack of them, the current one first, and of the handle
below which scopes are held. -/
structure Grounded (cells : Array Scope) (stack : List Handle) (held : Handle) : Prop where
  bottom : stack.getLast? = some 0
  newer : stack.Pairwise fun upper lower => lower < upper
  present : ∀ h ∈ stack, h < cells.size
  held_le : held ≤ cells.size
  /-- Names are looked up in older scopes, and last in the global one. -/
  older : ∀ h scope, cells[h]? = some scope →
    (scope.parent = none ↔ h = 0) ∧ ∀ parent, scope.parent = some parent → parent < h

/-- All scopes by handle, the stack with the current scope first, and the handle below which scopes
are held. -/
structure Scopes where
  cells : Array Scope
  stack : List Handle
  held : Handle
  grounded : Grounded cells stack held

namespace Scopes

def global : Handle := 0

def initial : Scopes where
  cells := #[⟨[], none⟩]
  stack := [global]
  held := 0
  grounded :=
    { bottom := rfl
      newer := List.pairwise_singleton _ _
      present := by simp [global]
      held_le := Nat.zero_le _
      older := by
        intro h scope hs
        obtain ⟨hh, rfl⟩ := Array.getElem?_eq_some_iff.mp hs
        have : h = 0 := by simpa using hh
        simp [this] }

def depth (s : Scopes) : Nat :=
  s.stack.length

def current (s : Scopes) : Handle :=
  s.stack.headD global

theorem stack_ne_nil (s : Scopes) : s.stack ≠ [] := by
  intro h
  have hb := s.grounded.bottom
  simp [h] at hb

theorem current_mem (s : Scopes) : s.current ∈ s.stack := by
  unfold current
  cases h : s.stack with
  | nil => exact absurd h s.stack_ne_nil
  | cons top below => simp

theorem current_lt (s : Scopes) : s.current < s.cells.size :=
  s.grounded.present _ s.current_mem

theorem global_lt (s : Scopes) : global < s.cells.size :=
  s.grounded.present _ (List.mem_of_getLast? s.grounded.bottom)

def pushBelow (s : Scopes) (parent : Handle) (hp : parent < s.cells.size) : Scopes where
  cells := s.cells.push ⟨[], some parent⟩
  stack := s.cells.size :: s.stack
  held := s.held
  grounded :=
    { bottom := by
        rw [List.getLast?_cons, s.grounded.bottom]
        rfl
      newer := List.pairwise_cons.mpr ⟨s.grounded.present, s.grounded.newer⟩
      present := by
        intro h hh
        rw [Array.size_push]
        rcases List.mem_cons.mp hh with rfl | hh
        · exact Nat.lt_succ_self _
        · exact Nat.lt_succ_of_lt (s.grounded.present h hh)
      held_le := by
        rw [Array.size_push]
        exact Nat.le_succ_of_le s.grounded.held_le
      older := by
        intro h scope hs
        rw [Array.getElem?_push] at hs
        split at hs
        · rename_i he
          cases hs
          refine ⟨⟨nofun, fun h0 => ?_⟩, fun q hq => ?_⟩
          · exact absurd s.global_lt (by simp [← he, h0])
          · cases hq
            exact he ▸ hp
        · exact s.grounded.older h scope hs }

def push (s : Scopes) : Scopes :=
  s.pushBelow s.current s.current_lt

/-- A new scope that sees the global one and no other. -/
def pushRoot (s : Scopes) : Scopes :=
  s.pushBelow global s.global_lt

def cellsWithout (s : Scopes) (top : Handle) : Array Scope :=
  if s.held ≤ top ∧ top + 1 = s.cells.size then s.cells.pop else s.cells

theorem grounded_pop {s : Scopes} {top next : Handle} {rest : List Handle}
    (hs : s.stack = top :: next :: rest) :
    Grounded (s.cellsWithout top) (next :: rest) s.held := by
  have hg := s.grounded
  rw [hs] at hg
  obtain ⟨hbelow, hnewer⟩ := List.pairwise_cons.mp hg.newer
  have hpresent : ∀ h ∈ next :: rest, h < s.cells.size :=
    fun h hh => hg.present h (List.mem_cons_of_mem _ hh)
  have hbottom : (next :: rest).getLast? = some 0 := by
    rw [← hg.bottom, List.getLast?_cons_cons]
  unfold cellsWithout
  split
  · rename_i hgo
    have hsize : s.cells.pop.size = top := by
      rw [Array.size_pop, ← hgo.2]
      rfl
    refine ⟨hbottom, hnewer, fun h hh => hsize ▸ hbelow h hh, hsize ▸ hgo.1, ?_⟩
    intro h scope hh
    rw [Array.getElem?_pop] at hh
    split at hh
    · exact hg.older h scope hh
    · cases hh
  · exact ⟨hbottom, hnewer, hpresent, hg.held_le, hg.older⟩

/-- Takes the current scope from the stack, and away unless it is held; the global scope stays. -/
def pop (s : Scopes) : Scopes :=
  match hs : s.stack with
  | top :: next :: rest => ⟨s.cellsWithout top, next :: rest, s.held, grounded_pop hs⟩
  | _ => s

/-- The scopes, of which the current one will outlive its place on the stack. -/
def hold (s : Scopes) : Scopes where
  cells := s.cells
  stack := s.stack
  held := max s.held (s.current + 1)
  grounded :=
    { s.grounded with
      held_le := Nat.max_le.mpr ⟨s.grounded.held_le, s.current_lt⟩ }

def bindings (s : Scopes) (h : Handle) : Table Value :=
  (s.cells[h]?.map Scope.bindings).getD []

def chainWithin (s : Scopes) : Nat → Handle → List Handle
  | 0, _ => []
  | n + 1, h =>
    h :: match s.cells[h]?.bind Scope.parent with
      | some parent => s.chainWithin n parent
      | none => []

def chain (s : Scopes) (h : Handle) : List Handle :=
  s.chainWithin (h + 1) h

/-- Binds a name in a scope, and hides what it means further out. The blank name is not bound. -/
def defineIn (s : Scopes) (h : Handle) (name : String) (v : Value) : Scopes :=
  if name = blank then s
  else
    { cells := s.cells.modify h fun scope =>
        { scope with bindings := scope.bindings.put name v }
      stack := s.stack
      held := s.held
      grounded :=
        { s.grounded with
          present := by simpa using s.grounded.present
          held_le := by simpa using s.grounded.held_le
          older := by
            intro h' scope hs
            rw [Array.getElem?_modify] at hs
            split at hs
            · obtain ⟨scope', hs', rfl⟩ := Option.map_eq_some_iff.mp hs
              exact s.grounded.older h' scope' hs'
            · exact s.grounded.older h' scope hs } }

def declareIn (s : Scopes) (h : Handle) (name : String) : Scopes :=
  s.defineIn h name .nil

def binder? (s : Scopes) (h : Handle) (name : String) : Option Handle :=
  (s.chain h).find? fun scope => (s.bindings scope).has name

def lookupFrom (s : Scopes) (h : Handle) (name : String) : Option Value :=
  (s.binder? h name).bind fun scope => (s.bindings scope).get? name

def assignFrom (s : Scopes) (h : Handle) (name : String) (v : Value) : Option Scopes :=
  (s.binder? h name).map fun scope => s.defineIn scope name v

def define (s : Scopes) (name : String) (v : Value) : Scopes :=
  s.defineIn s.current name v

def declare (s : Scopes) (name : String) : Scopes :=
  s.declareIn s.current name

def lookup (s : Scopes) (name : String) : Option Value :=
  s.lookupFrom s.current name

def assign (s : Scopes) (name : String) (v : Value) : Option Scopes :=
  s.assignFrom s.current name v

/-- Changes what a name means where the current scope finds it, and binds it there if
it finds none. -/
def store (s : Scopes) (name : String) (v : Value) : Scopes :=
  (s.assign name v).getD (s.define name v)

def dump (s : Scopes) : String :=
  Text.record "Environment"
    [("depth", Numeral.natText s.depth),
      ("globals", Text.sequence ((s.bindings global).keys.map Text.quote))]

end Scopes

end HostScript
