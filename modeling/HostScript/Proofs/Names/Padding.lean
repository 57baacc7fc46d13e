import HostScript.Proofs.Names.Visibility

/-!
# A scope that binds nothing

One more scope among others makes no difference to what names mean as long as nothing is bound in it
(`Padded`): names are found where they were found without it, and are changed there. Handles above
it are one greater. Names that are bound stay bound until their scope goes (`Growing`), so that a
scope which binds nothing in the end has never bound anything.
-/

namespace HostScript

theorem Table.put_ne_nil {α : Type} (table : Table α) (key : String) (a : α) :
    table.put key a ≠ [] := by
  cases table with
  | nil => exact List.cons_ne_nil _ _
  | cons entry rest =>
    unfold put
    split <;> exact List.cons_ne_nil _ _

theorem Table.eq_nil_of_has {α : Type} {table : Table α} (h : ∀ key, table.has key = false) :
    table = [] := by
  cases table with
  | nil => rfl
  | cons entry rest =>
    have hkey := h entry.1
    simp [has, get?_cons] at hkey

namespace Scopes

variable {s s' n n' : Scopes} {k h : Handle} {name : String} {v : Value}

namespace SameShape

theorem symm (hs : SameShape s s') : SameShape s' s :=
  ⟨hs.stack.symm, hs.parents.symm, hs.held.symm⟩

theorem push (hs : SameShape s s') : SameShape s.push s'.push := by
  refine ⟨?_, ?_, hs.held⟩
  · change s'.cells.size :: s'.stack = s.cells.size :: s.stack
    rw [hs.size, hs.stack]
  · have hparents := hs.parents
    simp only [Scopes.parents, Scopes.push, pushBelow, Array.map_push, hs.current] at hparents ⊢
    rw [hparents]

theorem ext (hs : SameShape s s') (hb : ∀ h, s'.bindings h = s.bindings h) : s' = s := by
  have hcells : s'.cells = s.cells := Array.ext_getElem? fun h => hs.cells (hb h)
  obtain ⟨cells, stack, held, _⟩ := s
  obtain ⟨cells', stack', held', _⟩ := s'
  obtain rfl : cells' = cells := hcells
  obtain rfl : stack' = stack := hs.stack
  obtain rfl : held' = held := hs.held
  rfl

end SameShape

theorem bindings_defineIn_self (name : String) (v : Value) (hlt : h < s.cells.size) :
    (s.defineIn h name v).bindings h =
      if name = blank then s.bindings h else (s.bindings h).put name v := by
  unfold defineIn
  split
  · rfl
  · simp [bindings, Array.getElem?_modify, Array.getElem?_eq_getElem hlt]

-- ---------------------------------------------------------------------------
-- Names stay
-- ---------------------------------------------------------------------------

structure Growing (s s' : Scopes) : Prop where
  shape : SameShape s s'
  grows : ∀ h, s'.bindings h = [] → s.bindings h = []

namespace Growing

theorem refl (s : Scopes) : Growing s s :=
  ⟨.refl s, fun _ => id⟩

theorem trans {s'' : Scopes} (hs : Growing s s') (hs' : Growing s' s'') : Growing s s'' :=
  ⟨hs.shape.trans hs'.shape, fun h hh => hs.grows h (hs'.grows h hh)⟩

theorem defineIn (hlt : h < s.cells.size) (name : String) (v : Value) :
    Growing s (s.defineIn h name v) := by
  refine ⟨.defineIn s h name v, fun x hx => ?_⟩
  by_cases hne : x = h
  · subst hne
    rw [bindings_defineIn_self name v hlt] at hx
    split at hx
    · exact hx
    · exact absurd hx (Table.put_ne_nil _ name v)
  · rwa [bindings_defineIn_ne s name v hne] at hx

theorem define (s : Scopes) (name : String) (v : Value) : Growing s (s.define name v) :=
  .defineIn s.current_lt name v

theorem store (s : Scopes) (name : String) (v : Value) : Growing s (s.store name v) := by
  unfold Scopes.store assign assignFrom
  cases hb : s.binder? s.current name with
  | none => exact define s name v
  | some x =>
    have hle := le_of_mem_chain (binder?_eq_some hb).1
    exact .defineIn (Nat.lt_of_le_of_lt hle s.current_lt) name v

theorem pop {parent : Handle} (hp : parent < s.cells.size)
    (hs : Growing (s.pushBelow parent hp) s') : Growing s s'.pop := by
  refine ⟨.pop_pushBelow hp hs.shape, fun h hh => ?_⟩
  by_cases hlt : h < s.cells.size
  · rw [bindings_pop hp hs.shape hlt] at hh
    rw [← bindings_pushBelow hp]
    exact hs.grows h hh
  · exact bindings_beyond (Nat.le_of_not_lt hlt)

end Growing

-- ---------------------------------------------------------------------------
-- Padding
-- ---------------------------------------------------------------------------

/-- Which scope it is once there is one more at a handle. -/
def lift (k h : Nat) : Nat :=
  if h < k then h else h + 1

theorem lift_of_lt (hlt : h < k) : lift k h = h := if_pos hlt

theorem lift_of_le (hle : k ≤ h) : lift k h = h + 1 := if_neg (Nat.not_lt.mpr hle)

theorem lift_ne (k h : Nat) : lift k h ≠ k := by
  unfold lift
  split <;> omega

theorem lift_injective {x y : Nat} (hxy : lift k x = lift k y) : x = y := by
  unfold lift at hxy
  split at hxy <;> split at hxy <;> omega

theorem lift_lt {k h size : Nat} (hlt : h < size) : lift k h < size + 1 := by
  unfold lift
  split <;> omega

/-- The scopes that are seen are the same but for one more, which is not the global one
and binds nothing. -/
structure Padded (k : Handle) (s s' : Scopes) : Prop where
  above : global < k
  inside : k ≤ s.cells.size
  size : s'.cells.size = s.cells.size + 1
  chain : (s'.chain s'.current).filter (· ≠ k) = (s.chain s.current).map (lift k)
  bindings : ∀ h, s'.bindings (lift k h) = s.bindings h
  blank : s'.bindings k = []

namespace Padded

variable (hs : Padded k s s')
include hs

theorem binder? (name : String) :
    s'.binder? s'.current name = (s.binder? s.current name).map (lift k) := by
  have hskip : (s'.chain s'.current).find? (fun h => (s'.bindings h).has name) =
      ((s'.chain s'.current).filter (· ≠ k)).find? fun h => (s'.bindings h).has name := by
    rw [List.find?_filter]
    congr 1
    funext h
    by_cases hh : h = k
    · simp [hh, hs.blank, Table.has]
    · simp [hh]
  have hlift : (fun h => (s'.bindings h).has name) ∘ lift k =
      fun h => (s.bindings h).has name := by
    funext h
    simp [hs.bindings]
  rw [Scopes.binder?, Scopes.binder?, hskip, hs.chain, List.find?_map, hlift]

theorem lookup (name : String) : s'.lookup name = s.lookup name := by
  rw [Scopes.lookup, lookupFrom, hs.binder?, Scopes.lookup, lookupFrom]
  cases s.binder? s.current name with
  | none => rfl
  | some h => simp [hs.bindings]

theorem current : s'.current = k ∨ s'.current = lift k s.current := by
  obtain ⟨outer', hchain', -⟩ := s'.chain_lt (h := s'.current)
  obtain ⟨outer, hchain, -⟩ := s.chain_lt (h := s.current)
  by_cases hne : s'.current = k
  · exact .inl hne
  right
  have hc := hs.chain
  rw [hchain', hchain, List.filter_cons_of_pos (by simpa using hne), List.map_cons] at hc
  exact (List.cons.inj hc).1

theorem lift_lt_size (hlt : h < s.cells.size) : lift k h < s'.cells.size :=
  hs.size ▸ lift_lt hlt

theorem lt_size : k < s'.cells.size :=
  hs.size ▸ Nat.lt_succ_of_le hs.inside

theorem congr_shape (hn : SameShape s n) (hn' : SameShape s' n')
    (hb : ∀ h, n'.bindings (lift k h) = n.bindings h) (hblank : n'.bindings k = []) :
    Padded k n n' where
  above := hs.above
  inside := hn.size ▸ hs.inside
  size := by rw [hn'.size, hn.size, hs.size]
  chain := by rw [hn'.current, hn'.chain, hn.current, hn.chain, hs.chain]
  bindings := hb
  blank := hblank

theorem defineIn (hlt : h < s.cells.size) (name : String) (v : Value) :
    Padded k (s.defineIn h name v) (s'.defineIn (lift k h) name v) := by
  have hlt' := hs.lift_lt_size hlt
  refine hs.congr_shape (.defineIn s h name v) (.defineIn s' _ name v) (fun x => ?_) ?_
  · by_cases hx : x = h
    · subst hx
      rw [bindings_defineIn_self name v hlt', bindings_defineIn_self name v hlt, hs.bindings]
    · rw [bindings_defineIn_ne s' name v fun he => hx (lift_injective he),
        bindings_defineIn_ne s name v hx, hs.bindings]
  · rw [bindings_defineIn_ne s' name v (lift_ne k h).symm, hs.blank]

theorem define (hblank : (s'.define name v).bindings k = []) :
    Padded k (s.define name v) (s'.define name v) := by
  unfold Scopes.define at hblank ⊢
  rcases hs.current with hcurrent | hcurrent
  · rw [hcurrent] at hblank ⊢
    rw [bindings_defineIn_self name v (hcurrent ▸ s'.current_lt)] at hblank
    split at hblank
    · rename_i hname
      rwa [Scopes.defineIn, if_pos hname, Scopes.defineIn, if_pos hname]
    · exact absurd hblank (Table.put_ne_nil _ name v)
  · rw [hcurrent]
    exact hs.defineIn s.current_lt name v

theorem store (hblank : (s'.store name v).bindings k = []) :
    Padded k (s.store name v) (s'.store name v) := by
  have hbinder := hs.binder? name
  unfold Scopes.store assign assignFrom at hblank ⊢
  cases hb : s.binder? s.current name with
  | none =>
    rw [hb] at hbinder
    rw [hbinder] at hblank ⊢
    exact hs.define hblank
  | some x =>
    rw [hb] at hbinder
    rw [hbinder]
    have hx := le_of_mem_chain (binder?_eq_some hb).1
    exact hs.defineIn (Nat.lt_of_le_of_lt hx s.current_lt) name v

theorem pushBelow {parent parent' : Handle} (hp : parent < s.cells.size)
    (hp' : parent' < s'.cells.size)
    (hchain : (s'.chain parent').filter (· ≠ k) = (s.chain parent).map (lift k)) :
    Padded k (s.pushBelow parent hp) (s'.pushBelow parent' hp') where
  above := hs.above
  inside := by
    have hsize : (s.pushBelow parent hp).cells.size = s.cells.size + 1 := Array.size_push _
    exact hsize ▸ Nat.le_succ_of_le hs.inside
  size := by
    simp only [Scopes.pushBelow, Array.size_push, hs.size]
  chain := by
    have hne : s'.cells.size ≠ k := (Nat.ne_of_lt hs.lt_size).symm
    have hcurrent : (s.pushBelow parent hp).current = s.cells.size := rfl
    have hcurrent' : (s'.pushBelow parent' hp').current = s'.cells.size := rfl
    rw [hcurrent', hcurrent, chain_pushed, chain_pushed, List.map_cons, lift_of_le hs.inside,
      ← hs.size, List.filter_cons_of_pos (by simpa using hne), hchain]
  bindings h := by rw [bindings_pushBelow, bindings_pushBelow, hs.bindings]
  blank := by rw [bindings_pushBelow, hs.blank]

theorem push : Padded k s.push s'.push :=
  hs.pushBelow s.current_lt s'.current_lt hs.chain

theorem pushRoot : Padded k s.pushRoot s'.pushRoot := by
  refine hs.pushBelow s.global_lt s'.global_lt ?_
  have hne : global ≠ k := Nat.ne_of_lt hs.above
  simp [chain_global, lift_of_lt hs.above, hne]

theorem pop {parent parent' : Handle} (hp : parent < s.cells.size) (hp' : parent' < s'.cells.size)
    (hn : SameShape (s.pushBelow parent hp) n) (hn' : SameShape (s'.pushBelow parent' hp') n')
    (hb : ∀ h, n'.bindings (lift k h) = n.bindings h) (hblank : n'.bindings k = []) :
    Padded k n.pop n'.pop := by
  have hshape := SameShape.pop_pushBelow hp hn
  have hshape' := SameShape.pop_pushBelow hp' hn'
  refine hs.congr_shape hshape hshape' (fun h => ?_) ?_
  · by_cases hlt : h < s.cells.size
    · rw [bindings_pop hp' hn' (hs.lift_lt_size hlt), bindings_pop hp hn hlt, hb]
    · have hle := Nat.le_of_not_lt hlt
      rw [bindings_beyond (s := n.pop) (hshape.size ▸ hle), bindings_beyond]
      rw [hshape'.size, hs.size, lift_of_le (Nat.le_trans hs.inside hle)]
      exact Nat.succ_le_succ hle
  · rw [bindings_pop hp' hn' hs.lt_size, hblank]

end Padded

-- ---------------------------------------------------------------------------
-- The current scope as the one more
-- ---------------------------------------------------------------------------

theorem Padded.pushed (s : Scopes) : Padded s.cells.size s s.push where
  above := s.global_lt
  inside := Nat.le_refl _
  size := Array.size_push _
  chain := by
    have hbelow (h : Handle) (hh : h ∈ s.chain s.current) : h < s.cells.size :=
      Nat.lt_of_le_of_lt (le_of_mem_chain hh) s.current_lt
    have hcurrent : s.push.current = s.cells.size := rfl
    have hkept : (s.chain s.current).filter (· ≠ s.cells.size) = s.chain s.current :=
      List.filter_eq_self.mpr fun h hh => by simpa using Nat.ne_of_lt (hbelow h hh)
    have hlift : (s.chain s.current).map (lift s.cells.size) = s.chain s.current :=
      (List.map_congr_left fun h hh => lift_of_lt (hbelow h hh)).trans (List.map_id _)
    rw [hcurrent, Scopes.push, chain_pushed, List.filter_cons_of_neg (by simp), hkept, hlift]
  bindings h := by
    rw [Scopes.push, bindings_pushBelow]
    by_cases hlt : h < s.cells.size
    · rw [lift_of_lt hlt]
    · have hle := Nat.le_of_not_lt hlt
      rw [lift_of_le hle, bindings_beyond hle, bindings_beyond (Nat.le_succ_of_le hle)]
  blank := by rw [Scopes.push, bindings_pushBelow, bindings_beyond (Nat.le_refl _)]

section

variable {base : Scopes} (hs : Padded base.cells.size s s') (hbase : SameShape base s)
  (hbase' : SameShape base.push s')
include hs hbase hbase'

theorem Padded.popped : s'.pop = s := by
  have hshape := SameShape.pop_pushBelow base.current_lt hbase'
  refine (hbase.symm.trans hshape).ext fun h => ?_
  by_cases hlt : h < base.cells.size
  · rw [bindings_pop base.current_lt hbase' hlt, ← hs.bindings, lift_of_lt hlt]
  · have hle := Nat.le_of_not_lt hlt
    rw [bindings_beyond (hshape.size ▸ hle), bindings_beyond (hbase.size ▸ hle)]

theorem Padded.repushed : s' = s.push := by
  refine (hbase.push.symm.trans hbase').ext fun h => ?_
  rw [Scopes.push, bindings_pushBelow]
  rcases Nat.lt_trichotomy h base.cells.size with hlt | rfl | hgt
  · rw [← hs.bindings, lift_of_lt hlt]
  · rw [hs.blank, bindings_beyond (Nat.le_of_eq hbase.size)]
  · have hsize : s'.cells.size = base.cells.size + 1 := hbase'.size.trans (Array.size_push _)
    rw [bindings_beyond (hsize ▸ hgt), bindings_beyond (hbase.size ▸ Nat.le_of_lt hgt)]

end

end Scopes

end HostScript
