import HostScript.Proofs.Names.Scopes

/-!
# What is seen from a scope

From a scope a script sees a chain of others, the innermost first and the global one last, each of
them once (`chain_lt`, `chain_ends`). What it reads of them and how it changes them depends on
nothing but what each one on the chain binds: that is what is `seen` from the scope. A name that is
bound or assigned changes what is seen as `Sight.define` and `Sight.store` say, and what is not on
the chain stays as it is (`Confined`).
-/

namespace HostScript

-- ---------------------------------------------------------------------------
-- Tables
-- ---------------------------------------------------------------------------

namespace Table

variable {α : Type}

@[simp] theorem get?_nil (name : String) : get? ([] : Table α) name = none := rfl

theorem get?_cons (entry : String × α) (rest : Table α) (name : String) :
    get? (entry :: rest) name = if name = entry.1 then some entry.2 else rest.get? name := by
  obtain ⟨key, a⟩ := entry
  by_cases h : name = key
  · simp [get?, h]
  · simp [get?, List.lookup_cons, h, beq_eq_false_iff_ne.mpr h]

theorem get?_put (table : Table α) (key : String) (a : α) (name : String) :
    (table.put key a).get? name = if name = key then some a else table.get? name := by
  induction table with
  | nil => simp [put, get?_cons]
  | cons entry rest ih =>
    obtain ⟨k, b⟩ := entry
    by_cases hk : k = key
    · by_cases hn : name = k <;> simp_all [put, get?_cons]
    · by_cases hn : name = k <;> simp_all [put, get?_cons]

end Table

namespace Scopes

variable {s s' s'' : Scopes} {h parent : Handle}

-- ---------------------------------------------------------------------------
-- Chains
-- ---------------------------------------------------------------------------

def parent? (s : Scopes) (h : Handle) : Option Handle :=
  s.cells[h]?.bind Scope.parent

theorem parent?_lt (hp : s.parent? h = some parent) : parent < h := by
  obtain ⟨scope, hs, hparent⟩ := Option.bind_eq_some_iff.mp hp
  exact (s.grounded.older h scope hs).2 parent hparent

theorem parent?_global : s.parent? global = none := by
  have hs := Array.getElem?_eq_getElem s.global_lt
  rw [parent?, hs]
  exact (s.grounded.older global _ hs).1.mpr rfl

theorem parent?_of_ne_global (hlt : h < s.cells.size) (hne : h ≠ global) :
    ∃ parent, s.parent? h = some parent := by
  have hs := Array.getElem?_eq_getElem hlt
  rw [parent?, hs]
  refine Option.ne_none_iff_exists'.mp fun hnone => hne ?_
  exact (s.grounded.older h _ hs).1.mp hnone

/-- Parents are older, so that no chain is longer than its first handle. -/
theorem chainWithin_enough {n m : Nat} (hn : h < n) (hm : h < m) :
    s.chainWithin n h = s.chainWithin m h := by
  induction n generalizing h m with
  | zero => exact absurd hn (Nat.not_lt_zero h)
  | succ n ih =>
    cases m with
    | zero => exact absurd hm (Nat.not_lt_zero h)
    | succ m =>
      rw [chainWithin, chainWithin]
      cases hp : s.cells[h]?.bind Scope.parent with
      | none => rfl
      | some parent =>
        have hlt : parent < h := parent?_lt hp
        exact congrArg (h :: ·) (ih (Nat.lt_of_lt_of_le hlt (Nat.le_of_lt_succ hn))
          (Nat.lt_of_lt_of_le hlt (Nat.le_of_lt_succ hm)))

theorem chain_of_parent (hp : s.parent? h = some parent) : s.chain h = h :: s.chain parent := by
  have hlt := parent?_lt hp
  rw [chain, chainWithin]
  rw [parent?] at hp
  rw [hp]
  exact congrArg (h :: ·) (chainWithin_enough hlt (Nat.lt_succ_self parent))

theorem chain_of_none (hp : s.parent? h = none) : s.chain h = [h] := by
  rw [chain, chainWithin]
  rw [parent?] at hp
  rw [hp]

theorem chain_global : s.chain global = [global] :=
  chain_of_none parent?_global

theorem mem_chain_self : h ∈ s.chain h := by
  cases hp : s.parent? h with
  | none => simp [chain_of_none hp]
  | some parent => simp [chain_of_parent hp]

theorem chain_lt : ∃ outer, s.chain h = h :: outer ∧ ∀ x ∈ outer, x < h := by
  induction h using Nat.strongRecOn with
  | ind h ih =>
    cases hp : s.parent? h with
    | none => exact ⟨[], chain_of_none hp, nofun⟩
    | some parent =>
      have hlt := parent?_lt hp
      obtain ⟨outer, hchain, holder⟩ := ih parent hlt
      refine ⟨parent :: outer, by rw [chain_of_parent hp, hchain], fun x hx => ?_⟩
      rcases List.mem_cons.mp hx with rfl | hx
      · exact hlt
      · exact Nat.lt_trans (holder x hx) hlt

theorem le_of_mem_chain {x : Handle} (hx : x ∈ s.chain h) : x ≤ h := by
  obtain ⟨outer, hchain, holder⟩ := s.chain_lt (h := h)
  rw [hchain] at hx
  rcases List.mem_cons.mp hx with rfl | hx
  · exact Nat.le_refl x
  · exact Nat.le_of_lt (holder x hx)

theorem chain_nodup : (s.chain h).Nodup := by
  induction h using Nat.strongRecOn with
  | ind h ih =>
    cases hp : s.parent? h with
    | none => simp [chain_of_none hp]
    | some parent =>
      have hlt := parent?_lt hp
      rw [chain_of_parent hp, List.nodup_cons]
      exact ⟨fun hm => Nat.not_le_of_lt hlt (le_of_mem_chain hm), ih parent hlt⟩

theorem chain_ends (hlt : h < s.cells.size) :
    ∃ inner, s.chain h = inner ++ [global] ∧ global ∉ inner := by
  induction h using Nat.strongRecOn with
  | ind h ih =>
    by_cases hg : h = global
    · exact ⟨[], by rw [hg, chain_global]; rfl, nofun⟩
    · obtain ⟨parent, hp⟩ := parent?_of_ne_global hlt hg
      have hparent := parent?_lt hp
      obtain ⟨inner, hchain, hinner⟩ := ih parent hparent (Nat.lt_trans hparent hlt)
      refine ⟨h :: inner, by rw [chain_of_parent hp, hchain]; rfl, ?_⟩
      simp [Ne.symm hg, hinner]

theorem global_mem_chain (hlt : h < s.cells.size) : global ∈ s.chain h := by
  obtain ⟨inner, hchain, -⟩ := chain_ends hlt
  simp [hchain]

theorem chain_congr (hp : ∀ x, x ≤ h → s'.parent? x = s.parent? x) :
    s'.chain h = s.chain h := by
  induction h using Nat.strongRecOn with
  | ind h ih =>
    have hh := hp h (Nat.le_refl h)
    cases hs : s.parent? h with
    | none => rw [chain_of_none hs, chain_of_none (hh.trans hs)]
    | some parent =>
      have hlt := parent?_lt hs
      rw [chain_of_parent hs, chain_of_parent (hh.trans hs)]
      exact congrArg (h :: ·) (ih parent hlt fun x hx => hp x (Nat.le_trans hx (Nat.le_of_lt hlt)))

theorem parent?_eq (s : Scopes) (h : Handle) : s.parent? h = s.parents[h]?.join := by
  rw [parent?, parents, Array.getElem?_map]
  cases s.cells[h]? <;> rfl

theorem SameShape.parent? (hs : SameShape s s') (h : Handle) : s'.parent? h = s.parent? h := by
  rw [parent?_eq, parent?_eq, hs.parents]

theorem SameShape.chain (hs : SameShape s s') (h : Handle) : s'.chain h = s.chain h :=
  chain_congr fun x _ => hs.parent? x

theorem SameShape.current (hs : SameShape s s') : s'.current = s.current := by
  rw [Scopes.current, Scopes.current, hs.stack]

theorem parent?_pushBelow (hp : parent < s.cells.size) (hh : h < s.cells.size) :
    (s.pushBelow parent hp).parent? h = s.parent? h := by
  simp [parent?, pushBelow, Array.getElem?_push, Nat.ne_of_lt hh]

theorem chain_pushBelow (hp : parent < s.cells.size) (hh : h < s.cells.size) :
    (s.pushBelow parent hp).chain h = s.chain h :=
  chain_congr fun _ hx => parent?_pushBelow hp (Nat.lt_of_le_of_lt hx hh)

theorem chain_pushed (hp : parent < s.cells.size) :
    (s.pushBelow parent hp).chain s.cells.size = s.cells.size :: s.chain parent := by
  have hnew : (s.pushBelow parent hp).parent? s.cells.size = some parent := by
    simp [parent?, pushBelow]
  rw [chain_of_parent hnew, chain_pushBelow hp hp]

-- ---------------------------------------------------------------------------
-- What is bound
-- ---------------------------------------------------------------------------

theorem bindings_defineIn_ne {x : Handle} (s : Scopes) (name : String) (v : Value) (hne : x ≠ h) :
    (s.defineIn h name v).bindings x = s.bindings x := by
  unfold defineIn
  split
  · rfl
  · simp [bindings, Array.getElem?_modify, Ne.symm hne]

theorem get?_defineIn (name : String) (v : Value) (hlt : h < s.cells.size) (other : String) :
    ((s.defineIn h name v).bindings h).get? other =
      if other = name ∧ name ≠ blank then some v else (s.bindings h).get? other := by
  unfold defineIn
  split
  · simp_all
  · rename_i hb
    simp [bindings, Array.getElem?_modify, Array.getElem?_eq_getElem hlt, Table.get?_put, hb]

theorem binder?_eq_some {name : String} {x : Handle} (hx : s.binder? h name = some x) :
    x ∈ s.chain h ∧ (s.bindings x).has name = true :=
  ⟨List.mem_of_find?_eq_some hx, List.find?_some (p := fun x => (s.bindings x).has name) hx⟩

theorem isSome_lookupFrom (s : Scopes) (h : Handle) (name : String) :
    (s.lookupFrom h name).isSome = (s.binder? h name).isSome := by
  unfold lookupFrom
  cases hb : s.binder? h name with
  | none => rfl
  | some scope => exact (binder?_eq_some hb).2

theorem bindings_beyond (hsize : s.cells.size ≤ h) : s.bindings h = [] := by
  simp [bindings, Array.getElem?_eq_none hsize]

theorem bindings_pushBelow (hp : parent < s.cells.size) (x : Handle) :
    (s.pushBelow parent hp).bindings x = s.bindings x := by
  by_cases hx : x = s.cells.size
  · simp [bindings, pushBelow, hx]
  · simp [bindings, pushBelow, Array.getElem?_push, hx]

theorem bindings_pop (hp : parent < s.cells.size) (hs : SameShape (s.pushBelow parent hp) s')
    {x : Handle} (hx : x < s.cells.size) : s'.pop.bindings x = s'.bindings x := by
  have hsize : s'.cells.size = s.cells.size + 1 := hs.size.trans (Array.size_push _)
  obtain ⟨hcells, -⟩ := SameShape.pop_eq hp hs
  rw [bindings, hcells, Array.getElem?_pop, hsize, Nat.add_sub_cancel, if_pos hx]
  rfl

theorem SameShape.cells (hs : SameShape s s') (hb : s'.bindings h = s.bindings h) :
    s'.cells[h]? = s.cells[h]? := by
  have hparents : s'.cells[h]?.map Scope.parent = s.cells[h]?.map Scope.parent := by
    rw [← Array.getElem?_map, ← Array.getElem?_map]
    exact congrArg (·[h]?) hs.parents
  unfold bindings at hb
  rcases hafter : s'.cells[h]? with _ | ⟨bindings', parent'⟩ <;>
    rcases hbefore : s.cells[h]? with _ | ⟨bindings, parent⟩ <;>
    simp_all

end Scopes

-- ---------------------------------------------------------------------------
-- Sights
-- ---------------------------------------------------------------------------

/-- What is seen along a chain of scopes, the innermost first: what names mean in each of them. -/
abbrev Sight := List (String → Option Value)

namespace Sight

def bound (name : String) (v : Value) (meaning : String → Option Value) :
    String → Option Value :=
  fun other => if other = name ∧ name ≠ blank then some v else meaning other

def define (name : String) (v : Value) : Sight → Sight
  | [] => []
  | meaning :: outer => bound name v meaning :: outer

def assign? (name : String) (v : Value) : Sight → Option Sight
  | [] => none
  | meaning :: outer =>
    if (meaning name).isSome then some (bound name v meaning :: outer)
    else (assign? name v outer).map (meaning :: ·)

def store (name : String) (v : Value) (sight : Sight) : Sight :=
  (sight.assign? name v).getD (sight.define name v)

theorem assign?_means {name : String} (v : Value) (hname : name ≠ blank) {sight sight' : Sight}
    (h : sight.assign? name v = some sight') : sight'.findSome? (· name) = some v := by
  induction sight generalizing sight' with
  | nil => cases h
  | cons meaning outer ih =>
    rw [assign?] at h
    split at h
    · cases h
      simp [bound, hname]
    · rename_i hnone
      obtain ⟨outer', houter, rfl⟩ := Option.map_eq_some_iff.mp h
      rw [List.findSome?_cons, Option.not_isSome_iff_eq_none.mp hnone]
      exact ih houter

theorem store_means {name : String} (v : Value) (hname : name ≠ blank) {sight : Sight}
    (hne : sight ≠ []) : (sight.store name v).findSome? (· name) = some v := by
  unfold store
  cases h : sight.assign? name v with
  | some sight' => exact assign?_means v hname h
  | none =>
    obtain ⟨meaning, outer, rfl⟩ := List.exists_cons_of_ne_nil hne
    simp [define, bound, hname]

theorem bound_ne {name other : String} (v : Value) (hne : other ≠ name)
    (meaning : String → Option Value) : bound name v meaning other = meaning other :=
  if_neg fun h => hne h.1

theorem define_others {name other : String} (v : Value) (hne : other ≠ name) (sight : Sight) :
    (sight.define name v).findSome? (· other) = sight.findSome? (· other) := by
  cases sight with
  | nil => rfl
  | cons meaning outer => simp [define, List.findSome?_cons, bound_ne v hne]

theorem assign?_others {name other : String} (v : Value) (hne : other ≠ name)
    {sight sight' : Sight} (h : sight.assign? name v = some sight') :
    sight'.findSome? (· other) = sight.findSome? (· other) := by
  induction sight generalizing sight' with
  | nil => cases h
  | cons meaning outer ih =>
    rw [assign?] at h
    split at h
    · cases h
      simp [List.findSome?_cons, bound_ne v hne]
    · obtain ⟨outer', houter, rfl⟩ := Option.map_eq_some_iff.mp h
      rw [List.findSome?_cons, List.findSome?_cons, ih houter]

theorem store_others {name other : String} (v : Value) (hne : other ≠ name) (sight : Sight) :
    (sight.store name v).findSome? (· other) = sight.findSome? (· other) := by
  unfold store
  cases h : sight.assign? name v with
  | some sight' => exact assign?_others v hne h
  | none => exact define_others v hne sight

end Sight

namespace Scopes

variable {s s' s'' : Scopes} {h parent : Handle}

def meaning (s : Scopes) (h : Handle) : String → Option Value :=
  (s.bindings h).get?

def seenFrom (s : Scopes) (h : Handle) : Sight :=
  (s.chain h).map s.meaning

def seen (s : Scopes) : Sight :=
  s.seenFrom s.current

theorem meaning_defineIn_self (name : String) (v : Value) (hlt : h < s.cells.size) :
    (s.defineIn h name v).meaning h = Sight.bound name v (s.meaning h) :=
  funext (get?_defineIn name v hlt)

theorem map_meaning_defineIn {handles : List Handle} (name : String) (v : Value)
    (hno : h ∉ handles) :
    handles.map (s.defineIn h name v).meaning = handles.map s.meaning := by
  refine List.map_congr_left fun x hx => ?_
  rw [meaning, bindings_defineIn_ne s name v (ne_of_mem_of_not_mem hx hno)]
  rfl

theorem lookupFrom_eq_seenFrom (s : Scopes) (h : Handle) (name : String) :
    s.lookupFrom h name = (s.seenFrom h).findSome? (· name) := by
  rw [lookupFrom, binder?, seenFrom]
  induction s.chain h with
  | nil => rfl
  | cons h outer ih =>
    cases hv : (s.bindings h).get? name with
    | none => simpa [Table.has, meaning, hv] using ih
    | some v => simp [Table.has, meaning, hv]

theorem lookup_eq_seen (s : Scopes) (name : String) :
    s.lookup name = s.seen.findSome? (· name) :=
  s.lookupFrom_eq_seenFrom s.current name

theorem seen_define (s : Scopes) (name : String) (v : Value) :
    (s.define name v).seen = s.seen.define name v := by
  obtain ⟨outer, hchain, holder⟩ := s.chain_lt (h := s.current)
  have hshape := SameShape.define s name v
  have hno : s.current ∉ outer := fun hm => Nat.lt_irrefl _ (holder _ hm)
  rw [seen, seen, seenFrom, seenFrom, hshape.current, hshape.chain, hchain]
  simp [Sight.define, Scopes.define, meaning_defineIn_self name v s.current_lt,
    map_meaning_defineIn name v hno]

theorem assign_along {handles : List Handle} (name : String) (v : Value) (hnodup : handles.Nodup)
    (hlt : ∀ x ∈ handles, x < s.cells.size) :
    (handles.find? fun x => (s.bindings x).has name).map
        (fun x => handles.map (s.defineIn x name v).meaning) =
      Sight.assign? name v (handles.map s.meaning) := by
  induction handles with
  | nil => rfl
  | cons x rest ih =>
    obtain ⟨hno, hrest⟩ := List.nodup_cons.mp hnodup
    have ih := ih hrest fun y hy => hlt y (List.mem_cons_of_mem x hy)
    cases hv : (s.bindings x).has name with
    | true =>
      have hsome : (s.meaning x name).isSome = true := hv
      simp [Sight.assign?, hv, hsome, map_meaning_defineIn name v hno,
        meaning_defineIn_self name v (hlt x List.mem_cons_self)]
    | false =>
      have hnone : (s.meaning x name).isSome = false := hv
      rw [List.find?_cons_of_neg (by simp [hv]), List.map_cons, Sight.assign?,
        if_neg (by simp [hnone]),
        ← ih, Option.map_map]
      cases hfind : rest.find? fun y => (s.bindings y).has name with
      | none => rfl
      | some y =>
        -- What is bound further out leaves this scope as it is.
        have hne : x ≠ y := fun he => hno (he ▸ List.mem_of_find?_eq_some hfind)
        simp [meaning, bindings_defineIn_ne s name v hne]

theorem seen_store (s : Scopes) (name : String) (v : Value) :
    (s.store name v).seen = s.seen.store name v := by
  have hshape := SameShape.store s name v
  have halong := assign_along name v s.chain_nodup
    fun x hx => Nat.lt_of_le_of_lt (le_of_mem_chain hx) s.current_lt
  rw [Sight.store, seen, seen, seenFrom, seenFrom, hshape.current, hshape.chain, ← halong]
  unfold store assign assignFrom binder?
  cases (s.chain s.current).find? fun x => (s.bindings x).has name with
  | none =>
    have hdefine := s.seen_define name v
    have hshape := SameShape.define s name v
    rwa [seen, seenFrom, hshape.current, hshape.chain] at hdefine
  | some x => rfl

theorem seen_getLast? (s : Scopes) : s.seen.getLast? = some (s.meaning global) := by
  obtain ⟨inner, hchain, -⟩ := chain_ends s.current_lt
  simp [seen, seenFrom, hchain]

theorem meaning_pushBelow (hp : parent < s.cells.size) :
    (s.pushBelow parent hp).meaning = s.meaning :=
  funext fun x => congrArg Table.get? (bindings_pushBelow hp x)

theorem seen_pushBelow (hp : parent < s.cells.size) :
    (s.pushBelow parent hp).seen = (fun _ => none) :: s.seenFrom parent := by
  have hnew : s.meaning s.cells.size = fun _ => none := by
    rw [meaning, bindings_beyond (Nat.le_refl _)]
    rfl
  have hcurrent : (s.pushBelow parent hp).current = s.cells.size := rfl
  simp [seen, seenFrom, hcurrent, chain_pushed hp, meaning_pushBelow hp, hnew]

theorem seen_pushRoot (s : Scopes) : s.pushRoot.seen = [fun _ => none, s.meaning global] := by
  rw [pushRoot, seen_pushBelow, seenFrom, chain_global]
  rfl

theorem seen_pop_push (hs : SameShape s.push s') : s'.pop.seen = s'.seen.tail := by
  have hshape := SameShape.pop_pushBelow s.current_lt hs
  have hcurrent : s'.current = s.cells.size := hs.current
  have hchain : s'.chain s.cells.size = s.cells.size :: s.chain s.current :=
    (hs.chain _).trans (chain_pushed s.current_lt)
  rw [seen, seen, seenFrom, seenFrom, hshape.current, hshape.chain, hcurrent, hchain, List.map_cons,
    List.tail_cons]
  refine List.map_congr_left fun x hx => congrArg Table.get? ?_
  exact bindings_pop s.current_lt hs (Nat.lt_of_le_of_lt (le_of_mem_chain hx) s.current_lt)

theorem lookup_push_define (s : Scopes) {name : String} (v : Value) (hname : name ≠ blank) :
    (s.push.define name v).lookup name = some v := by
  rw [lookup_eq_seen, seen_define, push, seen_pushBelow]
  simp [Sight.define, Sight.bound, hname]

theorem lookup_store (s : Scopes) {name : String} (v : Value) (hname : name ≠ blank) :
    (s.store name v).lookup name = some v := by
  obtain ⟨outer, hchain, -⟩ := s.chain_lt (h := s.current)
  rw [lookup_eq_seen, seen_store]
  refine Sight.store_means v hname ?_
  simp [seen, seenFrom, hchain]

theorem lookup_store_ne (s : Scopes) {name other : String} (v : Value) (hne : other ≠ name) :
    (s.store name v).lookup other = s.lookup other := by
  rw [lookup_eq_seen, seen_store, Sight.store_others v hne, ← lookup_eq_seen]

-- ---------------------------------------------------------------------------
-- What the current scope can change
-- ---------------------------------------------------------------------------

/-- What has been done from the current scope: only that scope binds more names than before, and
only what is seen from it has other values. -/
structure Confined (s s' : Scopes) : Prop where
  shape : SameShape s s'
  names : ∀ h, h ≠ s.current → ∀ name, (s'.bindings h).has name = (s.bindings h).has name
  values : ∀ h, h ∉ s.chain s.current → s'.bindings h = s.bindings h

namespace Confined

theorem refl (s : Scopes) : Confined s s :=
  ⟨.refl s, fun _ _ _ => rfl, fun _ _ => rfl⟩

theorem trans (hc : Confined s s') (hc' : Confined s' s'') : Confined s s'' := by
  have hcurrent := hc.shape.current
  have hchain := hc.shape.chain s.current
  refine ⟨hc.shape.trans hc'.shape, fun h hne name => ?_, fun h hno => ?_⟩
  · exact (hc'.names h (by rwa [hcurrent]) name).trans (hc.names h hne name)
  · exact (hc'.values h (by rwa [hcurrent, hchain])).trans (hc.values h hno)

theorem define (s : Scopes) (name : String) (v : Value) : Confined s (s.define name v) := by
  refine ⟨.define s name v, fun h hne other => ?_, fun h hno => ?_⟩
  · rw [Scopes.define, bindings_defineIn_ne s name v hne]
  · have hne : h ≠ s.current := fun he => hno (he ▸ mem_chain_self)
    exact bindings_defineIn_ne s name v hne

theorem store (s : Scopes) (name : String) (v : Value) : Confined s (s.store name v) := by
  unfold Scopes.store assign assignFrom
  cases hb : s.binder? s.current name with
  | none => exact define s name v
  | some x =>
    obtain ⟨hmem, hhas⟩ := binder?_eq_some hb
    have hlt := Nat.lt_of_le_of_lt (le_of_mem_chain hmem) s.current_lt
    refine ⟨.defineIn s x name v, fun h _ other => ?_, fun h hno => ?_⟩
    · by_cases hne : h = x
      · subst hne
        -- The name that is assigned is there already.
        simp only [Option.map_some, Option.getD_some, Table.has,
          get?_defineIn name v hlt] at hhas ⊢
        split <;> simp_all
      · exact congrArg (Table.has · other) (bindings_defineIn_ne s name v hne)
    · exact bindings_defineIn_ne s name v fun he => hno (he ▸ hmem)

theorem of_pushBelow (hp : parent < s.cells.size) (hc : Confined (s.pushBelow parent hp) s') :
    SameShape s s'.pop ∧ (∀ h name, (s'.pop.bindings h).has name = (s.bindings h).has name) ∧
      ∀ h, h ∉ s.chain parent → s'.pop.bindings h = s.bindings h := by
  have hshape := SameShape.pop_pushBelow hp hc.shape
  have hbeyond {h : Handle} (hh : ¬ h < s.cells.size) : s'.pop.bindings h = s.bindings h := by
    have hsize := Nat.le_of_not_lt hh
    rw [bindings_beyond hsize, bindings_beyond (hshape.size ▸ hsize)]
  refine ⟨hshape, fun h name => ?_, fun h hno => ?_⟩ <;> by_cases hh : h < s.cells.size
  · rw [bindings_pop hp hc.shape hh, hc.names h (Nat.ne_of_lt hh), bindings_pushBelow hp]
  · rw [hbeyond hh]
  · have hout : h ∉ (s.pushBelow parent hp).chain s.cells.size := by
      simp [chain_pushed hp, Nat.ne_of_lt hh, hno]
    rw [bindings_pop hp hc.shape hh, hc.values h hout, bindings_pushBelow hp]
  · exact hbeyond hh

theorem block (hc : Confined s.push s') : Confined s s'.pop := by
  obtain ⟨hshape, hnames, hvalues⟩ := of_pushBelow s.current_lt hc
  exact ⟨hshape, fun h _ => hnames h, hvalues⟩

theorem call (hc : Confined s.pushRoot s') : Confined s s'.pop := by
  obtain ⟨hshape, hnames, hvalues⟩ := of_pushBelow s.global_lt hc
  refine ⟨hshape, fun h _ => hnames h, fun h hno => hvalues h ?_⟩
  rw [chain_global, List.mem_singleton]
  rintro rfl
  exact hno (global_mem_chain s.current_lt)

theorem meaning_global (hc : Confined s.pushRoot s') : s'.pop.meaning global = s'.meaning global :=
  congrArg Table.get? (bindings_pop s.global_lt hc.shape s.global_lt)

/-- When a call is over, what was seen before is seen again, but for the values of global names. -/
theorem seen_call (hc : Confined s.pushRoot s') :
    s'.pop.seen = s.seen.dropLast ++ [s'.pop.meaning global] := by
  obtain ⟨hshape, -, hvalues⟩ := of_pushBelow s.global_lt hc
  obtain ⟨inner, hchain, hinner⟩ := chain_ends s.current_lt
  have hmap : inner.map s'.pop.meaning = inner.map s.meaning := by
    refine List.map_congr_left fun x hx => congrArg Table.get? (hvalues x ?_)
    rw [chain_global, List.mem_singleton]
    exact ne_of_mem_of_not_mem hx hinner
  rw [seen, seen, seenFrom, seenFrom, hshape.current, hshape.chain, hchain]
  simp [hmap]

end Confined

end Scopes

end HostScript
