import HostScript.Proofs.Names.Visibility

/-!
# Scopes as a host uses them

A host pushes and pops scopes, holds on to some of them, and declares, binds, assigns and looks up
names in the current scope, in the global one and in those that it holds, in any order. Whatever it
does, each of these scopes sees a chain of others that passes no scope twice and ends in the global
one, so that looking a name up comes to an end and opens no scope that is open already (`Finds`),
and an assignment changes one binding (`run_resolves`). A scope that is held sees the same after it
has left the stack.
-/

namespace HostScript.Scopes

variable {s s' : Scopes} {h x parent : Handle} {name : String} {opened : List Handle}

-- ---------------------------------------------------------------------------
-- Finding a name
-- ---------------------------------------------------------------------------

/-- Where a name is found from a scope while others are open. A scope is opened to ask it, which it
cannot be twice, and stays open while its parent is asked. -/
inductive Finds (s : Scopes) (name : String) : List Handle → Handle → Option Handle → Prop
  | here {opened : List Handle} {h : Handle} (hnew : h ∉ opened)
      (hb : (s.bindings h).has name = true) : Finds s name opened h (some h)
  | nowhere {opened : List Handle} {h : Handle} (hnew : h ∉ opened)
      (hb : (s.bindings h).has name = false) (hp : s.parent? h = none) : Finds s name opened h none
  | further {opened : List Handle} {h parent : Handle} {found : Option Handle} (hnew : h ∉ opened)
      (hb : (s.bindings h).has name = false) (hp : s.parent? h = some parent)
      (rest : Finds s name (h :: opened) parent found) : Finds s name opened h found

theorem binder?_here (hb : (s.bindings h).has name = true) : s.binder? h name = some h := by
  obtain ⟨outer, hchain, -⟩ := s.chain_lt (h := h)
  simp [binder?, hchain, hb]

theorem binder?_nowhere (hb : (s.bindings h).has name = false) (hp : s.parent? h = none) :
    s.binder? h name = none := by
  simp [binder?, chain_of_none hp, hb]

theorem binder?_further (hb : (s.bindings h).has name = false) (hp : s.parent? h = some parent) :
    s.binder? h name = s.binder? parent name := by
  simp [binder?, chain_of_parent hp, hb]

theorem finds_binder? (hnewer : ∀ y ∈ opened, h < y) :
    s.Finds name opened h (s.binder? h name) := by
  induction h using Nat.strongRecOn generalizing opened with
  | ind h ih =>
    have hnew : h ∉ opened := fun hm => Nat.lt_irrefl h (hnewer h hm)
    cases hb : (s.bindings h).has name with
    | true =>
      rw [binder?_here hb]
      exact .here hnew hb
    | false =>
      cases hp : s.parent? h with
      | none =>
        rw [binder?_nowhere hb hp]
        exact .nowhere hnew hb hp
      | some parent =>
        have hlt := parent?_lt hp
        rw [binder?_further hb hp]
        refine .further hnew hb hp (ih parent hlt fun y hy => ?_)
        rcases List.mem_cons.mp hy with rfl | hy
        · exact hlt
        · exact Nat.lt_trans hlt (hnewer y hy)

theorem Finds.eq_binder? {found : Option Handle} (hf : s.Finds name opened h found) :
    found = s.binder? h name := by
  induction hf with
  | here _ hb => exact (binder?_here hb).symm
  | nowhere _ hb hp => exact (binder?_nowhere hb hp).symm
  | further _ hb hp _ ih => rw [ih, binder?_further hb hp]

theorem finds_iff {found : Option Handle} : s.Finds name [] h found ↔ found = s.binder? h name :=
  ⟨Finds.eq_binder?, fun he => he ▸ finds_binder? nofun⟩

theorem binder?_first (hx : s.binder? h name = some x) :
    ∃ inner outer, s.chain h = inner ++ x :: outer ∧
      ∀ y ∈ inner, (s.bindings y).get? name = none := by
  obtain ⟨-, inner, outer, hchain, hinner⟩ := List.find?_eq_some_iff_append.mp hx
  exact ⟨inner, outer, hchain, fun y hy => by simpa [Table.has] using hinner y hy⟩

-- ---------------------------------------------------------------------------
-- Binding names
-- ---------------------------------------------------------------------------

theorem lt_of_binds (hb : (s.bindings x).has name = true) : x < s.cells.size := by
  refine Nat.lt_of_not_le fun hsize => ?_
  simp [bindings_beyond hsize, Table.has] at hb

theorem get?_blank_defineIn (s : Scopes) (h : Handle) (name : String) (v : Value) (y : Handle) :
    ((s.defineIn h name v).bindings y).get? blank = (s.bindings y).get? blank := by
  by_cases hne : y = h
  · subst hne
    by_cases hlt : y < s.cells.size
    · rw [get?_defineIn name v hlt, if_neg]
      rintro ⟨rfl, hname⟩
      exact hname rfl
    · have hsize := Nat.le_of_not_lt hlt
      rw [bindings_beyond hsize, bindings_beyond ((SameShape.defineIn s y name v).size ▸ hsize)]
  · rw [bindings_defineIn_ne s name v hne]

theorem get?_assigned (hblank : ∀ y, (s.bindings y).get? blank = none)
    (hx : s.binder? h name = some x) (v : Value) (y : Handle) (other : String) :
    ((s.defineIn x name v).bindings y).get? other =
      if y = x ∧ other = name then some v else (s.bindings y).get? other := by
  obtain ⟨-, hb⟩ := binder?_eq_some hx
  have hname : name ≠ blank := by
    rintro rfl
    simp [Table.has, hblank x] at hb
  by_cases hy : y = x
  · subst hy
    simp [get?_defineIn name v (lt_of_binds hb), hname]
  · simp [bindings_defineIn_ne s name v hy, hy]

-- ---------------------------------------------------------------------------
-- Pushing and popping
-- ---------------------------------------------------------------------------

theorem seenFrom_congr (hcells : ∀ y, y ≤ h → s'.cells[y]? = s.cells[y]?) :
    s'.seenFrom h = s.seenFrom h := by
  have hchain : s'.chain h = s.chain h :=
    chain_congr fun y hy => by rw [parent?, parent?, hcells y hy]
  rw [seenFrom, seenFrom, hchain]
  refine List.map_congr_left fun y hy => ?_
  rw [meaning, meaning, bindings, bindings, hcells y (le_of_mem_chain hy)]

theorem seenFrom_pushBelow (hp : parent < s.cells.size) (hh : h < s.cells.size) :
    (s.pushBelow parent hp).seenFrom h = s.seenFrom h := by
  rw [seenFrom, seenFrom, chain_pushBelow hp hh, meaning_pushBelow hp]

theorem pop_held (s : Scopes) : s.pop.held = s.held := by
  unfold pop
  split <;> rfl

theorem pop_cells (s : Scopes) : s.pop.cells = s.cells ∨ s.pop.cells = s.cells.pop := by
  unfold pop
  split
  · dsimp only [cellsWithout]
    split
    · exact .inr rfl
    · exact .inl rfl
  · exact .inl rfl

theorem cells_pop (s : Scopes) (hlt : h < s.pop.cells.size) : s.pop.cells[h]? = s.cells[h]? := by
  rcases s.pop_cells with hcells | hcells
  · rw [hcells]
  · rw [hcells, Array.size_pop] at hlt
    rw [hcells, Array.getElem?_pop, if_pos hlt]

theorem seenFrom_pop (s : Scopes) (hlt : h < s.pop.cells.size) : s.pop.seenFrom h = s.seenFrom h :=
  seenFrom_congr fun _ hy => s.cells_pop (Nat.lt_of_le_of_lt hy hlt)

theorem get?_blank_pop (s : Scopes)
    (hblank : ∀ y, (s.bindings y).get? blank = none) (y : Handle) :
    (s.pop.bindings y).get? blank = none := by
  by_cases hlt : y < s.pop.cells.size
  · rw [bindings, s.cells_pop hlt]
    exact hblank y
  · rw [bindings_beyond (Nat.le_of_not_lt hlt)]
    rfl

-- ---------------------------------------------------------------------------
-- Histories
-- ---------------------------------------------------------------------------

/-- A scope that names can be bound and looked up in: the current one, the global one, or one of
those that are held, the latest first. -/
inductive Target where
  | current
  | global
  | held (number : Nat)

inductive Request where
  | push | pushRoot | pop
  | hold
  | declare (target : Target) (name : String)
  | define (target : Target) (name : String) (v : Value)
  | assign (target : Target) (name : String) (v : Value)
  | lookup (target : Target) (name : String)

structure Holder where
  scopes : Scopes
  handles : List Handle

namespace Holder

def handle? (holder : Holder) : Target → Option Handle
  | .current => some holder.scopes.current
  | .global => some global
  | .held number => holder.handles[number]?

def through (holder : Holder) (target : Target) (change : Scopes → Handle → Scopes) : Holder :=
  match holder.handle? target with
  | some h => { holder with scopes := change holder.scopes h }
  | none => holder

def step (holder : Holder) : Request → Holder
  | .push => { holder with scopes := holder.scopes.push }
  | .pushRoot => { holder with scopes := holder.scopes.pushRoot }
  | .pop => { holder with scopes := holder.scopes.pop }
  | .hold => ⟨holder.scopes.hold, holder.scopes.current :: holder.handles⟩
  | .declare target name => holder.through target fun s h => s.declareIn h name
  | .define target name v => holder.through target fun s h => s.defineIn h name v
  | .assign target name v => holder.through target fun s h => (s.assignFrom h name v).getD s
  | .lookup .. => holder

def initial : Holder := ⟨.initial, []⟩

def run (holder : Holder) (requests : List Request) : Holder :=
  requests.foldl step holder

structure Sound (holder : Holder) : Prop where
  held : ∀ h ∈ holder.handles, h < holder.scopes.held
  blank : ∀ y, (holder.scopes.bindings y).get? blank = none

variable {holder : Holder}

theorem Sound.lt (hs : holder.Sound) (hh : h ∈ holder.handles) : h < holder.scopes.cells.size :=
  Nat.lt_of_lt_of_le (hs.held h hh) holder.scopes.grounded.held_le

theorem Sound.through (hs : holder.Sound) (target : Target) {change : Scopes → Handle → Scopes}
    (hchange : ∀ s h, ∃ x name v, change s h = s ∨ change s h = s.defineIn x name v) :
    (holder.through target change).Sound := by
  unfold Holder.through
  split
  · rename_i h _
    obtain ⟨x, name, v, he | he⟩ := hchange holder.scopes h
    · rw [he]
      exact hs
    · rw [he]
      refine ⟨fun y hy => ?_, fun y => ?_⟩
      · exact (SameShape.defineIn holder.scopes x name v).held ▸ hs.held y hy
      · exact (get?_blank_defineIn _ x name v y).trans (hs.blank y)
  · exact hs

theorem Sound.step (hs : holder.Sound) (request : Request) : (holder.step request).Sound := by
  cases request with
  | push =>
    exact ⟨hs.held, fun y => bindings_pushBelow holder.scopes.current_lt y ▸ hs.blank y⟩
  | pushRoot =>
    exact ⟨hs.held, fun y => bindings_pushBelow holder.scopes.global_lt y ▸ hs.blank y⟩
  | pop =>
    exact ⟨fun h hh => holder.scopes.pop_held ▸ hs.held h hh, get?_blank_pop _ hs.blank⟩
  | hold =>
    refine ⟨fun h hh => ?_, hs.blank⟩
    rcases List.mem_cons.mp hh with rfl | hh
    · exact Nat.lt_of_lt_of_le (Nat.lt_succ_self _) (Nat.le_max_right _ _)
    · exact Nat.lt_of_lt_of_le (hs.held h hh) (Nat.le_max_left _ _)
  | declare target name => exact hs.through target fun s h => ⟨h, name, .nil, .inr rfl⟩
  | define target name v => exact hs.through target fun s h => ⟨h, name, v, .inr rfl⟩
  | assign target name v =>
    have hchange (s : Scopes) (h : Handle) : ∃ x name' v',
        (s.assignFrom h name v).getD s = s ∨
          (s.assignFrom h name v).getD s = s.defineIn x name' v' := by
      unfold assignFrom
      cases s.binder? h name with
      | none => exact ⟨h, name, v, .inl rfl⟩
      | some x => exact ⟨x, name, v, .inr rfl⟩
    exact hs.through target hchange
  | lookup target name => exact hs

theorem initial_sound : initial.Sound := by
  refine ⟨nofun, fun y => ?_⟩
  cases y with
  | zero => rfl
  | succ y => rw [bindings_beyond (Nat.le_add_left 1 y)]; rfl

theorem Sound.run (hs : holder.Sound) (requests : List Request) : (holder.run requests).Sound := by
  induction requests generalizing holder with
  | nil => exact hs
  | cons request rest ih => exact ih (hs.step request)

theorem Sound.seenFrom_step (hs : holder.Sound) (hh : h ∈ holder.handles) {request : Request}
    (hr : request ∈ [.push, .pushRoot, .pop, .hold]) :
    (holder.step request).scopes.seenFrom h = holder.scopes.seenFrom h := by
  simp only [List.mem_cons, List.not_mem_nil, or_false] at hr
  rcases hr with rfl | rfl | rfl | rfl
  · exact seenFrom_pushBelow holder.scopes.current_lt (hs.lt hh)
  · exact seenFrom_pushBelow holder.scopes.global_lt (hs.lt hh)
  · exact holder.scopes.seenFrom_pop ((hs.step .pop).lt hh)
  · exact seenFrom_congr fun _ _ => rfl

end Holder

/-- Whatever has been done with scopes, the global one is at the bottom of the stack, and no scope
binds the blank name. Every scope on the stack and every one that is held sees a chain of scopes
without repeats, at the end of which is the global one, and finds a name in the first of them that
binds it without opening any of them twice. An assignment succeeds if the name is found, and then
changes that one binding. What comes on the stack or leaves it makes no difference to what is seen
from a scope that is held. -/
theorem run_resolves (requests : List Request) :
    let holder := Holder.initial.run requests
    let s := holder.scopes
    s.stack.getLast? = some global ∧ 1 ≤ s.depth ∧
      (∀ y, (s.bindings y).get? blank = none) ∧
      (∀ h, h ∈ s.stack ∨ h ∈ holder.handles →
        (s.chain h).Nodup ∧ (s.chain h).getLast? = some global ∧
          ∀ name, (∀ found, s.Finds name [] h found ↔ found = s.binder? h name) ∧
            s.lookupFrom h name = (s.chain h).findSome? (fun y => (s.bindings y).get? name) ∧
            ∀ v, ((s.assignFrom h name v).isSome ↔ (s.lookupFrom h name).isSome) ∧
              ∀ s', s.assignFrom h name v = some s' →
                SameShape s s' ∧ ∃ inner x outer, s.chain h = inner ++ x :: outer ∧
                  (∀ y ∈ inner, (s.bindings y).get? name = none) ∧
                  ((s.bindings x).get? name).isSome ∧
                  ∀ y other, (s'.bindings y).get? other =
                    if y = x ∧ other = name then some v else (s.bindings y).get? other) ∧
      ∀ h ∈ holder.handles, ∀ request ∈ [.push, .pushRoot, .pop, .hold],
        (holder.step request).scopes.seenFrom h = s.seenFrom h := by
  intro holder s
  have hsound : holder.Sound := Holder.initial_sound.run requests
  refine ⟨s.grounded.bottom, List.length_pos_iff.mpr s.stack_ne_nil, hsound.blank, fun h hh => ?_,
    fun h hh request hr => hsound.seenFrom_step hh hr⟩
  have hlt : h < s.cells.size := hh.elim (s.grounded.present h) hsound.lt
  obtain ⟨inner, hchain, -⟩ := chain_ends hlt
  refine ⟨s.chain_nodup, by simp [hchain],
    fun name => ⟨fun found => finds_iff, ?_, fun v => ⟨?_, ?_⟩⟩⟩
  · rw [lookupFrom_eq_seenFrom, seenFrom, List.findSome?_map]
    rfl
  · rw [isSome_lookupFrom, assignFrom, Option.isSome_map]
  · intro s' hs'
    obtain ⟨x, hx, rfl⟩ := Option.map_eq_some_iff.mp hs'
    obtain ⟨inner, outer, hsplit, hinner⟩ := binder?_first hx
    exact ⟨.defineIn s x name v, inner, x, outer, hsplit, hinner, (binder?_eq_some hx).2,
      get?_assigned hsound.blank hx v⟩

/-- A scope is held, has left the stack, and is used to assign to a global name. -/
def history : List Request :=
  [.define .current "x" (.int 1), .push, .hold, .declare .current "y", .pushRoot, .pop, .pop,
    .assign (.held 0) "x" (.int 3)]

/-- The scope that has left the stack finds the global name behind its own, and can assign
to it again. -/
theorem history_resolves :
    1 ∈ (Holder.initial.run history).handles ∧
      1 ∉ (Holder.initial.run history).scopes.stack ∧
      (Holder.initial.run history).scopes.chain 1 = [1, 0] ∧
      (Holder.initial.run history).scopes.lookupFrom 1 "x" = some (.int 3) ∧
      (Holder.initial.run history).scopes.Finds "x" [] 1 (some 0) ∧
      ((Holder.initial.run history).scopes.assignFrom 1 "x" (.int 4)).isSome := by
  obtain ⟨-, -, -, hseen, -⟩ := run_resolves history
  have hheld : 1 ∈ (Holder.initial.run history).handles := by decide
  obtain ⟨-, -, hname⟩ := hseen 1 (.inr hheld)
  obtain ⟨hfinds, -, hassign⟩ := hname "x"
  have hlookup : (Holder.initial.run history).scopes.lookupFrom 1 "x" = some (.int 3) := by rfl
  refine ⟨hheld, by decide, by decide, hlookup, (hfinds _).mpr (by decide), ?_⟩
  exact (hassign (.int 4)).1.mpr (Option.isSome_of_eq_some hlookup)

end HostScript.Scopes
