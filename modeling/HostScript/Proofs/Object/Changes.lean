import Mathlib.Order.Defs.Unbundled
import HostScript.Proofs.Object.Acts

/-!
# What acts change

An act of a run makes one of a few changes that are the library's own (`World.Changes`), or what it
changes is up to the host. So a relation between worlds along which the library's changes lead, and
what the host's own functions and capabilities do, is one along which every act leads
(`Host.Serves.moves`); asking for the next element of a walk changes nothing, unless an object
iterates itself (`Cursor.next?_moves`).
-/

namespace HostScript

variable {P : Platform} {α β : Type}

theorem Act.get_bind {ε : Type} (f : World P → ExceptT ε (StateM (World P)) α) (w : World P) :
    ((get : ExceptT ε (StateM (World P)) (World P)) >>= f) w = f w w := rfl

theorem Act.bind_apply (x : Act P α) (f : α → Act P β) (w : World P) :
    (x >>= f) w = match x w with
      | (.ok a, w) => f a w
      | (.error e, w) => (.error e, w) := by
  simp only [bind, ExceptT.bind, ExceptT.mk, StateT.bind]
  rcases x w with ⟨_ | _, _⟩ <;> rfl

theorem Act.lift_bind (x : StateM (World P) α) (f : α → Act P β) (w : World P) :
    ((liftM x : Act P α) >>= f) w = f (x w).1 (x w).2 := rfl

theorem Act.ofExcept_bind (result : Except Failure α) (f : α → Act P β) (w : World P) :
    (Act.ofExcept result >>= f) w =
      match result with
      | .ok a => f a w
      | .error e => (.error e, w) := by
  cases result <;> rfl

-- ---------------------------------------------------------------------------
-- Worlds
-- ---------------------------------------------------------------------------

namespace World

variable {w w' : World P} {r : Address} {o : Object P}

theorem object?_put_self (h : w.object? r = some o) (o' : Object P) :
    (w.put r o').object? r = some o' := by
  obtain ⟨hlt, -⟩ := Array.getElem?_eq_some_iff.mp h
  simp [object?, put, hlt]

theorem object?_put_ne {r' : Address} (h : r' ≠ r) : (w.put r o).object? r' = w.object? r' := by
  simp [object?, put, Ne.symm h]

theorem object?_alloc (h : w.object? r = some o) (o' : Object P) :
    (w.alloc o').2.object? r = some o := by
  obtain ⟨hlt, rfl⟩ := Array.getElem?_eq_some_iff.mp h
  simp [object?, alloc, Array.getElem?_push_lt hlt]

/-- What the library does to a world on its own: it gives a list other items, which are not fewer,
or a map other entries, or it makes a new list. -/
inductive Changes : World P → World P → Prop
  | none (w : World P) : Changes w w
  | items {w : World P} {r : Address} {items items' : Array Value}
      (h : w.object? r = some (.list items)) (hsize : items.size ≤ items'.size) :
      Changes w (w.put r (.list items'))
  | entries {w : World P} {r : Address} {entries : Entries} (h : w.object? r = some (.map entries))
      (entries' : Entries) : Changes w (w.put r (.map entries'))
  | list (w : World P) (items : Array Value) : Changes w (w.alloc (.list items)).2

theorem Changes.state (h : w.Changes w') : w'.state = w.state := by
  cases h <;> rfl

end World

-- ---------------------------------------------------------------------------
-- Acts
-- ---------------------------------------------------------------------------

def World.Moves {ε : Type} (R : World P → World P → Prop)
    (x : ExceptT ε (StateM (World P)) α) (w : World P) : Prop :=
  R w (x w).2

namespace World.Moves

variable {ε : Type} {w : World P}

theorem get_bind {R : World P → World P → Prop}
    {f : World P → ExceptT ε (StateM (World P)) α}
    (h : Moves R (f w) w) : Moves R (get >>= f) w := h

theorem ofExcept_bind {R : World P → World P → Prop} {result : Except Failure α}
    {f : α → Act P β}
    (h : R w w) (hf : ∀ a, Moves R (f a) w) : Moves R (Act.ofExcept result >>= f) w := by
  rw [Moves, Act.ofExcept_bind]
  split
  · exact hf _
  · exact h

section

variable {R : World P → World P → Prop} [IsPreorder (World P) R]

theorem unchanged {x : ExceptT ε (StateM (World P)) α} (h : (x w).2 = w) : Moves R x w := by
  rw [Moves, h]
  exact refl_of R w

theorem pure (a : α) : Moves R (Pure.pure a : ExceptT ε (StateM (World P)) α) w :=
  unchanged rfl

theorem throw (e : ε) : Moves R (throw e : ExceptT ε (StateM (World P)) α) w :=
  unchanged rfl

theorem bind {x : ExceptT ε (StateM (World P)) α} {f : α → ExceptT ε (StateM (World P)) β}
    (hx : Moves R x w) (hf : ∀ a w', Moves R (f a) w') : Moves R (x >>= f) w := by
  simp only [Moves, Bind.bind, ExceptT.bind, ExceptT.mk, StateT.bind] at hx ⊢
  rcases hw : x w with ⟨e | a, w'⟩ <;> rw [hw] at hx
  · exact hx
  · exact trans_of R hx (hf a w')

end

theorem put_field (r : Address) (name : String) (v : Value) (w : World P) :
    Moves Changes ((Fields.ofMap r).put name v) w := by
  have hput : (Fields.ofMap r).put name v w = (.ok (), _) := rfl
  rw [Moves, hput]
  dsimp only
  split
  · exact .entries ‹_› _
  · exact .none w

theorem put_item (r : Address) (key v : Value) (w : World P) :
    Moves Changes ((Indexed.ofList r).put key v) w := by
  refine .get_bind ?_
  split
  · exact .ofExcept_bind (.none w) fun place =>
      .items ‹_› (Nat.le_of_eq (Array.size_setIfInBounds ..).symm)
  · exact Changes.none w

theorem put_entry (r : Address) (key v : Value) (w : World P) :
    Moves Changes ((Indexed.ofMap r).put key v) w :=
  .get_bind (.ofExcept_bind (.none w) fun name => put_field r name v w)

theorem run {R : World P → World P → Prop}
    (hlibrary : ∀ w w' : World P, w.Changes w' → R w w')
    {H : Host P} {code : Code P} {args : List Value}
    (hown : ∀ own, code = .foreign own → Moves R (H.run own args) w) :
    Moves R (code.run H args) w := by
  have hnone : R w w := hlibrary w w (.none w)
  unfold Code.run
  split
  · refine .get_bind ?_
    split <;> exact hnone
  · refine .get_bind ?_
    split
    · rename_i items h
      have hsize : items.size ≤ (items ++ args).size := by
        simp [← Array.length_toList]
      exact hlibrary _ _ (.items h hsize)
    · exact hnone
  · refine .get_bind ?_
    split
    · exact hlibrary _ _ (.list w _)
    · exact hnone
  · refine .get_bind ?_
    split <;> exact hnone
  · exact hnone
  · exact hnone
  · exact hnone
  · exact hnone
  · exact hnone
  · exact hown _ rfl

theorem collect (results : List Value) (w : World P) :
    Moves Changes (Act.collect results : Act P (Option Value)) w := by
  unfold Act.collect
  split
  · exact .none w
  · exact .none w
  · exact .list w _

end World.Moves

namespace Host

/-- What the host's own functions and capabilities do, iterating apart, leads along a relation. -/
structure Follows (H : Host P) (R : World P → World P → Prop) : Prop where
  putField {r : Address} {cell : P.Cell} {fields : Fields P} (h : H.fields? r cell = some fields)
    (name : String) (v : Value) (w : World P) : w.Moves R (fields.put name v)
  putIndexed {r : Address} {cell : P.Cell} {indexed : Indexed P}
    (h : H.indexed? r cell = some indexed) (key v : Value) (w : World P) :
    w.Moves R (indexed.put key v)
  create {r : Address} {cell : P.Cell} {resource : Resource P}
    (h : H.resource? r cell = some resource) (w : World P) : w.Moves R resource.create
  close {r : Address} {cell : P.Cell} {resource : Resource P}
    (h : H.resource? r cell = some resource) (w : World P) : w.Moves R resource.close
  run (code : P.Code) (args : List Value) (w : World P) : w.Moves R (H.run code args)

section

variable {H : Host P} {R : World P → World P → Prop} {w : World P} {r : Address}

theorem fieldsOf?_moves (hlibrary : ∀ w w' : World P, w.Changes w' → R w w')
    (hhost : H.Follows R)
    {fields : Fields P} (h : H.fieldsOf? w r = some fields) (name : String) (v : Value)
    (w' : World P) : w'.Moves R (fields.put name v) := by
  unfold fieldsOf? at h
  split at h
  · cases h
    exact hlibrary _ _ (World.Moves.put_field r name v w')
  · cases h
    exact hlibrary _ _ (.none w')
  · exact hhost.putField h name v w'
  · cases h

theorem indexedOf?_moves (hlibrary : ∀ w w' : World P, w.Changes w' → R w w')
    (hhost : H.Follows R)
    {indexed : Indexed P} (h : H.indexedOf? w r = some indexed) (key v : Value) (w' : World P) :
    w'.Moves R (indexed.put key v) := by
  unfold indexedOf? at h
  split at h
  · cases h
    exact hlibrary _ _ (World.Moves.put_item r key v w')
  · cases h
    exact hlibrary _ _ (World.Moves.put_entry r key v w')
  · exact hhost.putIndexed h key v w'
  · cases h

theorem Serves.moves (hlibrary : ∀ w w' : World P, w.Changes w' → R w w') (hhost : H.Follows R)
    {x : Act P α} (h : H.Serves x) (w : World P) : w.Moves R x := by
  cases h with
  | index container key => exact hlibrary _ _ (.none w)
  | items v => exact hlibrary _ _ (.none w)
  | putField h name v => exact fieldsOf?_moves hlibrary hhost h name v w
  | putIndexed h key v => exact indexedOf?_moves hlibrary hhost h key v w
  | call f args => exact World.Moves.run hlibrary fun own _ => hhost.run own args w
  | collect results => exact hlibrary _ _ (World.Moves.collect results w)

theorem create_moves (hhost : H.Follows R) {resource : Resource P}
    (h : H.resourceOf? w r = some resource) (w' : World P) : w'.Moves R resource.create := by
  obtain ⟨cell, hc⟩ := resourceOf?_foreign h
  exact hhost.create hc w'

theorem close_moves (hhost : H.Follows R) {resource : Resource P}
    (h : H.resourceOf? w r = some resource) (w' : World P) : w'.Moves R resource.close := by
  obtain ⟨cell, hc⟩ := resourceOf?_foreign h
  exact hhost.close hc w'

end

end Host

-- ---------------------------------------------------------------------------
-- Asking for the next element
-- ---------------------------------------------------------------------------

namespace Cursor

variable {H : Host P} {w : World P} {r : Address} {next : Nat}

theorem next?_iterator {iterable : Iterable P}
    (h : H.iterableOf? w r = some iterable) (next : Nat) :
    (iterator r next).next? H w =
      match iterable.hasNext w with
      | (false, w) => (.ok none, w)
      | (true, w) =>
        match iterable.next w with
        | (.ok v, w) => (.ok (some ((.ofNat next, v), .iterator r (next + 1))), w)
        | (.error e, w) => (.error e, w) := by
  rw [next?, Act.get_bind, h]
  dsimp only
  rw [Act.lift_bind]
  rcases iterable.hasNext w with ⟨_ | _, w₁⟩
  · rfl
  · dsimp only
    rw [if_pos rfl, Act.bind_apply]
    rcases iterable.next w₁ with ⟨_ | _, _⟩ <;> rfl

theorem next?_no_iterator (h : H.iterableOf? w r = none) :
    (iterator r next).next? H w = (.ok none, w) := by
  rw [next?, Act.get_bind, h]
  rfl

theorem next?_still {cursor : Cursor} (h : ∀ r next, cursor ≠ .iterator r next) :
    (cursor.next? H w).2 = w := by
  cases cursor with
  | iterator r next => exact absurd rfl (h r next)
  | count stop next => rfl
  | bytes rest next => cases rest <;> rfl
  | entries rest => cases rest <;> rfl
  | sequence r length next =>
    rw [next?]
    split
    · rw [Act.get_bind]
      cases H.indexedOf? w r with
      | none => rfl
      | some indexed =>
        dsimp only
        rw [Act.ofExcept_bind]
        split <;> rfl
    · rfl

theorem next?_moves {R : World P → World P → Prop} (hrefl : R w w) (cursor : Cursor)
    (hiterator : ∀ r next iterable, cursor = .iterator r next →
      H.iterableOf? w r = some iterable →
      R w (iterable.hasNext w).2 ∧
        ((iterable.hasNext w).1 = true → R w (iterable.next (iterable.hasNext w).2).2)) :
    w.Moves R (cursor.next? H) := by
  by_cases hcursor : ∃ r next, cursor = .iterator r next
  · obtain ⟨r, next, rfl⟩ := hcursor
    unfold World.Moves
    cases h : H.iterableOf? w r with
    | none =>
      rw [next?_no_iterator h]
      exact hrefl
    | some iterable =>
      obtain ⟨hasked, hgiven⟩ := hiterator r next iterable rfl h
      rw [next?_iterator h]
      rcases hw : iterable.hasNext w with ⟨_ | _, w₁⟩ <;> rw [hw] at hasked hgiven
      · exact hasked
      · have hgiven := hgiven rfl
        dsimp only at hgiven ⊢
        rcases hw₁ : iterable.next w₁ with ⟨_ | _, _⟩ <;>
          rw [hw₁] at hgiven <;> exact hgiven
  · rw [World.Moves, next?_still fun r next h => hcursor ⟨r, next, h⟩]
    exact hrefl

end Cursor

-- ---------------------------------------------------------------------------
-- The workbench
-- ---------------------------------------------------------------------------

namespace Workbench

open World

/-- Along such a relation leads all that the workbench does on its own: it notes lines, makes
objects, and lets one that counts down go on. -/
structure Bears (R : World platform → World platform → Prop) : Prop extends
    IsPreorder (World platform) R where
  noted (w : World platform) (lines : List String) : R w { w with state := lines }
  made (w : World platform) (o : Object platform) : R w (w.alloc o).2
  counted {w : World platform} {r : Address} {limit failAt next : Int64}
    (h : w.object? r = some (.foreign (.countdown limit failAt next))) :
    R w (w.put r (.foreign (.countdown limit failAt (next + 1))))

namespace Bears

variable {R : World platform → World platform → Prop} (hR : Bears R) {w : World platform}

include hR

theorem note {ε : Type} (line : String) :
    w.Moves R (note line : ExceptT ε (StateM (World platform)) Unit) :=
  hR.noted w _

theorem newObject (o : Object platform) : w.Moves R (Workbench.made o) :=
  hR.made w o

theorem run (routine : Routine) (args : List Value) : w.Moves R (run routine args) := by
  have := hR.toIsPreorder
  cases routine with
  | log => exact .bind (.unchanged rfl) fun _ w => .bind (hR.note _) fun _ w => .pure _
  | trace => exact .bind (.unchanged rfl) fun _ w => .bind (hR.note _) fun _ w => .pure _
  | opt => exact .bind (.unchanged rfl) fun _ w => .pure _
  | type => exact .bind (.unchanged rfl) fun _ w => .pure _
  | list | typed | floats | map | plain =>
    rw [Workbench.run]
    exact hR.newObject _
  | sum | multi | distance =>
    rw [Workbench.run]
    exact .pure _
  | panicStatic | panicAny =>
    rw [Workbench.run]
    exact .throw _
  | point | box | countdown | tracked =>
    unfold Workbench.run
    split <;> try contradiction
    · exact hR.newObject _
    · exact .pure _
  | fail | panic =>
    unfold Workbench.run
    split <;> try contradiction
    · exact .throw _
    · exact .pure _
  | function =>
    unfold Workbench.run
    split <;> try contradiction
    · split
      · exact hR.newObject _
      · exact .throw _
    · exact .pure _

theorem create (name mode : String) : w.Moves R (trackedResource name mode).create := by
  have := hR.toIsPreorder
  unfold trackedResource
  dsimp only
  split
  · exact .pure _
  · refine .bind (hR.note _) fun _ _ => ?_
    split
    · exact .throw _
    · exact .pure _

theorem close (name mode : String) : w.Moves R (trackedResource name mode).close := by
  have := hR.toIsPreorder
  refine .bind (hR.note _) fun _ _ => ?_
  split
  · exact .throw _
  · exact .pure _

theorem hasNext (r : Address) (w : World platform) : R w ((countdownSteps r).hasNext w).2 := by
  have hstill : ((countdownSteps r).hasNext w).2 = w := by
    simp only [countdownSteps, bind, StateT.bind, get, getThe, MonadStateOf.get, StateT.get]
    dsimp only [Id, pure]
    cases w.object? r with
    | none => rfl
    | some o =>
      cases o with
      | foreign cell => cases cell <;> rfl
      | _ => rfl
  rw [hstill]
  exact hR.refl w

theorem next (r : Address) : w.Moves R (countdownSteps r).next := by
  have := hR.toIsPreorder
  refine .get_bind ?_
  split
  · split
    · exact .throw _
    · exact hR.counted ‹_›
  · exact .pure _

theorem follows : host.Follows R where
  putField {_ cell _} h _ _ _ := by
    have := hR.toIsPreorder
    cases cell <;> cases h
    exact .throw _
  putIndexed {_ cell _} h _ _ w := by
    have := hR.toIsPreorder
    cases cell with
    | seq length items holes indexable =>
      cases indexable <;> cases h
      exact .unchanged rfl
    | _ => cases h
  create {_ cell _} h _ := by
    cases cell <;> cases h
    exact hR.create _ _
  close {_ cell _} h _ := by
    cases cell <;> cases h
    exact hR.close _ _
  run code args _ := hR.run code args

end Bears

end Workbench

end HostScript
