import HostScript.Proofs.Names.Visibility
import HostScript.Proofs.Object.Changes
import HostScript.Proofs.Value.Scalars

/-!
# Lists and maps as stores

What is put into a list or a map can be read there again. A key is converted each time it is used,
and nothing that is put into a list or a map changes what a key stands for, so that both uses of it
lead to the same place.
-/

namespace HostScript

variable {P : Platform}

theorem except_bind_eq_ok {ε α β : Type} {x : Except ε α} {f : α → Except ε β} {b : β} :
    x >>= f = .ok b ↔ ∃ a, x = .ok a ∧ f a = .ok b := by
  cases x <;> simp [bind, Except.bind]

-- ---------------------------------------------------------------------------
-- Entries
-- ---------------------------------------------------------------------------

namespace Entries

theorem get?_put (key : String) (v : Value) (pairs : Table Value) (other : String) :
    Table.get? (put key v pairs) other = if other = key then some v else pairs.get? other := by
  induction pairs with
  | nil => simp [put, Table.get?_cons]
  | cons p rest ih =>
    simp only [put]
    split
    next => simp [Table.get?_cons]
    next hnotLess =>
      split
      next hgreater =>
        have hne : key ≠ p.1 := fun he => String.lt_irrefl key (he ▸ hgreater)
        by_cases h : other = p.1 <;> simp_all [Table.get?_cons, Ne.symm]
      next hnotGreater =>
        -- A key that is neither less nor greater is the same.
        have he : p.1 = key := String.le_antisymm hnotLess hnotGreater
        by_cases h : other = key <;> simp [Table.get?_cons, he, h]

theorem get?_insert (entries : Entries) (key : String) (v : Value) (other : String) :
    (entries.insert key v).get? other = if other = key then some v else entries.get? other :=
  get?_put key v entries.pairs other

end Entries

-- ---------------------------------------------------------------------------
-- Keys
-- ---------------------------------------------------------------------------

namespace View

/-- What a value stands for depends on nothing but what each object does. -/
theorem scalar_congr {view view' : View} (hsize : view'.size = view.size)
    (hscalar : ∀ r, view'.scalar? r = view.scalar? r) (v : Value) :
    view'.scalar v = view.scalar v := by
  have hwithin (n : Nat) (v : Value) : view'.scalarWithin n v = view.scalarWithin n v := by
    induction n generalizing v with
    | zero => rfl
    | succ n ih =>
      simp only [scalarWithin, hscalar]
      split
      · split
        · exact ih _
        · rfl
      · rfl
  rw [scalar, scalar, hsize, hwithin]

theorem asInt_eq_ok {view : View} {v : Value} {n : Int64} :
    view.asInt v = .ok n ↔ (view.scalar v).int? = some n := by
  unfold asInt
  cases (view.scalar v).int? <;> simp

theorem asString_eq_ok {view : View} {v : Value} {s : String} :
    view.asString v = .ok s ↔ (view.scalar v).str? = some s := by
  unfold asString
  cases (view.scalar v).str? <;> simp

theorem asInt_plain (view : View) {v s : Value} (hv : v.unwrapped = s) (hs : s.address? = none)
    {n : Int64} : view.asInt v = .ok n ↔ s.int? = some n := by
  rw [asInt_eq_ok, view.scalar_plain hv hs]

theorem asString_plain (view : View) {v s : Value} (hv : v.unwrapped = s) (hs : s.address? = none)
    {text : String} : view.asString v = .ok text ↔ s.str? = some text := by
  rw [asString_eq_ok, view.scalar_plain hv hs]

theorem asString_str (view : View) (s : String) : view.asString (.str s) = .ok s :=
  (view.asString_plain rfl rfl).mpr rfl

end View

theorem placeIn_lt {size place : Nat} {index : Int64} (h : placeIn size index = .ok place) :
    place < size := by
  unfold placeIn at h
  dsimp only at h
  split at h
  · cases h
    omega
  · cases h

namespace World

variable {w : World P} {r : Address} {o : Object P}

theorem scalar_put {o' : Object P} (h : w.object? r = some o') (ho' : o'.scalar? = none)
    (ho : o.scalar? = none) (opened : List Address) (v : Value) :
    ((w.put r o).viewWithin opened).scalar v = (w.viewWithin opened).scalar v := by
  refine View.scalar_congr (Array.size_setIfInBounds ..) (fun r' => ?_) v
  dsimp only [viewWithin]
  by_cases hr : r' = r
  · rw [hr, object?_put_self h, h]
    exact ho.trans ho'.symm
  · rw [object?_put_ne hr]

def IsContainer (w : World P) (r : Address) : Prop :=
  (∃ items, w.object? r = some (.list items)) ∨ ∃ entries, w.object? r = some (.map entries)

end World

-- ---------------------------------------------------------------------------
-- Reading what was put
-- ---------------------------------------------------------------------------

section

variable {w w' : World P} {r : Address} {key v : Value}

theorem Host.fieldsOf?_list (H : Host P) {items : Array Value}
    (h : w.object? r = some (.list items)) : H.fieldsOf? w r = none := by
  rw [Host.fieldsOf?, h]

theorem Host.fieldsOf?_map (H : Host P) {entries : Entries}
    (h : w.object? r = some (.map entries)) : H.fieldsOf? w r = some (.ofMap r) := by
  rw [Host.fieldsOf?, h]

theorem Host.indexedOf?_list (H : Host P) {items : Array Value}
    (h : w.object? r = some (.list items)) : H.indexedOf? w r = some (.ofList r) := by
  rw [Host.indexedOf?, h]

theorem Host.indexedOf?_map (H : Host P) {entries : Entries}
    (h : w.object? r = some (.map entries)) : H.indexedOf? w r = some (.ofMap r) := by
  rw [Host.indexedOf?, h]

theorem Fields.ofMap_get? {entries : Entries} (h : w.object? r = some (.map entries))
    (name : String) :
    (Fields.ofMap r).get? w name = entries.get? name := by
  dsimp only [Fields.ofMap]
  rw [h]

theorem Host.project?_map (H : Host P) {entries : Entries} {name : String}
    (h : w.object? r = some (.map entries)) (hv : entries.get? name = some v) :
    H.project? w (.ref r) name = some v := by
  rw [Host.project?, H.fieldsOf?_map h, Option.bind_some, Fields.ofMap_get? h, hv]

theorem Host.index_indexed (H : Host P) {indexed : Indexed P}
    (hi : H.indexedOf? w r = some indexed) (hget : indexed.get? w key = .ok (some v)) :
    H.index w (.ref r) key = .ok v := by
  rw [Host.index, hi]
  dsimp only
  rw [hget]
  rfl

theorem Fields.ofMap_put {entries : Entries} (h : w.object? r = some (.map entries)) (name : String)
    (v : Value) :
    (Fields.ofMap r).put name v w = (.ok (), w.put r (.map (entries.insert name v))) := by
  change (Except.ok (), _) = _
  dsimp only
  rw [h]

theorem Indexed.ofList_put_eq {items : Array Value} (h : w.object? r = some (.list items))
    (key v : Value) : (Indexed.ofList r).put key v w =
      match (do placeIn items.size (← (w.viewWithin [r]).asInt key)) with
      | .ok place => (.ok (), w.put r (.list (items.setIfInBounds place v)))
      | .error e => (.error e, w) := by
  have hsteps : (Indexed.ofList r).put key v w =
      (Act.ofExcept (do placeIn items.size (← (w.viewWithin [r]).asInt key)) >>= fun place =>
        set (w.put r (.list (items.setIfInBounds place v)))) w := by
    dsimp only [Indexed.ofList]
    rw [Act.get_bind, h]
  rw [hsteps, Act.ofExcept_bind]
  cases (do placeIn items.size (← (w.viewWithin [r]).asInt key)) <;> rfl

theorem Indexed.ofMap_put_eq {entries : Entries} (h : w.object? r = some (.map entries))
    (key v : Value) : (Indexed.ofMap r).put key v w =
      match w.view.asString key with
      | .ok name => (.ok (), w.put r (.map (entries.insert name v)))
      | .error e => (.error e, w) := by
  have hsteps : (Indexed.ofMap r).put key v w =
      (Act.ofExcept (w.view.asString key) >>= fun name => (Fields.ofMap r).put name v) w := by
    dsimp only [Indexed.ofMap]
    exact Act.get_bind _ w
  rw [hsteps, Act.ofExcept_bind]
  cases w.view.asString key with
  | ok name => exact Fields.ofMap_put h name v
  | error e => rfl

theorem Indexed.ofList_put {items : Array Value} (h : w.object? r = some (.list items))
    (hput : (Indexed.ofList r).put key v w = (.ok (), w')) :
    ∃ n place, (w.viewWithin [r]).asInt key = .ok n ∧ placeIn items.size n = .ok place ∧
      w' = w.put r (.list (items.setIfInBounds place v)) := by
  rw [Indexed.ofList_put_eq h] at hput
  cases hfound : (do placeIn items.size (← (w.viewWithin [r]).asInt key)) with
  | error e =>
    rw [hfound] at hput
    cases hput
  | ok place =>
    rw [hfound] at hput
    obtain ⟨n, hn, hplace⟩ := except_bind_eq_ok.mp hfound
    exact ⟨n, place, hn, hplace, (Prod.ext_iff.mp hput).2.symm⟩

theorem Indexed.ofMap_put {entries : Entries} (h : w.object? r = some (.map entries))
    (hput : (Indexed.ofMap r).put key v w = (.ok (), w')) :
    ∃ name, w.view.asString key = .ok name ∧ w' = w.put r (.map (entries.insert name v)) := by
  rw [Indexed.ofMap_put_eq h] at hput
  cases hname : w.view.asString key with
  | error e =>
    rw [hname] at hput
    cases hput
  | ok name =>
    rw [hname] at hput
    exact ⟨name, rfl, (Prod.ext_iff.mp hput).2.symm⟩

theorem Indexed.ofList_get? {items : Array Value} {n : Int64} {place : Nat}
    (h : w.object? r = some (.list items)) (hn : (w.viewWithin [r]).asInt key = .ok n)
    (hplace : placeIn items.size n = .ok place) :
    (Indexed.ofList r).get? w key = .ok items[place]? := by
  dsimp only [Indexed.ofList]
  rw [h]
  dsimp only
  rw [hn]
  change (placeIn items.size n >>= fun place => pure items[place]?) = _
  rw [hplace]
  rfl

theorem Indexed.ofMap_get?_eq {entries : Entries} (h : w.object? r = some (.map entries))
    (key : Value) : (Indexed.ofMap r).get? w key = (w.view.asString key).map entries.get? := by
  dsimp only [Indexed.ofMap]
  rw [h]
  rfl

theorem Indexed.ofMap_get? {entries : Entries} {name : String}
    (h : w.object? r = some (.map entries)) (hname : w.view.asString key = .ok name) :
    (Indexed.ofMap r).get? w key = .ok (entries.get? name) := by
  rw [Indexed.ofMap_get?_eq h, hname]
  rfl

theorem Indexed.ofList_get?_put {items : Array Value} (h : w.object? r = some (.list items))
    (hput : (Indexed.ofList r).put key v w = (.ok (), w')) :
    ∃ items', w'.object? r = some (.list items') ∧
      (Indexed.ofList r).get? w' key = .ok (some v) := by
  obtain ⟨n, place, hn, hplace, rfl⟩ := Indexed.ofList_put h hput
  have hafter : (w.put r (.list (items.setIfInBounds place v))).object? r =
      some (.list (items.setIfInBounds place v)) := World.object?_put_self h _
  refine ⟨_, hafter, ?_⟩
  rw [View.asInt_eq_ok,
    ← World.scalar_put (o := .list (items.setIfInBounds place v)) h rfl rfl [r],
    ← View.asInt_eq_ok] at hn
  rw [Indexed.ofList_get? hafter hn (by rwa [Array.size_setIfInBounds])]
  simp [placeIn_lt hplace]

theorem Indexed.ofMap_get?_put {entries : Entries} (h : w.object? r = some (.map entries))
    (hput : (Indexed.ofMap r).put key v w = (.ok (), w')) :
    ∃ entries', w'.object? r = some (.map entries') ∧
      (Indexed.ofMap r).get? w' key = .ok (some v) := by
  obtain ⟨name, hname, rfl⟩ := Indexed.ofMap_put h hput
  have hafter : (w.put r (.map (entries.insert name v))).object? r =
      some (.map (entries.insert name v)) := World.object?_put_self h _
  refine ⟨_, hafter, ?_⟩
  rw [View.asString_eq_ok, World.view,
    ← World.scalar_put (o := .map (entries.insert name v)) h rfl rfl [], ← World.view,
    ← View.asString_eq_ok] at hname
  rw [Indexed.ofMap_get? hafter hname, Entries.get?_insert, if_pos rfl]

end

end HostScript
