import HostScript.Proofs.Object.Containers
import HostScript.Workbench.Host
import Mathlib.Data.Set.Card

/-!
# Maps as finite functions

A map is stored into under keys, as fields, and by index with keys of any kind, and is looked at in
seven ways. Whatever has been stored, and whatever happened to other objects in between, the map at
an address is the one that its history makes (`run_history`); so all that is seen of it is one
finite function, which has under each key what was last stored there (`stored_last_shown`).
-/

namespace HostScript

variable {P : Platform}

-- ---------------------------------------------------------------------------
-- What was last stored
-- ---------------------------------------------------------------------------

def lastStored (history : List (String × Value)) (key : String) : Option Value :=
  Table.get? history.reverse key

theorem lastStored_append (history : List (String × Value)) (stored key : String) (v : Value) :
    lastStored (history ++ [(stored, v)]) key =
      if key = stored then some v else lastStored history key := by
  rw [lastStored, List.reverse_concat, Table.get?_cons, lastStored]

theorem lastStored_filter (history : List (String × Value)) (key : String) :
    lastStored (history.filter (·.1 = key)) key = lastStored history key := by
  induction history using List.reverseRecOn with
  | nil => rfl
  | append_singleton history entry ih =>
    obtain ⟨stored, v⟩ := entry
    by_cases h : stored = key
    · simp [List.filter_append, h, lastStored_append]
    · simp [List.filter_append, h, lastStored_append, Ne.symm h, ih]

namespace Entries

theorem ofList_append (history : List (String × Value)) (key : String) (v : Value) :
    ofList (history ++ [(key, v)]) = (ofList history).insert key v := by
  simp [ofList]

theorem get?_ofList (history : List (String × Value)) (key : String) :
    (ofList history).get? key = lastStored history key := by
  induction history using List.reverseRecOn with
  | nil => rfl
  | append_singleton history entry ih =>
    rw [ofList_append, get?_insert, ih, lastStored_append]

theorem get?_eq_some {entries : Entries} {key : String} {v : Value} :
    entries.get? key = some v ↔ (key, v) ∈ entries.pairs := by
  obtain ⟨pairs, ascending⟩ := entries
  change Table.get? pairs key = some v ↔ (key, v) ∈ pairs
  induction pairs with
  | nil => simp
  | cons p rest ih =>
    obtain ⟨first, u⟩ := p
    obtain ⟨hfirst, hrest⟩ := List.pairwise_cons.mp ascending
    by_cases h : key = first
    · subst h
      -- No later entry has the key of the first one.
      have hlater : (key, v) ∉ rest := fun hmem => String.lt_irrefl key (hfirst _ hmem)
      simp [Table.get?_cons, hlater, eq_comm]
    · simp [Table.get?_cons, h, ih hrest]

theorem get?_isSome {entries : Entries} {key : String} :
    (entries.get? key).isSome ↔ key ∈ entries.keys := by
  simp [Option.isSome_iff_exists, get?_eq_some, keys]

theorem ext_get? {a b : Entries} (h : ∀ key, a.get? key = b.get? key) : a = b := by
  have hasymm : Std.Antisymm fun p q : String × Value => p.1 < q.1 :=
    ⟨fun _ _ hpq hqp => (String.lt_irrefl _ (String.lt_trans hpq hqp)).elim⟩
  have hirrefl : Std.Irrefl fun p q : String × Value => p.1 < q.1 :=
    ⟨fun _ => String.lt_irrefl _⟩
  have hpairs : a.pairs = b.pairs := by
    refine List.Pairwise.eq_of_mem_iff a.ascending b.ascending ?_
    rintro ⟨key, v⟩
    rw [← get?_eq_some, ← get?_eq_some, h]
  cases a
  cases b
  cases hpairs
  rfl

theorem keys_ascending (entries : Entries) : entries.keys.Pairwise (· < ·) :=
  List.pairwise_map.mpr entries.ascending

theorem ofList_reordered {history history' : List (String × Value)}
    (h : ∀ key, history'.filter (·.1 = key) = history.filter (·.1 = key)) :
    ofList history' = ofList history := by
  apply ext_get?
  intro key
  rw [get?_ofList, get?_ofList, ← lastStored_filter, h, lastStored_filter]

end Entries

-- ---------------------------------------------------------------------------
-- What a map shows
-- ---------------------------------------------------------------------------

/-- All that is seen of the map at an address is one function: its entries, its fields, what
stands under an index or a name, the pairs that are iterated, the keys that it lists, and how
many there are. -/
structure Maps.Shows (H : Host P) (w : World P) (r : Address)
    (f : String → Option Value) : Prop where
  get : ∃ entries, w.object? r = some (.map entries) ∧ ∀ key, entries.get? key = f key
  field : H.fieldsOf? w r = some (.ofMap r) ∧ ∀ name, (Fields.ofMap r).get? w name = f name
  index : H.indexedOf? w r = some (.ofMap r) ∧
    ∀ key, (Indexed.ofMap r).get? w key = (w.view.asString key).map f
  project : ∀ name, H.project? w (.ref r) name = f name
  pairs : ∃ pairs : List (String × Value),
    H.entriesOf? w r = some (pairs.map fun (key, v) => (.str key, v)) ∧
      (pairs.Pairwise fun p q => p.1 < q.1) ∧ ∀ key v, (key, v) ∈ pairs ↔ f key = some v
  keys : ∃ (method : Callable P) (keys : List String), H.methodOf? w r "keys" = some method ∧
    method.call H [] w =
      (.ok [.ref w.objects.size], (w.alloc (.list (keys.map Value.str).toArray)).2) ∧
      keys.Pairwise (· < ·) ∧ ∀ key, key ∈ keys ↔ (f key).isSome
  length : H.lengthOf? w r = some (Set.ncard {key | (f key).isSome})

section

variable {w : World P} {r : Address} {entries : Entries}

theorem Host.project?_entries (H : Host P) (h : w.object? r = some (.map entries)) (name : String) :
    H.project? w (.ref r) name = entries.get? name := by
  cases hname : entries.get? name with
  | some v => exact H.project?_map h hname
  | none =>
    -- What is no field is looked for under the name as a key, where nothing stands either.
    have hkey : (Indexed.ofMap r).get? w (.str name) = .ok none := by
      rw [Indexed.ofMap_get? h (View.asString_str w.view name), hname]
    rw [Host.project?, H.fieldsOf?_map h, Option.bind_some, Fields.ofMap_get? h, hname,
      H.indexedOf?_map h]
    dsimp only
    rw [hkey]

theorem Entries.ncard_keys (entries : Entries) :
    Set.ncard {key | (entries.get? key).isSome} = entries.size := by
  have hset : {key | (entries.get? key).isSome} = (entries.keys.toFinset : Set String) := by
    ext key
    simp [get?_isSome]
  have hnodup : entries.keys.Nodup := by
    refine entries.keys_ascending.imp ?_
    rintro key _ hlt rfl
    exact String.lt_irrefl key hlt
  rw [hset, Set.ncard_coe_finset, List.toFinset_card_of_nodup hnodup]
  simp [keys, size]

theorem Callable.call_keys (H : Host P) (h : w.object? r = some (.map entries)) :
    (⟨"keys", .fixed [], .keys r⟩ : Callable P).call H [] w =
      (.ok [.ref w.objects.size], (w.alloc (.list (entries.keys.map Value.str).toArray)).2) := by
  have hrun : (Code.keys r).run H [] w =
      (.ok [.ref w.objects.size], (w.alloc (.list (entries.keys.map Value.str).toArray)).2) := by
    rw [Code.run, Act.get_bind, h]
    rfl
  rw [Callable.call, hrun]
  rfl

theorem Maps.shows_get? (H : Host P) (h : w.object? r = some (.map entries)) :
    Maps.Shows H w r entries.get? where
  get := ⟨entries, h, fun _ => rfl⟩
  field := ⟨H.fieldsOf?_map h, Fields.ofMap_get? h⟩
  index := ⟨H.indexedOf?_map h, Indexed.ofMap_get?_eq h⟩
  project := H.project?_entries h
  pairs := by
    refine ⟨entries.pairs, ?_, entries.ascending, fun key v => Entries.get?_eq_some.symm⟩
    rw [Host.entriesOf?, h]
  keys := by
    refine ⟨⟨"keys", .fixed [], .keys r⟩, entries.keys, ?_, ?_, entries.keys_ascending,
      fun key => Entries.get?_isSome.symm⟩
    · rw [Host.methodOf?, h]
    · exact Callable.call_keys H h
  length := by
    rw [Host.lengthOf?, h, entries.ncard_keys]

end

-- ---------------------------------------------------------------------------
-- Histories
-- ---------------------------------------------------------------------------

namespace Maps

variable {w w' : World P} {r : Address} {history built built' : List (String × Value)}

/-- One step of the history of the map at an address: a store under a key, as a field or by index,
or anything at all that happens elsewhere. -/
inductive Step (P : Platform) (r : Address)
  | insert (key : String) (v : Value)
  | setField (name : String) (v : Value)
  | setIndex (key v : Value)
  | elsewhere (change : World P → World P) (spares : ∀ w, (change w).object? r = w.object? r)

def Step.run (w : World P) : Step P r → World P
  | insert key v =>
    match w.object? r with
    | some (.map entries) => w.put r (.map (entries.insert key v))
    | _ => w
  | setField name v => ((Fields.ofMap r).put name v w).2
  | setIndex key v => ((Indexed.ofMap r).put key v w).2
  | elsewhere change _ => change w

/-- What a step stores, and under which key: an index stands for the string that it can be converted
to at that moment, and stores nothing if it cannot. -/
def Step.stores (w : World P) : Step P r → List (String × Value)
  | insert key v => [(key, v)]
  | setField name v => [(name, v)]
  | setIndex key v =>
    match w.view.asString key with
    | .ok name => [(name, v)]
    | .error _ => []
  | elsewhere _ _ => []

def run (w : World P) (steps : List (Step P r)) : World P :=
  steps.foldl Step.run w

def stores (w : World P) : List (Step P r) → List (String × Value)
  | [] => []
  | step :: steps => step.stores w ++ stores (step.run w) steps

theorem setIndex_fails (h : w.object? r = some (.map (.ofList history))) {key : Value} {e : Failure}
    (he : w.view.asString key = .error e) (v : Value) :
    (Indexed.ofMap r).put key v w = (.error e, w) := by
  rw [Indexed.ofMap_put_eq h, he]

theorem run_step (h : w.object? r = some (.map (.ofList history))) (step : Step P r) :
    (step.run w).object? r = some (.map (.ofList (history ++ step.stores w))) := by
  have hput (key : String) (v : Value) :
      (w.put r (.map ((Entries.ofList history).insert key v))).object? r =
        some (.map (.ofList (history ++ [(key, v)]))) := by
    rw [World.object?_put_self h, Entries.ofList_append]
  cases step with
  | insert key v =>
    simp only [Step.run, h]
    exact hput key v
  | setField name v =>
    rw [Step.run, Fields.ofMap_put h]
    exact hput name v
  | setIndex key v =>
    cases hkey : w.view.asString key with
    | ok name =>
      rw [Step.run, Indexed.ofMap_put_eq h, Step.stores, hkey]
      exact hput name v
    | error e =>
      rw [Step.run, setIndex_fails h hkey, Step.stores, hkey]
      simpa using h
  | elsewhere change spares =>
    rw [Step.run, spares, h, Step.stores, List.append_nil]

theorem run_history (h : w.object? r = some (.map (.ofList built))) (steps : List (Step P r)) :
    (run w steps).object? r = some (.map (.ofList (built ++ stores w steps))) := by
  induction steps generalizing w built with
  | nil => simpa [run, stores] using h
  | cons step steps ih =>
    rw [stores, ← List.append_assoc]
    exact ih (run_step h step)

/-- A map that was built from entries shows, whatever happens to it and around it, one finite
function, which has under each key what was last stored there. An index that is no key stores
nothing. Two histories with the same stores under each key, in the order that these have, end in the
same map. -/
theorem stored_last_shown (H : Host P) (h : w.object? r = some (.map (.ofList built)))
    (steps : List (Step P r)) :
    Shows H (run w steps) r (lastStored (built ++ stores w steps)) ∧
    (∀ key v e, (run w steps).view.asString key = .error e →
      (Indexed.ofMap r).put key v (run w steps) = (.error e, run w steps)) ∧
    ∀ {w' : World P} {built' : List (String × Value)} (steps' : List (Step P r)),
      w'.object? r = some (.map (.ofList built')) →
      (∀ key, (built' ++ stores w' steps').filter (·.1 = key) =
        (built ++ stores w steps).filter (·.1 = key)) →
      (run w' steps').object? r = (run w steps).object? r := by
  have hmap := run_history h steps
  refine ⟨?_, ?_, ?_⟩
  · have hfunction : (Entries.ofList (built ++ stores w steps)).get? =
        lastStored (built ++ stores w steps) := funext (Entries.get?_ofList _)
    exact hfunction ▸ shows_get? H hmap
  · intro key v e he
    exact setIndex_fails hmap he v
  · intro w' built' steps' h' hsame
    rw [run_history h' steps', hmap, Entries.ofList_reordered hsame]

end Maps

namespace Workbench

def numbered : World platform :=
  ⟨#[.map (.ofList [("b", .int 2), ("a", .int 1)]), .foreign (.point 0 1)], []⟩

/-- The key 1 as an int, as a field and as a point; a key that is none. -/
def thrice : List (Maps.Step platform 0) :=
  [.setIndex (.int 1) (.str "int"), .setField "1" (.str "field"), .setIndex (.ref 1) (.str "point"),
    .setIndex .nil (.str "nil")]

/-- The last of three stores under one key is the one seen; two under different
keys change places. -/
theorem thrice_shown : numbered.object? 0 = some (.map (.ofList [("b", .int 2), ("a", .int 1)])) ∧
    host.project? (Maps.run numbered thrice) (.ref 0) "1" = some (.str "point") ∧
    host.lengthOf? (Maps.run numbered thrice) 0 = some 3 ∧
    (Maps.run (r := 0) numbered [.setField "c" .nil, .insert "d" .nil]).object? 0 =
      (Maps.run (r := 0) numbered [.insert "d" .nil, .setField "c" .nil]).object? 0 := by
  have hbuilt : numbered.object? 0 = some (.map (.ofList [("b", .int 2), ("a", .int 1)])) := rfl
  obtain ⟨hshows, -, -⟩ := Maps.stored_last_shown host hbuilt thrice
  obtain ⟨-, -, hswap⟩ :=
    Maps.stored_last_shown host hbuilt [.insert "d" .nil, .setField "c" .nil]
  refine ⟨hbuilt, hshows.project "1", rfl, hswap _ hbuilt ?_⟩
  intro key
  by_cases hc : "c" = key
  · subst hc
    rfl
  · simp [Maps.stores, Maps.Step.stores, List.filter_cons, hc]

end Workbench

end HostScript
