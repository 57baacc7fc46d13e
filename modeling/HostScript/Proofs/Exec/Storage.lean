import HostScript.Proofs.Exec.Computation
import HostScript.Proofs.Object.Containers
import HostScript.Proofs.Object.Wrapping
import HostScript.Workbench.Scripts

/-!
# Storing and reading back

What is stored in a variable, or in a list or a map, can be read there again, also through names
that the list or the map has been given (`write_then_read`). The exception is a name's own two
fields: they are read from the name, but what is stored as one of them goes through it to the map.
-/

namespace HostScript

variable {P : Platform} {α : Type}

-- ---------------------------------------------------------------------------
-- Storing
-- ---------------------------------------------------------------------------

theorem Exec.act_eq_ok {x : Act P α} {m m' : Machine P} {a : α} (h : act x m = (.ok a, m')) :
    ∃ w, x m.world = (.ok a, w) ∧ m' = { m with world := w } := by
  rcases hx : x m.world with ⟨e | b, w⟩
  · rw [act_error hx] at h
    cases h
  · rw [act_ok hx] at h
    cases h
    exact ⟨w, rfl, rfl⟩

namespace Place

variable {prog : Program P} {container : Value} {r : Address} {v : Value} {m : Machine P}

theorem write_field {fields : Fields P} (hr : container.unwrapped = .ref r)
    (hf : prog.host.fieldsOf? m.world r = some fields) (name : String) :
    (Place.field container name).write prog v m = Exec.act (fields.put name v) m := by
  rw [write, hr]
  dsimp only
  rw [Exec.bind_ok (Exec.world_apply m), hf]

theorem write_field_fails (hr : container.unwrapped = .ref r)
    (hf : prog.host.fieldsOf? m.world r = none) (name : String) :
    (Place.field container name).write prog v m =
      (.error (.failed (.of (.cannotSet name))), m) := by
  rw [write, hr]
  dsimp only
  rw [Exec.bind_ok (Exec.world_apply m), hf]
  rfl

theorem write_index {indexed : Indexed P} (hr : container.unwrapped = .ref r)
    (hi : prog.host.indexedOf? m.world r = some indexed) (key : Value) :
    (Place.index container key).write prog v m = Exec.act (indexed.put key v) m := by
  rw [write, Exec.bind_ok (Exec.world_apply m), hr]
  dsimp only
  rw [hi]

theorem read_field {name : String} (h : prog.host.project? m.world container name = some v) :
    (Place.field container name).read prog m = (.ok v, m) := by
  rw [read, Exec.field, Exec.bind_ok (Exec.world_apply m), h]
  rfl

theorem read_index {key : Value} (h : prog.host.index m.world container key = .ok v) :
    (Place.index container key).read prog m = (.ok v, m) := by
  rw [read, Exec.index, Exec.ask, Exec.act_ok (w := m.world) (by rw [h])]

-- ---------------------------------------------------------------------------
-- Places that hold what is stored
-- ---------------------------------------------------------------------------

/-- A variable that is not blank, or a part of what is a list or a map under any names. -/
inductive Holds (w : World P) : Place → Prop
  | binding {name : String} (h : name ≠ blank) : Holds w (.binding name)
  | field {container : Value} {r : Address} (hr : container.unwrapped = .ref r)
      (h : w.IsContainer r) (name : String) : Holds w (.field container name)
  | index {container : Value} {r : Address} (hr : container.unwrapped = .ref r)
      (h : w.IsContainer r) (key : Value) : Holds w (.index container key)

theorem write_field_container (hr : container.unwrapped = .ref r) (h : m.world.IsContainer r)
    {name : String} {m' : Machine P}
    (hw : (Place.field container name).write prog v m = (.ok (), m')) :
    ∃ entries, m'.world.object? r = some (.map entries) ∧ entries.get? name = some v := by
  rcases h with ⟨items, hobject⟩ | ⟨entries, hobject⟩
  · rw [write_field_fails hr (prog.host.fieldsOf?_list hobject)] at hw
    cases hw
  · rw [write_field hr (prog.host.fieldsOf?_map hobject)] at hw
    obtain ⟨w, hput, rfl⟩ := Exec.act_eq_ok hw
    rw [Fields.ofMap_put hobject] at hput
    obtain rfl := (Prod.ext_iff.mp hput).2
    exact ⟨_, World.object?_put_self hobject _, by rw [Entries.get?_insert, if_pos rfl]⟩

theorem write_index_container (hr : container.unwrapped = .ref r) (h : m.world.IsContainer r)
    {key : Value} {m' : Machine P}
    (hw : (Place.index container key).write prog v m = (.ok (), m')) :
    prog.host.index m'.world container key = .ok v := by
  rw [Host.index_unwrapped, hr]
  rcases h with ⟨items, hobject⟩ | ⟨entries, hobject⟩
  · rw [write_index hr (prog.host.indexedOf?_list hobject)] at hw
    obtain ⟨w, hput, rfl⟩ := Exec.act_eq_ok hw
    obtain ⟨items', hobject', hget⟩ := Indexed.ofList_get?_put hobject hput
    exact prog.host.index_indexed (prog.host.indexedOf?_list hobject') hget
  · rw [write_index hr (prog.host.indexedOf?_map hobject)] at hw
    obtain ⟨w, hput, rfl⟩ := Exec.act_eq_ok hw
    obtain ⟨entries', hobject', hget⟩ := Indexed.ofMap_get?_put hobject hput
    exact prog.host.index_indexed (prog.host.indexedOf?_map hobject') hget

end Place

/-- What has been stored is what is read from the same place, unless the place is one of the own
fields of a name: then the name answers for itself, and what has been stored stands in the map that
is named. -/
theorem write_then_read (prog : Program P) {place : Place} {v : Value} {m m' : Machine P}
    (hholds : place.Holds m.world) (hw : place.write prog v m = (.ok (), m')) :
    ((∀ key inner name, place = .field (.pair key inner) name → name ∉ Value.ownFields) →
      place.read prog m' = (.ok v, m')) ∧
    ∀ key inner name, place = .field (.pair key inner) name → name ∈ Value.ownFields →
      place.read prog m' = (.ok (if name = "key" then .str key else inner), m') ∧
        ∃ r entries, inner.unwrapped = .ref r ∧ m'.world.object? r = some (.map entries) ∧
          entries.get? name = some v := by
  cases hholds with
  | binding hname =>
    refine ⟨fun _ => ?_, nofun⟩
    cases hw
    refine Exec.root_bound ?_
    rw [Program.resolveRoot?, Scopes.lookup_store _ v hname]
    rfl
  | index hr h key =>
    exact ⟨fun _ => Place.read_index (Place.write_index_container hr h hw), nofun⟩
  | @field container r hr h name =>
    obtain ⟨entries, hobject, hv⟩ := Place.write_field_container hr h hw
    refine ⟨fun hown => Place.read_field ?_, ?_⟩
    · have hsame : prog.host.project? m'.world container name =
          prog.host.project? m'.world container.unwrapped name := by
        cases container with
        | pair key inner => exact Host.project?_unwrapped _ _ (hown key inner name rfl) _
        | _ => rfl
      rw [hsame, hr]
      exact prog.host.project?_map hobject hv
    · rintro key inner name' ⟨⟩ hname
      exact ⟨Place.read_field (Host.project?_own _ _ key inner hname), r, entries,
        hr, hobject, hv⟩

namespace Workbench

/-- A machine with a list and a map, each under a name. -/
def shelved : Machine platform :=
  Session.start ⟨[], .empty, none,
    [("row", .pair "items" (.ref 0)), ("table", .pair "sizes" (.ref 1))]⟩
    ⟨#[.list #[.int 1, .int 2], .map .empty], []⟩

def secondItem : Place :=
  .index (.pair "items" (.ref 0)) (.str "1")

theorem secondItem_stored : secondItem.Holds shelved.world ∧
    ∃ m', secondItem.write bare (.str "two") shelved = (.ok (), m') ∧
      secondItem.read bare m' = (.ok (.str "two"), m') := by
  have hholds : secondItem.Holds shelved.world := .index (r := 0) rfl (.inl ⟨_, rfl⟩) _
  have hw : (secondItem.write bare (.str "two") shelved).1 = .ok () := by rfl
  refine ⟨hholds, _, Prod.ext hw rfl, ?_⟩
  exact (write_then_read bare hholds (Prod.ext hw rfl)).1 nofun

def tableKey : Path :=
  .ofDotted "table.key"

/-- What is stored as `table.key` is not read from there: the name of the map is. -/
theorem tableKey_not_stored : ∃ place m',
    (bare.evaluator 1).place bare tableKey shelved = (.ok place, shelved) ∧
      place.Holds shelved.world ∧ place.write bare (.int 5) shelved = (.ok (), m') ∧
      place.read bare m' = (.ok (.str "sizes"), m') ∧
        place.read bare m' ≠ (.ok (.int 5), m') := by
  refine ⟨.field (.pair "sizes" (.ref 1)) "key", _, rfl,
    .field (r := 1) rfl (.inr ⟨_, rfl⟩) _,
    rfl, rfl, ?_⟩
  intro h
  cases (Prod.ext_iff.mp h).1

end Workbench

end HostScript
