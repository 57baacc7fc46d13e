import HostScript.Object.Cursor
import HostScript.Proofs.Object.Containers
import HostScript.Proofs.Object.Wrapping
import HostScript.Workbench.Scripts

/-!
# Elements of a value

The elements of a value are found in two ways: spreading asks for all of them at once, ranging walks
from one to the next. Of a string, a list, or another sequence both give the same (`items_drained`).
An object that is like a map is walked by its entries, but spread by positions, which its keys need
not be.
-/

namespace HostScript

variable {P : Platform}

namespace Cursor

/-- The keys and elements that a walk gives up to its end, if nothing is changed on the way. -/
inductive Drains (H : Host P) (w : World P) : Cursor → List (Value × Value) → Prop
  | done {cursor : Cursor} : cursor.next? H w = (.ok none, w) → Drains H w cursor []
  | step {cursor next : Cursor} {entry : Value × Value} {rest : List (Value × Value)} :
    cursor.next? H w = (.ok (some (entry, next)), w) → Drains H w next rest →
      Drains H w cursor (entry :: rest)

variable {H : Host P} {w : World P} {r : Address}

theorem Drains.unique {cursor : Cursor} {entries entries' : List (Value × Value)}
    (h : Drains H w cursor entries) (h' : Drains H w cursor entries') : entries' = entries := by
  induction h generalizing entries' with
  | done hend =>
    cases h' with
    | done => rfl
    | step hnext => cases hend.symm.trans hnext
  | step hnext _ ih =>
    cases h' with
    | done hend => cases hnext.symm.trans hend
    | step hnext' hrest =>
      rw [hnext] at hnext'
      cases hnext'
      rw [ih hrest]

theorem drains_entries (pairs : List (Value × Value)) : Drains H w (.entries pairs) pairs := by
  induction pairs with
  | nil => exact .done rfl
  | cons entry rest ih => exact .step rfl ih

theorem drains_bytes (bytes : List UInt8) (next : Nat) :
    ∃ entries, Drains H w (.bytes bytes next) entries ∧
      entries.map Prod.snd = bytes.map Value.ofByte := by
  induction bytes generalizing next with
  | nil => exact ⟨[], .done rfl, rfl⟩
  | cons b rest ih =>
    obtain ⟨entries, hdrains, hvalues⟩ := ih (next + 1)
    exact ⟨_, .step rfl hdrains, congrArg (Value.ofByte b :: ·) hvalues⟩

theorem next?_sequence {indexed : Indexed P} {length next : Nat} {v : Value}
    (hi : H.indexedOf? w r = some indexed) (hlt : next < length)
    (hv : Host.element w indexed next = .ok v) :
    (sequence r length next).next? H w =
      (.ok (some ((.ofNat next, v), .sequence r length (next + 1))), w) := by
  rw [next?, if_pos hlt, Act.get_bind, hi]
  dsimp only
  rw [Act.ofExcept_bind, hv]
  rfl

theorem next?_sequence_end {length : Nat} :
    (sequence r length length).next? H w = (.ok none, w) := by
  rw [next?, if_neg (Nat.lt_irrefl length)]
  rfl

theorem drains_sequence {indexed : Indexed P} (hi : H.indexedOf? w r = some indexed)
    {count next : Nat} {vs : List Value}
    (h : (List.range' next count).mapM (Host.element w indexed) = .ok vs) :
    ∃ entries, Drains H w (.sequence r (next + count) next) entries ∧
      entries.map Prod.snd = vs := by
  induction count generalizing next vs with
  | zero =>
    cases h
    exact ⟨[], .done next?_sequence_end, rfl⟩
  | succ count ih =>
    rw [List.range'_succ, List.mapM_cons] at h
    obtain ⟨v, hv, h⟩ := except_bind_eq_ok.mp h
    obtain ⟨rest, hrest, h⟩ := except_bind_eq_ok.mp h
    cases h
    obtain ⟨entries, hdrains, hvalues⟩ := ih hrest
    rw [Nat.add_right_comm] at hdrains
    exact ⟨_, .step (next?_sequence hi (by omega) hv) hdrains, congrArg (v :: ·) hvalues⟩

end Cursor

-- ---------------------------------------------------------------------------
-- Positions in a list
-- ---------------------------------------------------------------------------

theorem View.asInt_ofNat (view : View) (n : Nat) : view.asInt (.ofNat n) = .ok (.ofNat n) :=
  (view.asInt_plain rfl rfl).mpr rfl

theorem toInt_ofNat_of_le {i : Nat} (h : i ≤ Int64.maxValue.toInt) : (Int64.ofNat i).toInt = i :=
  Int64.toInt_ofNat_of_lt (by have := Int64.maxValue.toInt_lt; omega)

theorem placeIn_ofNat {size i : Nat} (hi : i < size) (hcount : i ≤ Int64.maxValue.toInt) :
    placeIn size (.ofNat i) = .ok i := by
  simp [placeIn, toInt_ofNat_of_le hcount, hi]

theorem Host.element_list {w : World P} {r : Address} {items : Array Value} {i : Nat}
    (hr : w.object? r = some (.list items)) (hi : i < items.size)
    (hcount : i ≤ Int64.maxValue.toInt) :
    Host.element w (.ofList r) i = .ok items[i] := by
  rw [Host.element, Indexed.ofList_get? hr (View.asInt_ofNat _ i) (placeIn_ofNat hi hcount),
    Array.getElem?_eq_getElem hi]
  rfl

-- ---------------------------------------------------------------------------
-- Positions in a map
-- ---------------------------------------------------------------------------

def Entries.atPosition (map : Entries) (position : Nat) : Value :=
  (map.get? (Numeral.intText (Int64.ofNat position).toInt)).getD .nil

theorem View.asString_ofNat (view : View) (n : Nat) :
    view.asString (.ofNat n) = .ok (Numeral.intText (Int64.ofNat n).toInt) :=
  (view.asString_plain rfl rfl).mpr rfl

theorem Host.items_map (H : Host P) {w : World P} {r : Address} {map : Entries}
    (h : w.object? r = some (.map map)) :
    H.items w (.ref r) = .ok ((List.range map.size).map map.atPosition) := by
  have helement : Host.element w (.ofMap r) = fun position => pure (map.atPosition position) := by
    funext position
    rw [Host.element, Indexed.ofMap_get? h (View.asString_ofNat _ position)]
    rfl
  have hlength : H.lengthOf? w r = some map.size := by rw [Host.lengthOf?, h]
  rw [Host.items, hlength, H.indexedOf?_map h]
  dsimp only
  rw [helement, List.mapM_pure]
  rfl

-- ---------------------------------------------------------------------------
-- Both ways
-- ---------------------------------------------------------------------------

/-- What a value that does not iterate itself is spread to is what ranging over it gives, each
element once and in order, unless it is like a map. Then ranging gives its entries; a map is spread
to what stands under the texts of as many positions as it has entries. -/
theorem items_drained (H : Host P) (w : World P) {v : Value} {vs : List Value}
    (h : H.items w v = .ok vs)
    (hiterable : ∀ r, v.unwrapped = .ref r → H.iterableOf? w r = none) :
    ∃ cursor entries, Cursor.start H w v = .ok cursor ∧
      (∀ entries', cursor.Drains H w entries' ↔ entries' = entries) ∧
      ((∀ r, v.unwrapped = .ref r → H.entriesOf? w r = none) → entries.map Prod.snd = vs) ∧
      ∀ r, v.unwrapped = .ref r →
        (∀ pairs, H.entriesOf? w r = some pairs → entries = pairs) ∧
        ∀ map, w.object? r = some (.map map) →
          entries.map Prod.snd = map.pairs.map Prod.snd ∧
            vs = (List.range map.size).map map.atPosition := by
  have hunique {cursor : Cursor} {entries : List (Value × Value)} (hd : cursor.Drains H w entries)
      (entries' : List (Value × Value)) : cursor.Drains H w entries' ↔ entries' = entries :=
    ⟨hd.unique, fun he => he ▸ hd⟩
  induction v with
  | pair key v ih => exact ih h hiterable
  | str s =>
    cases h
    obtain ⟨entries, hdrains, hvalues⟩ := Cursor.drains_bytes (H := H) (w := w) (Text.bytes s) 0
    exact ⟨_, entries, rfl, hunique hdrains, fun _ => hvalues, nofun⟩
  | ref r =>
    have hiter := hiterable r rfl
    have hitems := h
    unfold Host.items at h
    split at h
    · rename_i length indexed hlength hindexed
      cases hentries : H.entriesOf? w r with
      | some pairs =>
        refine ⟨.entries pairs, pairs, ?_, hunique (Cursor.drains_entries pairs),
          fun hno => ?_, ?_⟩
        · rw [Cursor.start, hiter, hentries]
        · rw [hno r rfl] at hentries
          cases hentries
        · rintro _ ⟨⟩
          refine ⟨fun pairs' hpairs => Option.some.inj (hentries.symm.trans hpairs),
            fun map hmap => ?_⟩
          rw [H.items_map hmap] at hitems
          rw [Host.entriesOf?, hmap] at hentries
          obtain rfl := Option.some.inj hentries
          exact ⟨List.map_map .., (Except.ok.inj hitems).symm⟩
      | none =>
        rw [List.range_eq_range'] at h
        obtain ⟨entries, hdrains, hvalues⟩ := Cursor.drains_sequence hindexed h
        rw [Nat.zero_add] at hdrains
        refine ⟨.sequence r length 0, entries, ?_, hunique hdrains, fun _ => hvalues, ?_⟩
        · rw [Cursor.start, hiter, hentries, hlength, hindexed]
        · rintro _ ⟨⟩
          refine ⟨fun pairs' hpairs => (nomatch hentries.symm.trans hpairs), fun map hmap => ?_⟩
          rw [Host.entriesOf?, hmap] at hentries
          cases hentries
    · cases h
  | _ => cases h

namespace Workbench

/-- A world with the list `[1, 2]` and the map `{a: 1}`. -/
def stocked : World platform :=
  ⟨#[.list #[.int 1, .int 2], .map (.ofList [("a", .int 1)])], []⟩

/-- A list under a name gives its two elements both ways. -/
theorem namedList_drained :
    host.items stocked (.pair "items" (.ref 0)) = .ok [.int 1, .int 2] ∧
      (∀ r, (Value.pair "items" (.ref 0)).unwrapped = .ref r →
        host.iterableOf? stocked r = none) ∧
      ∃ cursor entries, Cursor.start host stocked (.pair "items" (.ref 0)) = .ok cursor ∧
        cursor.Drains host stocked entries ∧ entries.map Prod.snd = [.int 1, .int 2] := by
  have hitems : host.items stocked (.pair "items" (.ref 0)) = .ok [.int 1, .int 2] := by rfl
  have hiterable : ∀ r, (Value.pair "items" (.ref 0)).unwrapped = .ref r →
      host.iterableOf? stocked r = none := by
    rintro _ ⟨⟩
    rfl
  obtain ⟨cursor, entries, hstart, hdrains, hvalues, -⟩ :=
    items_drained host stocked hitems hiterable
  refine ⟨hitems, hiterable, cursor, entries, hstart, (hdrains entries).mpr rfl, hvalues ?_⟩
  rintro _ ⟨⟩
  rfl

/-- The map is spread to a nil, but what ranging over it gives is the value of its entry. -/
theorem map_not_drained :
    host.iterableOf? stocked 1 = none ∧ host.items stocked (.ref 1) = .ok [.nil] ∧
      ∃ cursor, Cursor.start host stocked (.ref 1) = .ok cursor ∧
        cursor.Drains host stocked [(.str "a", .int 1)] ∧
        ∀ entries, cursor.Drains host stocked entries → entries.map Prod.snd ≠ [.nil] := by
  have hdrains : (Cursor.entries [(.str "a", .int 1)]).Drains host stocked [(.str "a", .int 1)] :=
    Cursor.drains_entries _
  refine ⟨rfl, rfl, _, rfl, hdrains, fun entries h => ?_⟩
  rw [hdrains.unique h]
  nofun

end Workbench

end HostScript
