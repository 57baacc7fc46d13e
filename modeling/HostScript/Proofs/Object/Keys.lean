import HostScript.Proofs.Numeral.Integer
import HostScript.Proofs.Object.Maps
import HostScript.Proofs.Object.Wrapping

/-!
# Ints as text and as keys

An int that becomes a string and an int again is the same, whatever names both are under, and the
strings that become ints are those that write one of 64 bits. So each int has a slot of its own in a
map, the one under its decimal text (`int_text_round_trips`).
-/

namespace HostScript

variable {P : Platform}

open Numeral

theorem View.asString_named_int (view : View) (n : Int64) (names : List String) :
    view.asString ((Value.int n).wrapped names) = .ok (toString n.toInt) := by
  rw [view.asString_plain ((Value.int n).unwrapped_wrapped names) rfl, ← intText_eq_toString]
  rfl

theorem View.asString_int (view : View) (n : Int64) :
    view.asString (.int n) = .ok (toString n.toInt) :=
  view.asString_named_int n []

theorem View.asInt_text (view : View) (s : String) (names : List String) {n : Int64} :
    view.asInt ((Value.str s).wrapped names) = .ok n ↔ int64? s = some n :=
  view.asInt_plain ((Value.str s).unwrapped_wrapped names) rfl

theorem toString_toInt_injective {n k : Int64}
    (h : toString n.toInt = toString k.toInt) : n = k := by
  rw [← intText_eq_toString, ← intText_eq_toString] at h
  exact Int64.toInt_inj.mp (intText_injective h)

section

variable {w : World P} {r : Address} {entries : Entries}

theorem Indexed.ofMap_get?_same {key key' : Value} (h : w.object? r = some (.map entries))
    (hsame : w.view.asString key = w.view.asString key') :
    (Indexed.ofMap r).get? w key = (Indexed.ofMap r).get? w key' := by
  rw [Indexed.ofMap_get?_eq h, Indexed.ofMap_get?_eq h, hsame]

theorem Indexed.ofMap_put_same {key key' : Value} (h : w.object? r = some (.map entries))
    (hsame : w.view.asString key = w.view.asString key') (v : Value) :
    (Indexed.ofMap r).put key v w = (Indexed.ofMap r).put key' v w := by
  rw [Indexed.ofMap_put_eq h, Indexed.ofMap_put_eq h, hsame]

theorem Indexed.ofMap_put_int (h : w.object? r = some (.map entries)) (n : Int64) (v : Value) :
    ∃ w', (Indexed.ofMap r).put (.int n) v w = (.ok (), w') ∧
      ∀ k, (Indexed.ofMap r).get? w' (.int k) =
        if k = n then .ok (some v) else (Indexed.ofMap r).get? w (.int k) := by
  have hput : (Indexed.ofMap r).put (.int n) v w =
      (.ok (), w.put r (.map (entries.insert (toString n.toInt) v))) := by
    rw [Indexed.ofMap_put_eq h, w.view.asString_int n]
  refine ⟨_, hput, ?_⟩
  intro k
  have hafter : (w.put r (.map (entries.insert (toString n.toInt) v))).object? r =
      some (.map (entries.insert (toString n.toInt) v)) := World.object?_put_self h _
  rw [Indexed.ofMap_get? hafter (View.asString_int _ k),
    Indexed.ofMap_get? h (View.asString_int _ k), Entries.get?_insert]
  by_cases hk : k = n
  · simp [hk]
  · rw [if_neg (mt toString_toInt_injective hk), if_neg hk]

/-- An int becomes its decimal text and that text becomes the int again, under any names. A string
becomes an int exactly if it is a sign or none and ASCII digits, at least one, that write an
integer of 64 bits, which is the one that it becomes. Different ints are different keys, and an
int and its decimal text are one key: what is read there, what is stored there and what that
changes is the same. -/
theorem int_text_round_trips (H : Host P) (h : w.object? r = some (.map entries)) :
    (∀ (view : View) (n : Int64) (names inner : List String),
      ∃ text, view.asString ((Value.int n).wrapped names) = .ok text ∧
        text = toString n.toInt ∧
        view.asInt ((Value.str text).wrapped inner) = .ok n) ∧
    (∀ (view : View) (s : String) (names : List String) (n : Int64),
      view.asInt ((Value.str s).wrapped names) = .ok n ↔
        ∃ i, Spells s.toList i ∧ -2 ^ 63 ≤ i ∧ i < 2 ^ 63 ∧ n.toInt = i) ∧
    (∀ (view : View) (n k : Int64), view.asString (.int n) = view.asString (.int k) → n = k) ∧
    ∀ n : Int64,
      H.index w (.ref r) (.int n) = H.index w (.ref r) (.str (toString n.toInt)) ∧
      (Indexed.ofMap r).get? w (.int n) = (Indexed.ofMap r).get? w (.str (toString n.toInt)) ∧
      ∀ v, (Indexed.ofMap r).put (.int n) v w =
          (Indexed.ofMap r).put (.str (toString n.toInt)) v w ∧
        ∃ w', (Indexed.ofMap r).put (.int n) v w = (.ok (), w') ∧
          ∀ k, (Indexed.ofMap r).get? w' (.int k) =
            if k = n then .ok (some v) else (Indexed.ofMap r).get? w (.int k) := by
  refine ⟨?_, ?_, ?_, ?_⟩
  · intro view n names inner
    refine ⟨toString n.toInt, view.asString_named_int n names, rfl,
      (view.asInt_text _ inner).mpr ?_⟩
    rw [← intText_eq_toString, int64?_intText]
  · intro view s names n
    rw [view.asInt_text s names, int64?_eq_some]
  · intro view n k hkeys
    rw [view.asString_int n, view.asString_int k] at hkeys
    exact toString_toInt_injective (Except.ok.inj hkeys)
  · intro n
    have hsame : w.view.asString (.int n) = w.view.asString (.str (toString n.toInt)) :=
      (w.view.asString_int n).trans (w.view.asString_str _).symm
    have hget := Indexed.ofMap_get?_same h hsame
    refine ⟨?_, hget,
      fun v => ⟨Indexed.ofMap_put_same h hsame v, Indexed.ofMap_put_int h n v⟩⟩
    simp only [Host.index, H.indexedOf?_map h, hget]

end

namespace Workbench

/-- The smallest int is read from its text, and what is stored under it is read under its text. -/
theorem smallest_round_trips :
    numbered.object? 0 = some (.map (.ofList [("b", .int 2), ("a", .int 1)])) ∧
    numbered.view.asInt (.str "-9223372036854775808") = .ok Int64.minValue ∧
    (Indexed.ofMap 0).put (.int Int64.minValue) .nil numbered =
      (Indexed.ofMap 0).put (.str "-9223372036854775808") .nil numbered := by
  have hmap : numbered.object? 0 = some (.map (.ofList [("b", .int 2), ("a", .int 1)])) := rfl
  obtain ⟨hround, -, -, hslot⟩ := int_text_round_trips host hmap
  obtain ⟨text, -, rfl, hread⟩ := hround numbered.view Int64.minValue [] []
  exact ⟨hmap, hread, (hslot Int64.minValue).2.2 .nil |>.1⟩

end Workbench

end HostScript
