import HostScript.Proofs.Object.Changes
import HostScript.Workbench.Host

/-!
# Objects that stay resources

A host is steadfast if nothing that it does turns a resource into something else: an object opts
into being a resource as what it is, not for a while. The library's own acts never do so
(`Host.Offers.steady` says this of all acts of a run).
-/

namespace HostScript

variable {P : Platform} {α : Type}

namespace Host

def KeepsResources (H : Host P) (w w' : World P) : Prop :=
  ∀ r, (H.resourceOf? w r).isSome → (H.resourceOf? w' r).isSome

/-- Nothing that the host's own functions and capabilities do turns a resource
into something else. -/
structure Steadfast (H : Host P) : Prop where
  putField {r : Address} {cell : P.Cell} {fields : Fields P} (h : H.fields? r cell = some fields)
    (name : String) (v : Value) (w : World P) : H.KeepsResources w (fields.put name v w).2
  putIndexed {r : Address} {cell : P.Cell} {indexed : Indexed P}
    (h : H.indexed? r cell = some indexed) (key v : Value) (w : World P) :
    H.KeepsResources w (indexed.put key v w).2
  hasNext {r : Address} {cell : P.Cell} {iterable : Iterable P}
    (h : H.iterable? r cell = some iterable) (w : World P) :
    H.KeepsResources w (iterable.hasNext w).2
  next {r : Address} {cell : P.Cell} {iterable : Iterable P}
    (h : H.iterable? r cell = some iterable) (w : World P) : H.KeepsResources w (iterable.next w).2
  create {r : Address} {cell : P.Cell} {resource : Resource P}
    (h : H.resource? r cell = some resource) (w : World P) :
    H.KeepsResources w (resource.create w).2
  close {r : Address} {cell : P.Cell} {resource : Resource P}
    (h : H.resource? r cell = some resource) (w : World P) : H.KeepsResources w (resource.close w).2
  run (code : P.Code) (args : List Value) (w : World P) : H.KeepsResources w (H.run code args w).2

namespace KeepsResources

variable {H : Host P} {w w' w'' : World P}

theorem refl (w : World P) : H.KeepsResources w w := fun _ h => h

theorem trans (h : H.KeepsResources w w') (h' : H.KeepsResources w' w'') :
    H.KeepsResources w w'' := fun r hr => h' r (h r hr)

theorem put {r : Address} (o : Object P) (h : H.resourceOf? w r = none) :
    H.KeepsResources w (w.put r o) := by
  intro r' hr
  by_cases hne : r' = r
  · subst hne
    rw [h] at hr
    cases hr
  · rwa [resourceOf?, World.object?_put_ne hne, ← resourceOf?]

theorem alloc (o : Object P) : H.KeepsResources w (w.alloc o).2 := by
  intro r hr
  have hobject : ∃ o, w.object? r = some o := by
    unfold resourceOf? at hr
    split at hr
    · exact ⟨_, ‹_›⟩
    · cases hr
  obtain ⟨o', ho⟩ := hobject
  rwa [resourceOf?, World.object?_alloc ho, ← ho, ← resourceOf?]

theorem of_changes (h : w.Changes w') : H.KeepsResources w w' := by
  cases h with
  | none => exact .refl w
  | items h => exact .put _ (by rw [resourceOf?, h])
  | entries h => exact .put _ (by rw [resourceOf?, h])
  | list => exact .alloc _

end KeepsResources

variable {H : Host P}

theorem Steadfast.follows (hH : H.Steadfast) : H.Follows H.KeepsResources where
  putField := hH.putField
  putIndexed := hH.putIndexed
  create := hH.create
  close := hH.close
  run := hH.run

theorem next?_steady (hH : H.Steadfast) (cursor : Cursor) (w : World P) :
    w.Moves H.KeepsResources (cursor.next? H) := by
  refine Cursor.next?_moves (.refl w) cursor fun r next iterable _ h => ?_
  obtain ⟨cell, hc⟩ := iterableOf?_foreign h
  exact ⟨hH.hasNext hc w, fun _ => (hH.hasNext hc w).trans (hH.next hc _)⟩

theorem Offers.steady (hH : H.Steadfast) {x : Act P α} (h : H.Offers x) (w : World P) :
    w.Moves H.KeepsResources x := by
  cases h with
  | serves h => exact h.moves (fun _ _ => KeepsResources.of_changes) hH.follows w
  | next cursor => exact next?_steady hH cursor w
  | create h => exact create_moves hH.follows h w
  | close h => exact close_moves hH.follows h w

end Host

namespace Workbench

open Host

theorem keepsResources_bears : Bears host.KeepsResources where
  refl := .refl
  trans _ _ _ := .trans
  noted _ _ _ h := h
  made _ o := .alloc o
  counted h := .put _ (by rw [resourceOf?, h]; rfl)

theorem host_steadfast : host.Steadfast where
  putField := keepsResources_bears.follows.putField
  putIndexed := keepsResources_bears.follows.putIndexed
  hasNext {r cell iterable} h w := by
    cases cell <;> cases h
    exact keepsResources_bears.hasNext r w
  next {r cell iterable} h w := by
    cases cell <;> cases h
    exact keepsResources_bears.next r
  create := keepsResources_bears.follows.create
  close := keepsResources_bears.follows.close
  run := keepsResources_bears.follows.run

end Workbench

end HostScript
