import HostScript.Object.View
import Mathlib.Data.List.Perm.Subperm

/-!
# Scalars

Looking through names and objects need not come to an end, since an object could stand for itself.
Where it does, no object is looked through twice. So the steps that a view of a world takes are
enough (`standsFor_scalar`), and what they come to is a scalar that looking through leaves as it is.
-/

namespace HostScript

variable {P : Platform}

namespace Value

theorem unwrapped_ne_pair (v : Value) (key : String) (inner : Value) :
    v.unwrapped ≠ .pair key inner := by
  induction v with
  | pair _ v ih => exact ih
  | _ => nofun

end Value

namespace View

/-- A value stands for another, the objects on the way to it being looked through,
the outermost first. -/
inductive StandsFor (view : View) : Value → List Address → Value → Prop
  | named {key : String} {v s : Value} {seen : List Address} :
      StandsFor view v seen s → StandsFor view (.pair key v) seen s
  | through {r : Address} {v s : Value} {seen : List Address} :
      view.scalar? r = some v → StandsFor view v seen s → StandsFor view (.ref r) (r :: seen) s
  | itself {v : Value} :
      v.unwrapped = v → v.address?.bind view.scalar? = none → StandsFor view v [] v

def Settles (view : View) (v : Value) : Prop :=
  ∃ seen s, view.StandsFor v seen s

variable {view : View} {v s s' : Value} {seen seen' : List Address} {r : Address} {n : Nat}

theorem scalarWithin_pair (view : View) (n : Nat) (key : String) (v : Value) :
    view.scalarWithin n (.pair key v) = view.scalarWithin n v := by
  cases n <;> rfl

theorem scalarWithin_through (h : view.scalar? r = some v) (n : Nat) :
    view.scalarWithin (n + 1) (.ref r) = view.scalarWithin n v := by
  simp only [scalarWithin, Value.unwrapped, h]

theorem scalarWithin_itself (hplain : v.unwrapped = v)
    (hend : v.address?.bind view.scalar? = none) (n : Nat) : view.scalarWithin n v = v := by
  cases n with
  | zero => exact hplain
  | succ n =>
    rw [scalarWithin, hplain]
    cases v with
    | ref r =>
      have hr : view.scalar? r = none := hend
      simp only [hr]
    | _ => rfl

theorem scalarWithin_ne_pair (view : View) (n : Nat) (v : Value) (key : String) (inner : Value) :
    view.scalarWithin n v ≠ .pair key inner := by
  induction n generalizing v with
  | zero => exact v.unwrapped_ne_pair key inner
  | succ n ih =>
    rw [scalarWithin]
    split
    · split
      · exact ih _
      · nofun
    · exact v.unwrapped_ne_pair key inner

theorem scalar_ne_pair (view : View) (v : Value) (key : String) (inner : Value) :
    view.scalar v ≠ .pair key inner :=
  view.scalarWithin_ne_pair view.size v key inner

/-- Names are all that is looked through of a value that is no reference. -/
theorem scalar_plain (view : View) {v s : Value} (hv : v.unwrapped = s) (hs : s.address? = none) :
    view.scalar v = s := by
  have hplain : s.unwrapped = s := by
    cases s with
    | pair key inner => exact absurd hv (v.unwrapped_ne_pair key inner)
    | _ => rfl
  induction v with
  | pair key v ih => exact (view.scalarWithin_pair view.size key v).trans (ih hv)
  | _ =>
    obtain rfl := hv
    exact scalarWithin_itself hplain (by rw [hs]; rfl) view.size

namespace StandsFor

theorem unique (h : view.StandsFor v seen s) (h' : view.StandsFor v seen' s') :
    seen = seen' ∧ s = s' := by
  induction h generalizing seen' with
  | @named key v _ _ _ ih =>
    cases h' with
    | named h' => exact ih h'
    | itself hplain _ => exact absurd hplain (v.unwrapped_ne_pair key v)
  | @through r _ _ _ hr _ ih =>
    cases h' with
    | through hr' h' =>
      cases hr.symm.trans hr'
      obtain ⟨rfl, rfl⟩ := ih h'
      exact ⟨rfl, rfl⟩
    | itself _ hend => exact absurd (hr.symm.trans hend) nofun
  | @itself v hplain hend =>
    cases h' with
    | @named key v _ _ _ => exact absurd hplain (v.unwrapped_ne_pair key v)
    | through hr _ => exact absurd (hr.symm.trans hend) nofun
    | itself _ _ => exact ⟨rfl, rfl⟩

theorem end_itself (h : view.StandsFor v seen s) : view.StandsFor s [] s := by
  induction h with
  | named _ ih => exact ih
  | through _ _ ih => exact ih
  | itself hplain hend => exact .itself hplain hend

theorem onwards (h : view.StandsFor v seen s) (hr : r ∈ seen) :
    ∃ before after, seen = before ++ r :: after ∧ view.StandsFor (.ref r) (r :: after) s := by
  induction h with
  | named _ ih => exact ih hr
  | @through r' _ _ seen hscalar hrest ih =>
    rcases List.mem_cons.mp hr with rfl | hr
    · exact ⟨[], seen, rfl, .through hscalar hrest⟩
    · obtain ⟨before, after, rfl, hafter⟩ := ih hr
      exact ⟨r' :: before, after, rfl, hafter⟩
  | itself _ _ => cases hr

theorem seen_scalar? (h : view.StandsFor v seen s) (hr : r ∈ seen) :
    ∃ inner, view.scalar? r = some inner := by
  obtain ⟨_, _, -, h⟩ := h.onwards hr
  cases h with
  | through hr _ => exact ⟨_, hr⟩

/-- An object that came up again would lead on for ever. -/
theorem nodup (h : view.StandsFor v seen s) : seen.Nodup := by
  induction h with
  | named _ ih => exact ih
  | @through r _ _ seen hr hrest ih =>
    refine List.nodup_cons.mpr ⟨fun hagain => ?_, ih⟩
    obtain ⟨before, after, hseen, hafter⟩ := hrest.onwards hagain
    have hsame : r :: after = r :: seen := (hafter.unique (.through hr hrest)).1
    rw [(List.cons.inj hsame).2] at hseen
    have hlength := congrArg List.length hseen
    simp only [List.length_append, List.length_cons] at hlength
    omega
  | itself _ _ => exact List.nodup_nil

theorem scalarWithin_eq (h : view.StandsFor v seen s) (hn : seen.length ≤ n) :
    view.scalarWithin n v = s := by
  induction h generalizing n with
  | named _ ih => rw [scalarWithin_pair, ih hn]
  | through hr _ ih =>
    cases n with
    | zero => exact absurd hn (Nat.not_succ_le_zero _)
    | succ n => rw [scalarWithin_through hr, ih (Nat.le_of_succ_le_succ hn)]
  | itself hplain hend => exact scalarWithin_itself hplain hend n

end StandsFor

end View

theorem World.lt_of_scalar? {w : World P} {opened : List Address} {r : Address} {v : Value}
    (h : (w.viewWithin opened).scalar? r = some v) : r < w.objects.size := by
  obtain ⟨o, ho, -⟩ := Option.bind_eq_some_iff.mp h
  exact (Array.getElem?_eq_some_iff.mp ho).1

/-- A view of a world takes a value for what it stands for: on the way there are no more objects
than there are at all. -/
theorem World.standsFor_scalar {w : World P} {opened seen : List Address} {v s : Value}
    (h : (w.viewWithin opened).StandsFor v seen s) : (w.viewWithin opened).scalar v = s := by
  have hwithin : seen ⊆ List.range w.objects.size := by
    intro r hr
    obtain ⟨inner, hinner⟩ := h.seen_scalar? hr
    exact List.mem_range.mpr (World.lt_of_scalar? hinner)
  have hlength := (h.nodup.subperm hwithin).length_le
  rw [List.length_range] at hlength
  exact h.scalarWithin_eq hlength

theorem World.scalar_scalar {w : World P} {opened : List Address} {v : Value}
    (h : (w.viewWithin opened).Settles v) :
    (w.viewWithin opened).scalar ((w.viewWithin opened).scalar v) =
      (w.viewWithin opened).scalar v := by
  obtain ⟨seen, s, h⟩ := h
  rw [World.standsFor_scalar h, World.standsFor_scalar h.end_itself]

end HostScript
