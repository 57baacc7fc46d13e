import HostScript.Object.Rendering
import HostScript.Workbench.Basic
import Mathlib.Data.Finset.Card

/-!
# Rendering comes to an end

A text is worked out with one container more under lock at each step down, so that no more steps are
taken than there are containers that are not locked. All locks that are taken on the way are given
back, and the text is that of the reference `World.describe`, which takes no locks and carries the
containers that are open above (`rendering_ends`). An element is worked out with those open that are
above it, and with none of those beside it.
-/

namespace HostScript

variable {P : Platform}

namespace World

def unopened (w : World P) (opened : List Address) : Nat :=
  ((Finset.range w.objects.size).filter fun r => r ∉ opened).card

theorem unopened_lt {w : World P} {r : Address} {o : Object P} {opened : List Address}
    (h : w.object? r = some o) (hr : r ∉ opened) :
    w.unopened (r :: opened) < w.unopened opened := by
  obtain ⟨hlt, -⟩ := Array.getElem?_eq_some_iff.mp h
  refine Finset.card_lt_card (Finset.ssubset_iff_of_subset ?_ |>.mpr ⟨r, ?_, ?_⟩)
  · intro x hx
    simp_all
  · simp [hlt, hr]
  · simp

/-- The text of an object while some containers are open: those that are above it, and those that
were open from the start. -/
def describe (w : World P) (opened : List Address) (r : Address) : String :=
  match _h : w.object? r with
  | some (.list items) =>
    if _hr : r ∈ opened then "[...]"
    else "[" ++ Text.commaSeparated
      (items.toList.map (Value.text fun inner => w.describe (r :: opened) inner)) ++ "]"
  | some (.map entries) =>
    if _hr : r ∈ opened then "\x7b...\x7d"
    else "\x7b" ++ Text.commaSeparated (entries.pairs.map fun (key, v) =>
      key ++ ": " ++ v.text fun inner => w.describe (r :: opened) inner) ++ "\x7d"
  | some o => o.text fun _ => ""
  | none => "<nothing>"
termination_by w.unopened opened
decreasing_by all_goals exact unopened_lt _h _hr

section

variable {w : World P} {r : Address} {opened : List Address}

theorem describe_list {items : Array Value} (h : w.object? r = some (.list items)) :
    w.describe opened r = if r ∈ opened then "[...]" else
      "[" ++
        Text.commaSeparated (items.toList.map (Value.text (w.describe (r :: opened)))) ++ "]" := by
  rw [describe]
  split <;> simp_all

theorem describe_map {entries : Entries} (h : w.object? r = some (.map entries)) :
    w.describe opened r = if r ∈ opened then "\x7b...\x7d" else
      "\x7b" ++ Text.commaSeparated (entries.pairs.map fun (key, v) =>
        key ++ ": " ++ v.text (w.describe (r :: opened))) ++ "\x7d" := by
  rw [describe]
  split <;> simp_all

theorem describe_other {o : Object P} (h : w.object? r = some o) (ho : o.abbreviation? = none) :
    w.describe opened r = o.text fun _ => "" := by
  rw [describe]
  cases o with
  | list | map => cases ho
  | package | function | foreign => split <;> simp_all

theorem describe_none (h : w.object? r = none) : w.describe opened r = "<nothing>" := by
  rw [describe]
  split <;> simp_all

end

end World

-- ---------------------------------------------------------------------------
-- Locks
-- ---------------------------------------------------------------------------

namespace Rendering

variable {heap : Heap P} {r : Address} {text short : String}

theorem bind_some {α β : Type} {x : StateT (Heap P) Option α}
    {f : α → StateT (Heap P) Option β}
    {a : α} {heap heap' : Heap P} (h : x heap = some (a, heap')) : (x >>= f) heap = f a heap' := by
  simp [bind, StateT.bind, h]

theorem get_bind {α : Type} (f : Heap P → StateT (Heap P) Option α) (heap : Heap P) :
    (get >>= f) heap = f heap heap := rfl

theorem tryLock_free (hr : r ∉ heap.locked) : tryLock r heap = some (true, heap.lock r) := by
  rw [tryLock, get_bind, if_neg hr]
  rfl

theorem tryLock_held (hr : r ∈ heap.locked) : tryLock r heap = some (false, heap) := by
  rw [tryLock, get_bind, if_pos hr]
  rfl

/-- A lock is given back after the work that it was taken for, if that gives back those
that it takes. -/
theorem underLock_free {x : Rendering P} (hr : r ∉ heap.locked)
    (hx : x (heap.lock r) = some (text, heap.lock r)) :
    underLock r short x heap = some (text, heap) := by
  rw [underLock, bind_some (tryLock_free hr), if_pos rfl, bind_some hx]
  change some (text, (heap.lock r).unlock r) = _
  rw [Heap.unlock_lock]

theorem underLock_held {x : Rendering P} (hr : r ∈ heap.locked) :
    underLock r short x heap = some (short, heap) := by
  rw [underLock, bind_some (tryLock_held hr)]
  rfl

theorem mapM_texts {α : Type} {items : List α} {x : α → Rendering P} {text : α → String}
    (hx : ∀ a ∈ items, x a heap = some (text a, heap)) :
    items.mapM x heap = some (items.map text, heap) := by
  induction items with
  | nil => rfl
  | cons a rest ih =>
    have hrest := ih fun b hb => hx b (List.mem_cons_of_mem a hb)
    rw [List.mapM_cons, bind_some (hx a List.mem_cons_self), bind_some hrest]
    rfl

theorem ofValue_text {object : Address → Rendering P} {describe : Address → String}
    (hobject : ∀ r, object r heap = some (describe r, heap)) (v : Value) :
    ofValue object v heap = some (v.text describe, heap) := by
  induction v with
  | pair key v ih =>
    rw [ofValue, bind_some ih]
    rfl
  | ref r => exact hobject r
  | nil | bool | int | float | str => rfl

theorem ofObject_text {n : Nat} (hn : heap.world.unopened heap.locked < n) (r : Address) :
    ofObject n r heap = some (heap.world.describe heap.locked r, heap) := by
  induction n generalizing heap r with
  | zero => exact absurd hn (Nat.not_lt_zero _)
  | succ n ih =>
    rw [ofObject, get_bind]
    -- Below a container that is locked, one step less is still enough.
    have helement (hr : r ∉ heap.locked) {o : Object P} (ho : heap.world.object? r = some o)
        (v : Value) : ofValue (ofObject n) v (heap.lock r) =
          some (v.text (heap.world.describe (r :: heap.locked)), heap.lock r) := by
      have hless : (heap.lock r).world.unopened (heap.lock r).locked < n :=
        Nat.lt_of_lt_of_le (World.unopened_lt ho hr) (Nat.le_of_lt_succ hn)
      exact ofValue_text (ih hless) v
    cases ho : heap.world.object? r with
    | none => rw [World.describe_none ho]; rfl
    | some o =>
      cases o with
      | list items =>
        rw [World.describe_list ho]
        by_cases hr : r ∈ heap.locked
        · rw [if_pos hr]
          exact underLock_held hr
        · rw [if_neg hr]
          refine underLock_free hr ?_
          rw [bind_some (mapM_texts fun v _ => helement hr ho v)]
          rfl
      | map entries =>
        rw [World.describe_map ho]
        by_cases hr : r ∈ heap.locked
        · rw [if_pos hr]
          exact underLock_held hr
        · rw [if_neg hr]
          refine underLock_free hr ?_
          have hentry (entry : String × Value) :
              (do return entry.1 ++ ": " ++ (← ofValue (ofObject n) entry.2) : Rendering P)
                  (heap.lock r) =
                some (entry.1 ++ ": " ++ entry.2.text (heap.world.describe (r :: heap.locked)),
                  heap.lock r) := by
            rw [bind_some (helement hr ho entry.2)]
            rfl
          rw [bind_some (mapM_texts fun entry _ => hentry entry)]
          rfl
      | package | function | foreign => rw [World.describe_other ho rfl]; rfl

end Rendering

/-- What carries the containers that are open by steps down is the reference, if there
are steps enough. -/
theorem World.describeWithin_enough {w : World P} {n : Nat} {opened : List Address}
    (hn : w.unopened opened < n) : w.describeWithin n opened = w.describe opened := by
  induction n generalizing opened with
  | zero => exact absurd hn (Nat.not_lt_zero _)
  | succ n ih =>
    funext r
    rw [describeWithin]
    have hinner (hr : r ∉ opened) {o : Object P} (ho : w.object? r = some o) :
        w.describeWithin n (r :: opened) = w.describe (r :: opened) := by
      have hless := unopened_lt ho hr
      exact ih (by omega)
    cases ho : w.object? r with
    | none => rw [describe_none ho]
    | some o =>
      cases o with
      | list items =>
        rw [describe_list ho]
        by_cases hr : r ∈ opened
        · simp [Object.abbreviation?, hr]
        · simp [Object.abbreviation?, Object.text, hr, hinner hr ho]
      | map entries =>
        rw [describe_map ho]
        by_cases hr : r ∈ opened
        · simp [Object.abbreviation?, hr]
        · simp [Object.abbreviation?, Object.text, hr, hinner hr ho]
      | package | function | foreign => rw [describe_other ho rfl]; rfl

theorem World.unopened_le (w : World P) (opened : List Address) :
    w.unopened opened ≤ w.objects.size := by
  simpa [unopened] using Finset.card_filter_le (Finset.range w.objects.size) fun r => r ∉ opened

/-- In any heap, whatever refers to what and whichever containers are locked, the text of a value is
there after no more steps down than there are objects that are not locked, and one. Heap and locks
are left as they were. The text is the reference, in which a container is abbreviated exactly if it
is open above itself, or was locked from the start; and it is what scripts and messages show. -/
theorem rendering_ends (heap : Heap P) (v : Value) :
    (∀ n, heap.world.unopened heap.locked < n →
      Rendering.ofValue (Rendering.ofObject n) v heap =
        some (v.text (heap.world.describe heap.locked), heap)) ∧
      (heap.world.viewWithin heap.locked).text v = v.text (heap.world.describe heap.locked) := by
  constructor
  · intro n hn
    exact Rendering.ofValue_text (Rendering.ofObject_text hn) v
  · rw [View.text, World.viewWithin,
      World.describeWithin_enough (Nat.lt_succ_of_le (heap.world.unopened_le heap.locked))]

/-- A list that holds another one twice, and itself under a name. -/
example : (Rendering.ofValue (Rendering.ofObject 3) (.ref 0)
    (⟨⟨#[.list #[.ref 1, .ref 1, .pair "self" (.ref 0)], .list #[.nil]], []⟩, []⟩ :
      Heap Workbench.platform)).map (·.1) = some "[[nil], [nil], self: [...]]" := by rfl

end HostScript
