import HostScript.Proofs.Exec.Discipline
import HostScript.Proofs.Object.Changes

/-!
# What the journal says of the world

A `Chronicle` ties what a run notes to what becomes of the world meanwhile. It has to fit what each
act does and what is noted of it; then it fits whatever a host asks for (`Chronicle.enter`), and the
body of every block (`Chronicle.block`).
-/

namespace HostScript

variable {P : Platform} {α : Type}

def Event.IsIncidental : Event P → Prop
  | .invoked .. | .delivered .. => False
  | _ => True

theorem Event.OfResource.isIncidental {e : Event P} (h : e.OfResource) : e.IsIncidental := by
  cases e <;> first | exact h.elim | trivial

/-- Which events, the latest first, can be noted while one world becomes another. -/
structure Chronicle (prog : Program P) where
  tells : World P → List (Event P) → World P → Prop
  nothing (w : World P) : tells w [] w
  append {w w' w'' : World P} {first later : List (Event P)} :
    tells w first w' → tells w' later w'' → tells w (later ++ first) w''
  incident {e : Event P} (w : World P) : e.IsIncidental → tells w [e] w
  invoked {f : Callable P} {view : View} {given args : List Value} (w : World P) :
    f.signature.bind view given = .ok args → tells w [.invoked f args] w
  act {α : Type} {x : Act P α} (w : World P) : prog.host.Serves x → tells w [] (x w).2
  create {w : World P} {r : Address} {resource : Resource P} (w' : World P) :
    prog.host.resourceOf? w r = some resource → tells w' [] (resource.create w').2
  close {w : World P} {r : Address} {resource : Resource P} (w' : World P) :
    prog.host.resourceOf? w r = some resource → tells w' [] (resource.close w').2
  next (cursor : Cursor) (w : World P) :
    tells w (Evaluator.heard cursor ((cursor.next? prog.host w).1.mapError .failed))
      (cursor.next? prog.host w).2

namespace Chronicle

variable {prog : Program P} (C : Chronicle prog)

def Told (m m' : Machine P) : Prop :=
  ∃ events, m'.journal = events ++ m.journal ∧ C.tells m.world events m'.world

variable {C} {m m' m'' : Machine P}

theorem told_silent (hj : m'.journal = m.journal) (hw : m'.world = m.world) : C.Told m m' :=
  ⟨[], hj, hw ▸ C.nothing m.world⟩

theorem told_incident {e : Event P} (he : e.IsIncidental) (hj : m'.journal = e :: m.journal)
    (hw : m'.world = m.world) : C.Told m m' :=
  ⟨[e], hj, hw ▸ C.incident m.world he⟩

theorem Told.trans (h : C.Told m m') (h' : C.Told m' m'') : C.Told m m'' := by
  obtain ⟨first, hj, htold⟩ := h
  obtain ⟨later, hj', htold'⟩ := h'
  exact ⟨later ++ first, by rw [hj', hj, List.append_assoc], C.append htold htold'⟩

instance : IsPreorder (Machine P) C.Told where
  refl _ := told_silent rfl rfl
  trans _ _ _ := Told.trans

theorem told_act {x : Act P α} (hx : ∀ w, C.tells w [] (x w).2) :
    Exec.Leads C.Told (Exec.act x) := by
  intro m
  have hworld := hx m.world
  unfold Exec.act
  rcases hm : x m.world with ⟨e | a, w⟩ <;> rw [hm] at hworld
  · exact ⟨[.faulted e], rfl, C.append hworld (C.incident (e := .faulted e) w trivial)⟩
  · exact ⟨[], rfl, hworld⟩

theorem told_advance (cursor : Cursor) : Exec.Leads C.Told (Evaluator.advance prog cursor) := by
  intro m
  have hnext := C.next cursor m.world
  unfold Evaluator.advance Exec.noting Exec.act
  rcases hm : cursor.next? prog.host m.world with ⟨e | next, w⟩ <;> rw [hm] at hnext
  · have hfaulted : C.tells m.world [.faulted e] m.world := C.incident m.world trivial
    refine ⟨_, ?_, C.append hfaulted hnext⟩
    simp [Except.mapError]
  · exact ⟨_, rfl, hnext⟩

theorem told_withScope {x : Exec P α} (h : Exec.Leads C.Told x) :
    Exec.Leads C.Told (Exec.withScope x) := by
  intro m
  have hentered : C.Told m m.enterBlock := told_silent rfl rfl
  exact (hentered.trans (h m.enterBlock)).trans (told_incident (e := .leftBlock _) trivial rfl rfl)

theorem told_withFunction {f : Declaration} {site : Option Position} {x : Exec P α}
    (h : Exec.Leads C.Told x) : Exec.Leads C.Told (Exec.withFunction f site x) := by
  intro m
  cases hc : m.calls.push ⟨f.name, site⟩ with
  | error e =>
    rw [Exec.withFunction_refused hc]
    exact told_incident (e := .refused f) trivial rfl rfl
  | ok calls =>
    rw [Exec.withFunction_entered hc]
    have hentered : C.Told m (m.enterCall f calls) :=
      told_incident (e := .entered f m.current calls.frames) trivial rfl rfl
    exact (hentered.trans (h _)).trans (told_incident (e := .left f _ _ _) trivial rfl rfl)

theorem housekeeping (C : Chronicle prog) : Housekeeping prog (Exec.Leads C.Told) where
  pure _ m := refl_of C.Told m
  bind := .bind
  world m := refl_of C.Told m
  create h := told_act fun w => C.create w h
  release h := told_act fun w => C.close w h
  note h _ := told_incident h.isIncidental rfl rfl
  located _ := .mapFailure
  andThen := .andThen

theorem conserved (C : Chronicle prog) : Conserved prog C.Told where
  operands _ _ := told_silent rfl rfl
  act h := told_act fun w => C.act w h
  invoked h m := ⟨_, rfl, C.invoked m.world h⟩
  advance := told_advance
  define _ _ _ := told_silent rfl rfl
  store _ _ _ := told_silent rfl rfl
  withScope := told_withScope
  withFunction := told_withFunction
  holding := C.housekeeping.holding trivial

theorem enter (C : Chronicle prog) (fuel : Nat) (entry : Entry) :
    Exec.Leads C.Told (prog.enter fuel entry) :=
  C.conserved.discipline.enter fuel entry

theorem block (C : Chronicle prog) (fuel : Nat) (body : List Stmt) :
    Exec.Leads C.Told ((prog.evaluator fuel).block body) :=
  C.conserved.discipline.regime.block (C.conserved.discipline.parts fuel) (List.Subset.refl _)

end Chronicle

end HostScript
