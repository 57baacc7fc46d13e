import HostScript.Proofs.Exec.Discipline
import HostScript.Proofs.Object.Resources
import HostScript.Workbench.Scripts

/-!
# Resources nest

What a run sets up it closes, inner resources before outer ones, whatever happens in between
(`enter_nests`). A resource that has not been set up is not closed. An object that is no resource
any more when its turn comes cannot be closed; with a steadfast host there is none.
-/

namespace HostScript

variable {P : Platform} {α β : Type}

-- ---------------------------------------------------------------------------
-- The order of events
-- ---------------------------------------------------------------------------

/-- The resources that are open after an event, the latest first, given those before it. Only the
latest can be closed. -/
def Event.settle : Event P → List Address → Option (List Address)
  | .created r, opened => some (r :: opened)
  | .closed r, s :: opened | .lapsed r, s :: opened => if r = s then some opened else none
  | .closed _, [] | .lapsed _, [] => none
  | _, opened => some opened

/-- The resources that are open after the events of a journal, unless one was closed that was not
the latest. -/
def unclosed (opened : List Address) (journal : List (Event P)) : Option (List Address) :=
  journal.foldrM Event.settle opened

def Event.created? : Event P → Option Address
  | .created r => some r
  | _ => none

def Event.closed? : Event P → Option Address
  | .closed r => some r
  | _ => none

def Event.IsPlain (e : Event P) : Prop :=
  (∀ opened, e.settle opened = some opened) ∧ ∀ r, e ≠ .lapsed r

structure Nests (H : Host P) (events : List (Event P)) : Prop where
  settled : ∀ opened, unclosed opened events = some opened
  kept : H.Steadfast → ∀ r, .lapsed r ∉ events

namespace Nests

variable {H : Host P} {events events' : List (Event P)}

theorem nil : Nests H [] := ⟨fun _ => rfl, fun _ _ => nofun⟩

theorem append (h : Nests H events) (h' : Nests H events') : Nests H (events' ++ events) := by
  refine ⟨fun opened => ?_, fun hH r hr => ?_⟩
  · rw [unclosed, List.foldrM_append]
    change (unclosed opened events >>= fun opened => unclosed opened events') = some opened
    rw [h.settled opened]
    exact h'.settled opened
  · rcases List.mem_append.mp hr with hr | hr
    · exact h'.kept hH r hr
    · exact h.kept hH r hr

theorem plain {e : Event P} (h : e.IsPlain) : Nests H [e] := by
  refine ⟨fun opened => ?_, fun _ r hr => h.2 r (List.mem_singleton.mp hr).symm⟩
  rw [unclosed, List.foldrM_cons, List.foldrM_nil]
  exact h.1 opened

theorem plains (h : ∀ e ∈ events, e.IsPlain) : Nests H events := by
  induction events with
  | nil => exact nil
  | cons e events ih =>
    have hrest := ih fun e' he => h e' (List.mem_cons_of_mem e he)
    exact hrest.append (plain (h e List.mem_cons_self))

theorem enclose {e : Event P} {r : Address} (h : Nests H events)
    (he : e = .closed r ∨ e = .lapsed r ∧ ¬ H.Steadfast) :
    Nests H (e :: (events ++ [.created r])) := by
  refine ⟨fun opened => ?_, fun hH r' hr => ?_⟩
  · have hinner : unclosed opened (events ++ [.created r]) = some (r :: opened) := by
      rw [unclosed, List.foldrM_append]
      exact h.settled (r :: opened)
    rw [unclosed, List.foldrM_cons]
    change (unclosed opened (events ++ [.created r]) >>= e.settle) = some opened
    rw [hinner]
    rcases he with rfl | ⟨rfl, -⟩ <;> exact if_pos rfl
  · rcases List.mem_cons.mp hr with rfl | hr
    · rcases he with he | ⟨-, he⟩
      · cases he
      · exact he hH
    · rcases List.mem_append.mp hr with hr | hr
      · exact h.kept hH r' hr
      · cases List.mem_singleton.mp hr

end Nests

-- ---------------------------------------------------------------------------
-- Machines
-- ---------------------------------------------------------------------------

structure Nested (H : Host P) (m m' : Machine P) : Prop where
  journal : ∃ events, m'.journal = events ++ m.journal ∧ Nests H events
  world : H.Steadfast → H.KeepsResources m.world m'.world

namespace Nested

variable {H : Host P} {m m' m'' : Machine P}

theorem refl (m : Machine P) : Nested H m m :=
  ⟨⟨[], rfl, .nil⟩, fun _ => .refl m.world⟩

theorem trans (h : Nested H m m') (h' : Nested H m' m'') : Nested H m m'' := by
  obtain ⟨events, hj, hnests⟩ := h.journal
  obtain ⟨events', hj', hnests'⟩ := h'.journal
  refine ⟨⟨events' ++ events, ?_, hnests.append hnests'⟩,
    fun hH => (h.world hH).trans (h'.world hH)⟩
  rw [hj', hj, List.append_assoc]

instance : IsPreorder (Machine P) (Nested H) where
  refl := refl
  trans _ _ _ := trans

theorem silent (hj : m'.journal = m.journal) (hw : m'.world = m.world) : Nested H m m' :=
  ⟨⟨[], hj, .nil⟩, fun _ => hw ▸ .refl _⟩

theorem step {e : Event P} (he : e.IsPlain) (hj : m'.journal = e :: m.journal)
    (hw : m'.world = m.world) : Nested H m m' :=
  ⟨⟨[e], hj, .plain he⟩, fun _ => hw ▸ .refl _⟩

end Nested

namespace Exec

variable {prog : Program P} {H : Host P}

theorem nested_act {x : Act P α} (hx : prog.host.Offers x) :
    Leads (Nested prog.host) (act x) := by
  intro m
  have hw (hH : prog.host.Steadfast) : prog.host.KeepsResources m.world (x m.world).2 :=
    hx.steady hH m.world
  unfold act
  rcases hm : x m.world with ⟨e | a, w⟩ <;> rw [hm] at hw
  · exact ⟨⟨[.faulted e], rfl, .plain ⟨fun _ => rfl, nofun⟩⟩, hw⟩
  · exact ⟨⟨[], rfl, .nil⟩, hw⟩

theorem nested_advance (cursor : Cursor) :
    Leads (Nested prog.host) (Evaluator.advance prog cursor) := by
  intro m
  refine (nested_act (.next cursor) m).trans ⟨⟨_, rfl, .plains fun e he => ?_⟩,
    fun _ => .refl _⟩
  rcases Evaluator.heard_cases he with ⟨object, key, v, rfl⟩ | ⟨object, rfl⟩
  · exact ⟨fun _ => rfl, nofun⟩
  · exact ⟨fun _ => rfl, nofun⟩

theorem nested_withScope {x : Exec P α} (h : Leads (Nested H) x) :
    Leads (Nested H) (withScope x) := by
  intro m
  have hentered : Nested H m m.enterBlock := .silent rfl rfl
  refine (hentered.trans (h m.enterBlock)).trans ?_
  exact .step (e := .leftBlock _) ⟨fun _ => rfl, nofun⟩ rfl rfl

theorem nested_withFunction {f : Declaration} {site : Option Position} {x : Exec P α}
    (h : Leads (Nested H) x) : Leads (Nested H) (withFunction f site x) := by
  intro m
  cases hc : m.calls.push ⟨f.name, site⟩ with
  | error e =>
    rw [withFunction_refused hc]
    exact .step (e := .refused f) ⟨fun _ => rfl, nofun⟩ rfl rfl
  | ok calls =>
    rw [withFunction_entered hc]
    have hentered : Nested H m (m.enterCall f calls) :=
      .step (e := .entered f m.current calls.frames) ⟨fun _ => rfl, nofun⟩ rfl rfl
    refine (hentered.trans (h _)).trans ?_
    exact .step (e := .left f _ _ _) ⟨fun _ => rfl, nofun⟩ rfl rfl

theorem close_notes (prog : Program P) (r : Address) (m : Machine P) :
    ∃ events e, (Evaluator.close prog r m).2.journal = events ++ e :: m.journal ∧
      Nests prog.host events ∧
      (e = .closed r ∨ e = .lapsed r ∧ prog.host.resourceOf? m.world r = none) ∧
      (prog.host.Steadfast →
        prog.host.KeepsResources m.world (Evaluator.close prog r m).2.world) := by
  cases h : prog.host.resourceOf? m.world r with
  | none =>
    rw [Evaluator.close_lapsed h]
    exact ⟨[], .lapsed r, rfl, .nil, .inr ⟨rfl, rfl⟩, fun _ => .refl _⟩
  | some resource =>
    rw [Evaluator.close_resource h]
    obtain ⟨⟨events, hj, hnests⟩, hw⟩ := nested_act (.close h) (m.noted (.closed r))
    exact ⟨events, .closed r, hj, hnests, .inl rfl, hw⟩

theorem nested_closing {r : Address} {body : Exec P Signal} {m : Machine P}
    (h : Leads (Nested prog.host) body)
    (hr : prog.host.Steadfast → (prog.host.resourceOf? m.world r).isSome) :
    Nested prog.host m (body.andThen (Evaluator.close prog r) (m.noted (.created r))).2 := by
  rw [andThen_apply]
  obtain ⟨⟨inner, hj, hnests⟩, hw⟩ := h (m.noted (.created r))
  obtain ⟨last, e, hj', hlast, he, hw'⟩ := close_notes prog r (body (m.noted (.created r))).2
  refine ⟨⟨last ++ e :: (inner ++ [.created r]), ?_, ?_⟩, fun hH => (hw hH).trans (hw' hH)⟩
  · rw [hj', hj]
    simp [Machine.noted]
  -- It lapses only if it is no resource now, and a steadfast host has kept it one.
  · refine (hnests.enclose (he.imp_right fun ⟨he, hnone⟩ => ⟨he, fun hH => ?_⟩)).append
      hlast
    have hsome := hw hH r (hr hH)
    rw [hnone] at hsome
    cases hsome

theorem nested_holding {p : Position} {v : Option Value} {body : Exec P Signal}
    (h : Leads (Nested prog.host) body) : Leads (Nested prog.host) (holding prog p v body) := by
  intro m
  cases hv : v.bind Value.address? with
  | none =>
    rw [holding, bind_ok (Evaluator.acquire_plain hv)]
    exact h m
  | some r =>
    cases hr : prog.host.resourceOf? m.world r with
    | none =>
      rw [holding, bind_ok (Evaluator.acquire_other hv hr)]
      exact h m
    | some resource =>
      have hcreate := nested_act (.create hr) m
      rcases hm : act resource.create m with ⟨halt | ⟨⟩, m'⟩ <;> rw [hm] at hcreate
      · obtain ⟨halt', hfails⟩ := Evaluator.acquire_fails (p := p) hv hr hm
        rw [holding, bind_error hfails]
        exact hcreate
      · rw [holding, bind_ok (Evaluator.acquire_resource hv hr hm)]
        refine hcreate.trans (nested_closing h fun hH => ?_)
        exact hcreate.world hH r (by rw [hr]; rfl)

end Exec

theorem nested_conserved (prog : Program P) : Conserved prog (Nested prog.host) where
  operands _ _ := .silent rfl rfl
  act h := Exec.nested_act (.serves h)
  invoked {_ f _ args} _ _ := .step (e := .invoked f args) ⟨fun _ => rfl, nofun⟩ rfl rfl
  advance := Exec.nested_advance
  define _ _ _ := .silent rfl rfl
  store _ _ _ := .silent rfl rfl
  withScope := Exec.nested_withScope
  withFunction := Exec.nested_withFunction
  holding := Exec.nested_holding

/-- Whatever a host asks for and however it ends: if a resource is open, only the latest one is ever
closed, and in the end none is open. With a steadfast host, each one is closed as the resource that
it is. -/
theorem enter_nests (prog : Program P) (fuel : Nat) (entry : Entry) (m : Machine P) :
    ∃ events, (prog.enter fuel entry m).2.journal = events ++ m.journal ∧
      unclosed [] events = some [] ∧
      (prog.host.Steadfast → ∀ r, .lapsed r ∉ events) := by
  obtain ⟨events, hj, hnests⟩ := ((nested_conserved prog).discipline.enter fuel entry m).journal
  exact ⟨events, hj, hnests.settled [], hnests.kept⟩

namespace Workbench

def tryBoth : Stmt :=
  ⟨.tryBlock [variableNamed "outer", variableNamed "inner"] [] none none, ⟨"main", 1, 1⟩⟩

/-- That the inner resource fails to close does not keep the outer one from being
closed after it. -/
theorem tryBoth_nests : ∃ events,
    (bare.enter 3 (.execute tryBoth) supplied).2.journal = events ++ [] ∧
      unclosed [] events = some [] ∧ (∀ r, .lapsed r ∉ events) ∧
      events.filterMap Event.created? = [1, 0] ∧ events.filterMap Event.closed? = [0, 1] := by
  obtain ⟨events, hj, hsettled, hkept⟩ := enter_nests bare 3 (.execute tryBoth) supplied
  have hevents : events = (bare.enter 3 (.execute tryBoth) supplied).2.journal := by
    rw [hj]
    exact (List.append_nil events).symm
  refine ⟨events, hj, hsettled, hkept host_steadfast, ?_, ?_⟩
  · rw [hevents]
    decide +kernel
  · rw [hevents]
    decide +kernel

end Workbench

end HostScript
