import HostScript.Proofs.Exec.Operands
import HostScript.Proofs.Names.Scopes

/-!
# What a run sets up it takes down

Blocks, calls and evaluations on a stack of their own change the scopes, the calls in progress, the
function that runs and the operands for as long as they last. `enter_restores`: whatever a host asks
for and however that ends, all of these are afterwards what they were, and nothing was taken down on
the way that the run had not set up itself.
-/

namespace HostScript

variable {P : Platform} {α : Type}

def Event.callsLeft? : Event P → Option (List Frame)
  | .left _ calls _ _ => some calls
  | _ => none

def Event.scopesLeft? : Event P → Option (List Handle)
  | .left _ _ stack _ | .leftBlock stack => some stack
  | _ => none

structure Event.EndsNew (m : Machine P) (e : Event P) : Prop where
  calls : ∀ calls, e.callsLeft? = some calls → m.calls.frames <:+ calls.tail ∧ calls ≠ []
  scopes : ∀ stack, e.scopesLeft? = some stack → m.scopes.Above stack

theorem Event.EndsNew.frame {m : Machine P} {e : Event P} (h : e.EndsNew m) {calls : List Frame}
    (hc : e.callsLeft? = some calls) :
    ∃ frame below, calls = frame :: below ∧ m.calls.frames <:+ below := by
  obtain ⟨hsuffix, hne⟩ := h.calls calls hc
  cases calls with
  | nil => exact absurd rfl hne
  | cons frame below => exact ⟨frame, below, rfl, hsuffix⟩

theorem Event.EndsNew.scope {m : Machine P} {e : Event P} (h : e.EndsNew m) {stack : List Handle}
    (hs : e.scopesLeft? = some stack) :
    ∃ top below, stack = top :: below ∧ top ≠ Scopes.global ∧ m.scopes.stack <:+ below :=
  (h.scopes stack hs).not_global

theorem Event.IsMark.endsNew {m : Machine P} {e : Event P} (h : e.IsMark) : e.EndsNew m := by
  cases e <;> first | exact h.elim | exact ⟨nofun, nofun⟩

/-- How a machine is left by what takes down all that it sets up, operands apart. -/
structure Restored (m m' : Machine P) : Prop where
  scopes : m.scopes.SameShape m'.scopes
  calls : m'.calls = m.calls
  current : m'.current = m.current
  journal : ∃ events, m'.journal = events ++ m.journal ∧ ∀ e ∈ events, e.EndsNew m

namespace Restored

variable {m m' m'' : Machine P}

theorem endsNew {e : Event P} (h : Restored m m') (he : e.EndsNew m') : e.EndsNew m :=
  ⟨fun calls hc => h.calls ▸ he.calls calls hc,
    fun stack hs => (he.scopes stack hs).congr h.scopes⟩

theorem refl (m : Machine P) : Restored m m :=
  ⟨.refl _, rfl, rfl, [], rfl, List.forall_mem_nil _⟩

theorem trans (h : Restored m m') (h' : Restored m' m'') : Restored m m'' := by
  obtain ⟨events, hj, hnew⟩ := h.journal
  obtain ⟨events', hj', hnew'⟩ := h'.journal
  refine ⟨h.scopes.trans h'.scopes, h'.calls.trans h.calls, h'.current.trans h.current,
    events' ++ events, by rw [hj', hj, List.append_assoc], fun e he => ?_⟩
  rcases List.mem_append.mp he with he | he
  · exact h.endsNew (hnew' e he)
  · exact hnew e he

theorem of_marked (h : m.Marked m') : Restored m m' := by
  obtain ⟨hscopes, hcalls, hcurrent, events, hj, hmarks⟩ := h
  exact ⟨hscopes, hcalls, hcurrent, events, hj, fun e he => (hmarks e he).endsNew⟩

theorem block (h : Restored m.enterBlock m') : Restored m m'.leaveBlock := by
  obtain ⟨events, hj, hnew⟩ := h.journal
  refine ⟨.pop_pushBelow m.scopes.current_lt h.scopes, h.calls, h.current,
    .leftBlock m'.scopes.stack :: events, congrArg (_ :: ·) hj, fun e he => ?_⟩
  rcases List.mem_cons.mp he with rfl | he
  · refine ⟨nofun, fun stack hs => ?_⟩
    cases hs
    exact .pushed m.scopes.current_lt h.scopes
  · exact ⟨(hnew e he).calls, fun stack hs =>
      ((hnew e he).scopes stack hs).of_pushBelow m.scopes.current_lt⟩

theorem call {f : Declaration} {frame : Frame} {calls : Calls} {failure : Option Failure}
    (hc : m.calls.push frame = .ok calls) (h : Restored (m.enterCall f calls) m') :
    Restored m (m'.leaveCall f m.current failure) := by
  obtain ⟨events, hj, hnew⟩ := h.journal
  obtain ⟨hframes, hpop⟩ := Calls.push_pops hc
  have hcalls : m'.calls = calls := h.calls
  refine ⟨.pop_pushBelow m.scopes.global_lt h.scopes, (congrArg Calls.pop hcalls).trans hpop, rfl,
    .left f m'.calls.frames m'.scopes.stack failure ::
      (events ++ [.entered f m.current calls.frames]), ?_, fun e he => ?_⟩
  · rw [List.cons_append, List.append_assoc]
    exact congrArg (_ :: ·) hj
  · rcases List.mem_cons.mp he with rfl | he
    · refine ⟨fun frames hl => ?_, fun stack hs => ?_⟩
      · cases hl
        rw [hcalls, hframes]
        -- The call that ends is the one that was pushed here.
        exact ⟨List.suffix_rfl, nofun⟩
      · cases hs
        exact .pushed m.scopes.global_lt h.scopes
    · rcases List.mem_append.mp he with he | he
      · refine ⟨fun frames hl => ?_, fun stack hs => ?_⟩
        · obtain ⟨hsuffix, hne⟩ := (hnew e he).calls frames hl
          refine ⟨List.IsSuffix.trans ?_ hsuffix, hne⟩
          exact hframes ▸ List.suffix_cons frame m.calls.frames
        · exact ((hnew e he).scopes stack hs).of_pushBelow m.scopes.global_lt
      · cases List.mem_singleton.mp he
        exact ⟨nofun, nofun⟩

end Restored

instance : IsPreorder (Machine P) Restored where
  refl := Restored.refl
  trans _ _ _ := Restored.trans

namespace Exec

theorem restored_withScope {x : Exec P α} (h : Leads Restored x) : Leads Restored (withScope x) :=
  fun m => (h m.enterBlock).block

theorem restored_withFunction {f : Declaration} {site : Option Position} {x : Exec P α}
    (h : Leads Restored x) : Leads Restored (withFunction f site x) := by
  intro m
  cases hc : m.calls.push ⟨f.name, site⟩ with
  | error e =>
    rw [withFunction_refused hc]
    refine ⟨.refl _, rfl, rfl, [.refused f], rfl, fun e he => ?_⟩
    cases List.mem_singleton.mp he
    exact ⟨nofun, nofun⟩
  | ok calls =>
    rw [withFunction_entered hc]
    exact (h (m.enterCall f calls)).call hc

end Exec

theorem restored_conserved (prog : Program P) : Conserved prog Restored :=
  .of_marked (fun _ _ => .of_marked) Exec.restored_withScope Exec.restored_withFunction

/-- Whatever a host asks for and however it ends, a script error, a call too many and a failing host
included, the scopes, the operands, the calls in progress and the function that runs are as before.
A call was only ever taken off calls that the run had added to, and a scope off a stack on which one
of the run's own stood above the global one. -/
theorem enter_restores (prog : Program P) (fuel : Nat) (entry : Entry) (m : Machine P) :
    (prog.enter fuel entry m).2.scopes.stack = m.scopes.stack ∧
      (prog.enter fuel entry m).2.scopes.parents = m.scopes.parents ∧
      (prog.enter fuel entry m).2.operands = m.operands ∧
      (prog.enter fuel entry m).2.calls = m.calls ∧
      (prog.enter fuel entry m).2.current = m.current ∧
      ∃ events, (prog.enter fuel entry m).2.journal = events ++ m.journal ∧ ∀ e ∈ events,
        (∀ calls, e.callsLeft? = some calls →
          ∃ frame below, calls = frame :: below ∧ m.calls.frames <:+ below) ∧
        ∀ stack, e.scopesLeft? = some stack →
          ∃ top below, stack = top :: below ∧ top ≠ Scopes.global ∧
            m.scopes.stack <:+ below := by
  have h := (restored_conserved prog).discipline.enter fuel entry m
  have hoperands := ((framing prog).enter fuel entry).operands m
  obtain ⟨events, hj, hnew⟩ := h.journal
  refine ⟨h.scopes.stack, h.scopes.parents, hoperands, h.calls, h.current, events, hj,
    fun e he => ?_⟩
  exact ⟨fun _ hc => (hnew e he).frame hc, fun _ hs => (hnew e he).scope hs⟩

end HostScript
