import HostScript.Proofs.Exec.Discipline
import HostScript.Workbench.Scripts

/-!
# Backtraces

A failure gets a backtrace where it leaves the innermost body of a function: the calls that are in
progress there, each of which stands in the body of the function that the next one is of. It has its
position by then, that of a node in that body, and further out neither changes (`enter_backtrace`).
A call that fails before its function begins to run is no part of it.
-/

namespace HostScript

variable {P : Platform} {prog : Program P} {α β : Type}

-- ---------------------------------------------------------------------------
-- Functions that run
-- ---------------------------------------------------------------------------

def Event.calling : Event P → List Declaration → List Declaration
  | .entered f _ _, fs => f :: fs
  | .left .., fs => fs.tail
  | _, fs => fs

/-- The functions that run after the events of a journal, given those before. -/
def running (fs : List Declaration) (journal : List (Event P)) : List Declaration :=
  journal.foldr Event.calling fs

theorem running_left {f : Declaration} {frames : List Frame} {scopes : List Handle}
    {failure : Option Failure} (fs : List Declaration) (earlier : List (Event P)) :
    running fs (.left f frames scopes failure :: earlier) = (running fs earlier).tail := rfl

theorem running_append (fs : List Declaration) (later earlier : List (Event P)) :
    running fs (later ++ earlier) = running (running fs earlier) later :=
  List.foldr_append

def Event.IsAside : Event P → Prop
  | .entered .. | .left .. => False
  | _ => True

theorem Event.IsMark.isAside {e : Event P} (h : e.IsMark) : e.IsAside := by
  cases e <;> first | exact h.elim | trivial

theorem running_aside {events : List (Event P)} (h : ∀ e ∈ events, e.IsAside)
    (fs : List Declaration) : running fs events = fs := by
  induction events with
  | nil => rfl
  | cons e events ih =>
    obtain ⟨he, hrest⟩ := List.forall_mem_cons.mp h
    rw [running, List.foldr_cons, ← running, ih hrest]
    cases e <;> first | exact he.elim | rfl

/-- What stands in the code that runs when these functions do: in the body of the innermost, or
outside of all in the code given. -/
def innermost (code : List Site) : List Declaration → List Site
  | [] => code
  | f :: _ => f.sites

/-- Frames that are the calls of functions, the innermost first. Each call stands in the body of the
next function, and the outermost in the code given. -/
inductive Stacked (prog : Program P) (code : List Site) :
    List Declaration → List Frame → Prop where
  | nil : Stacked prog code [] []
  | cons {f : Declaration} {outer : List Declaration} {site : Option Position}
      {frames : List Frame} : prog.CallSite (innermost code outer) f site →
      Stacked prog code outer frames →
        Stacked prog code (f :: outer) (⟨f.name, site⟩ :: frames)

-- ---------------------------------------------------------------------------
-- Failures on their way out
-- ---------------------------------------------------------------------------

theorem Failure.locate_placed (e : Failure) {p q : Position} (h : e.position = some q) :
    e.locate p = e := by
  obtain ⟨cause, position, backtrace⟩ := e
  cases h
  rfl

theorem Calls.attach_traced (calls : Calls) {e : Failure} {frames : List Frame}
    (h : e.backtrace = some frames) : calls.attach e = e := by
  obtain ⟨cause, position, backtrace⟩ := e
  cases h
  exact ite_self _

theorem Calls.attach_untraced (calls : Calls) {e : Failure} (hcalls : calls.frames ≠ [])
    (h : e.backtrace = none) : (calls.attach e).backtrace = some calls.frames := by
  have hsome : ¬ calls.frames.isEmpty := by simpa using hcalls
  rw [attach, if_neg hsome, Failure.through, h]
  rfl

theorem Calls.attach_position (calls : Calls) (e : Failure) :
    (calls.attach e).position = e.position := by
  unfold attach
  split <;> rfl

/-- During these events a failure has left the body of a function, the innermost of those that ran.
The calls in progress were the frames given, and it stood at a node of that body. -/
def Escapes (prog : Program P) (code : List Site) (fs : List Declaration)
    (events : List (Event P)) (e : Failure) (frames : List Frame) : Prop :=
  ∃ later f outer scopes earlier, events = later ++ .left f frames scopes (some e) :: earlier ∧
    running fs earlier = f :: outer ∧ Stacked prog code (f :: outer) frames ∧
    ∃ p, e.position = some p ∧ .node p ∈ f.sites

/-- During these events a failure has left the bodies of all functions whose calls are among the
frames given, up to those calls that were in progress before. -/
def Unwinds (calls : List Frame) (events : List (Event P)) (e : Failure)
    (frames : List Frame) : Prop :=
  ∀ inner, inner <:+ frames → calls.length < inner.length →
    ∃ f scopes, .left f inner scopes (some e) ∈ events

/-- A failure has not left any function yet, and stands nowhere or in the code that runs; or its
backtrace is what calls were in progress when it left the innermost one, on top of those given. -/
inductive Origin (prog : Program P) (code : List Site) (fs : List Declaration) (calls : List Frame)
    (events : List (Event P)) (e : Failure) : Prop where
  | here (hb : e.backtrace = none)
    (hp : ∀ p, e.position = some p → .node p ∈ innermost code fs)
  | inner {frames : List Frame} (hb : e.backtrace = some frames) (hcalls : calls <:+ frames)
      (h : Escapes prog code fs events e frames) (hall : Unwinds calls events e frames)

def Event.Traces : Event P → Prop
  | .left _ frames _ (some e) => frames ≠ [] ∧ ∃ trace, e.backtrace = some trace ∧
    frames <:+ trace
  | _ => True

theorem Event.IsAside.traces {e : Event P} (h : e.IsAside) : e.Traces := by
  cases e <;> first | exact h.elim | trivial

/-- A machine is left with the same calls in progress, all functions that began are over, and the
failures that left them had backtraces. -/
structure Accounted (fs : List Declaration) (m m' : Machine P)
    (events : List (Event P)) : Prop where
  journal : m'.journal = events ++ m.journal
  calls : m'.calls = m.calls
  running : running fs events = fs
  traces : ∀ e ∈ events, e.Traces

theorem Unwinds.mono {calls frames : List Frame} {events events' : List (Event P)} {e : Failure}
    (h : Unwinds calls events e frames) (hevents : events ⊆ events') :
    Unwinds calls events' e frames := by
  intro inner hsuffix hlength
  obtain ⟨f, scopes, hleft⟩ := h inner hsuffix hlength
  exact ⟨f, scopes, hevents hleft⟩

namespace Origin

variable {code : List Site} {fs : List Declaration} {calls : List Frame}
  {events earlier later : List (Event P)} {e : Failure}

theorem bare (h : e.Bare) : Origin prog code fs calls events e :=
  .here h.backtrace (by simp [h.position])

theorem traced {frames : List Frame} (hb : e.backtrace = some frames)
    (h : Origin prog code fs calls events e) :
    Escapes prog code fs events e frames ∧ Unwinds calls events e frames := by
  obtain ⟨hnone, -⟩ | ⟨hsome, -, hescapes, hall⟩ := h
  · rw [hnone] at hb
    cases hb
  · obtain rfl := Option.some.inj (hsome.symm.trans hb)
    exact ⟨hescapes, hall⟩

theorem before (h : Origin prog code fs calls earlier e) :
    Origin prog code fs calls (later ++ earlier) e := by
  obtain ⟨hb, hp⟩ | ⟨hb, hcalls, ⟨last, f, outer, scopes, first, rfl, h⟩, hall⟩ := h
  · exact .here hb hp
  · exact .inner hb hcalls ⟨later ++ last, f, outer, scopes, first, by simp, h⟩
      (hall.mono (List.subset_append_right later _))

theorem after (hrunning : running fs earlier = fs) (h : Origin prog code fs calls later e) :
    Origin prog code fs calls (later ++ earlier) e := by
  obtain ⟨hb, hp⟩ | ⟨hb, hcalls,
    ⟨last, f, outer, scopes, first, rfl, hfirst, h⟩, hall⟩ := h
  · exact .here hb hp
  · refine .inner hb hcalls ⟨last, f, outer, scopes, first ++ earlier, by simp, ?_, h⟩
      (hall.mono (List.subset_append_left _ earlier))
    rw [running_append, hrunning, hfirst]

theorem locate {p : Position} (hp : .node p ∈ innermost code fs)
    (h : Origin prog code fs calls events e) : Origin prog code fs calls events (e.locate p) := by
  obtain ⟨hb, hhere⟩ | ⟨hb, hcalls, h, hall⟩ := h
  · refine .here hb fun q hq => ?_
    rcases hposition : e.position with _ | q'
    · simp only [Failure.locate, hposition, Option.none_or, Option.some.injEq] at hq
      exact hq ▸ hp
    · simp only [Failure.locate, hposition, Option.some_or, Option.some.injEq] at hq
      exact hhere q (hq ▸ hposition)
  · obtain ⟨_, _, _, _, _, _, _, _, q, hq, _⟩ := id h
    rw [e.locate_placed hq]
    exact .inner hb hcalls h hall

end Origin

namespace Accounted

variable {fs : List Declaration} {m m' m'' : Machine P} {events events' : List (Event P)}

theorem trans (h : Accounted fs m m' events) (h' : Accounted fs m' m'' events') :
    Accounted fs m m'' (events' ++ events) where
  journal := by rw [h'.journal, h.journal, List.append_assoc]
  calls := h'.calls.trans h.calls
  running := by rw [running_append, h.running, h'.running]
  traces e he := (List.mem_append.mp he).elim (h'.traces e) (h.traces e)

theorem aside (hj : m'.journal = events ++ m.journal) (hc : m'.calls = m.calls)
    (he : ∀ e ∈ events, e.IsAside) : Accounted fs m m' events :=
  ⟨hj, hc, running_aside he fs, fun e h => (he e h).traces⟩

end Accounted

namespace Exec

/-- Whatever failure a computation in a region of code ends with, it is accounted for where it comes
from, and so are those that have left functions meanwhile. -/
def Accounts (prog : Program P) (region : List Site) (x : Exec P α) : Prop :=
  ∀ code fs m, Stacked prog code fs m.calls.frames → innermost code fs = region →
    ∃ events, Accounted fs m (x m).2 events ∧
      ∀ e, (x m).1 = .error (.failed e) → Origin prog code fs m.calls.frames events e

namespace Accounts

variable {region : List Site} {x : Exec P α}

theorem aside (h : ∀ m, ∃ events, (x m).2.journal = events ++ m.journal ∧
    (x m).2.calls = m.calls ∧ (∀ e ∈ events, e.IsAside) ∧
    ∀ e, (x m).1 = .error (.failed e) → e.Bare) : Accounts prog region x := by
  intro code fs m _ _
  obtain ⟨events, hj, hc, he, hbare⟩ := h m
  exact ⟨events, .aside hj hc he, fun e hf => .bare (hbare e hf)⟩

theorem quiet (hj : ∀ m, (x m).2.journal = m.journal) (hc : ∀ m, (x m).2.calls = m.calls)
    (h : ∀ m e, (x m).1 = .error (.failed e) → e.Bare) : Accounts prog region x :=
  .aside fun m => ⟨[], hj m, hc m, List.forall_mem_nil _, h m⟩

theorem bind {f : α → Exec P β} (hx : Accounts prog region x)
    (hf : ∀ a, Accounts prog region (f a)) :
    Accounts prog region (x >>= f) := by
  intro code fs m hstacked hregion
  obtain ⟨events, ha, ho⟩ := hx code fs m hstacked hregion
  rcases bind_cases x f m with ⟨halt, m', hm, hb⟩ | ⟨a, m', hm, hb⟩ <;>
    rw [hm] at ha ho <;> rw [hb]
  · exact ⟨events, ha, fun e he => ho e (congrArg _ (Except.error.inj he))⟩
  · rw [← ha.calls] at hstacked ⊢
    obtain ⟨events', ha', ho'⟩ := hf a code fs m' hstacked hregion
    exact ⟨events' ++ events, ha.trans ha', fun e he => (ho' e he).after ha.running⟩

theorem located {p : Position} (hp : .node p ∈ region) (hx : Accounts prog region x) :
    Accounts prog region (x.located p) := by
  intro code fs m hstacked hregion
  obtain ⟨events, ha, ho⟩ := hx code fs m hstacked hregion
  refine ⟨events, ?_, fun e he => ?_⟩
  · rw [Exec.located, mapFailure_apply]
    exact ha
  · obtain ⟨e', he', rfl⟩ := mapFailure_eq_failed.mp he
    exact (ho e' he').locate (hregion ▸ hp)

theorem recover {handler : Failure → Exec P α} (hx : Accounts prog region x)
    (hh : ∀ e, Accounts prog region (handler e)) : Accounts prog region (x.recover handler) := by
  intro code fs m hstacked hregion
  obtain ⟨events, ha, ho⟩ := hx code fs m hstacked hregion
  rcases hm : x m with ⟨(e | _) | a, m'⟩ <;> rw [hm] at ha ho
  · rw [recover_failed hm]
    rw [← ha.calls] at hstacked ⊢
    obtain ⟨events', ha', ho'⟩ := hh e code fs m' hstacked hregion
    exact ⟨events' ++ events, ha.trans ha', fun e he => (ho' e he).after ha.running⟩
  · rw [recover_outOfFuel hm]
    exact ⟨events, ha, ho⟩
  · rw [recover_ok hm]
    exact ⟨events, ha, ho⟩

/-- Two computations, one after the other, of which either can be the one that the
whole fails as. -/
theorem followed {y : Exec P β} {γ : Type} {z : Exec P γ} {m : Machine P} {code : List Site}
    {fs : List Declaration} (hx : Accounts prog region x) (hy : Accounts prog region y)
    (hstacked : Stacked prog code fs m.calls.frames) (hregion : innermost code fs = region)
    (hmachine : (z m).2 = (y (x m).2).2)
    (hfailure : ∀ e, (z m).1 = .error (.failed e) →
      (x m).1 = .error (.failed e) ∨ (y (x m).2).1 = .error (.failed e)) :
    ∃ events, Accounted fs m (z m).2 events ∧
      ∀ e, (z m).1 = .error (.failed e) → Origin prog code fs m.calls.frames events e := by
  obtain ⟨events, ha, ho⟩ := hx code fs m hstacked hregion
  obtain ⟨events', ha', ho'⟩ := hy code fs (x m).2 (ha.calls ▸ hstacked) hregion
  refine ⟨events' ++ events, hmachine ▸ ha.trans ha', fun e he => ?_⟩
  rcases hfailure e he with h | h
  · exact (ho e h).before
  · exact ha.calls ▸ (ho' e h).after ha.running

theorem finish {x cleanup : Exec P Signal} (hx : Accounts prog region x)
    (hy : Accounts prog region cleanup) : Accounts prog region (x.finish cleanup) := by
  intro code fs m hstacked hregion
  by_cases hfuel : (x m).1 = .error .outOfFuel
  · have hm : x.finish cleanup m = (.error .outOfFuel, (x m).2) :=
      finish_outOfFuel (Prod.ext hfuel rfl)
    obtain ⟨events, ha, -⟩ := hx code fs m hstacked hregion
    rw [hm]
    refine ⟨events, ha, fun e he => ?_⟩
    cases he
  · have hm : x.finish cleanup m = (overriding (x m).1 (cleanup (x m).2).1, (cleanup (x m).2).2) :=
      finish_apply rfl hfuel
    refine followed hx hy hstacked hregion (by rw [hm]) fun e he => ?_
    rcases finish_eq_failed.mp he with ⟨-, hcleanup⟩ | ⟨-, hattempt⟩
    · exact .inr hcleanup
    · exact .inl hattempt

theorem andThen {y : Exec P Unit} (hx : Accounts prog region x) (hy : Accounts prog region y) :
    Accounts prog region (x.andThen y) := by
  intro code fs m hstacked hregion
  refine followed hx hy hstacked hregion (by rw [andThen_apply]) fun e he => ?_
  rcases andThen_eq_error.mp he with hfirst | ⟨_, -, hsecond⟩
  · exact .inl hfirst
  · exact .inr hsecond

theorem noting {events : Except Halt α → List (Event P)} (hx : Accounts prog region x)
    (h : ∀ outcome, ∀ e ∈ events outcome, e.IsAside) :
    Accounts prog region (x.noting events) := by
  intro code fs m hstacked hregion
  obtain ⟨earlier, ha, ho⟩ := hx code fs m hstacked hregion
  refine ⟨events (x m).1 ++ earlier, ha.trans (.aside rfl rfl (h _)),
    fun e he => (ho e he).before⟩

theorem note {e : Event P} (h : e.IsAside) : Accounts prog region (Exec.note e) :=
  .aside fun _ => ⟨[e], rfl, rfl, fun _ he => List.mem_singleton.mp he ▸ h, fun _ => nofun⟩

theorem withScope (hx : Accounts prog region x) : Accounts prog region (Exec.withScope x) := by
  intro code fs m hstacked hregion
  obtain ⟨events, ha, ho⟩ := hx code fs m.enterBlock hstacked hregion
  have hblock : Accounted fs m (x m.enterBlock).2 events :=
    ⟨ha.journal, ha.calls, ha.running, ha.traces⟩
  have hleft : Accounted fs (x m.enterBlock).2 (x m.enterBlock).2.leaveBlock
      [.leftBlock (x m.enterBlock).2.scopes.stack] :=
    .aside rfl rfl fun e he => List.mem_singleton.mp he ▸ trivial
  rw [withScope_apply]
  exact ⟨_, hblock.trans hleft, fun e he => (ho e he).before⟩

theorem top {x : Exec P Unit} (hx : Accounts prog region x) :
    Accounts prog region (Exec.top x) := by
  intro code fs m hstacked hregion
  obtain ⟨events, ha, ho⟩ := hx code fs { m with operands := [] } hstacked hregion
  refine ⟨events, ?_, fun e he => ho e (top_eq_error.mp he)⟩
  rw [top_apply]
  exact ⟨ha.journal, ha.calls, ha.running, ha.traces⟩

end Accounts

-- ---------------------------------------------------------------------------
-- Calls
-- ---------------------------------------------------------------------------

theorem bindParams_apply (params : List String) (args : List Value) (m : Machine P) :
    ∃ scopes, Evaluator.bindParams params args m = (.ok (), { m with scopes }) := by
  induction params generalizing args m with
  | nil => exact ⟨m.scopes, rfl⟩
  | cons param params ih =>
    cases args with
    | nil => exact ⟨m.scopes, rfl⟩
    | cons arg args =>
      obtain ⟨scopes, h⟩ := ih args { m with scopes := m.scopes.define param arg }
      refine ⟨scopes, ?_⟩
      have hparam : scoping (·.define param arg) m =
          (.ok (), { m with scopes := m.scopes.define param arg }) := rfl
      rw [Evaluator.bindParams, bind_ok hparam]
      exact h

/-- A body leads where its statements do, and fails as they do but for the calls in progress that
are attached. Before them only names are bound, and nothing that comes after them fails. -/
theorem asBody_runs (params : List String) (args : List Value) (x : Exec P Signal) (m : Machine P) :
    ∃ scopes, (asBody params args x m).2 = (x { m with scopes }).2 ∧
      ∀ e, (asBody params args x m).1 = .error (.failed e) → ∃ e',
        (x { m with scopes }).1 = .error (.failed e') ∧
          (x { m with scopes }).2.calls.attach e' = e := by
  obtain ⟨scopes, hbound⟩ := bindParams_apply params args m
  have ht : traced x { m with scopes } =
      ((traced x { m with scopes }).1, (x { m with scopes }).2) := by
    rw [traced, mapFailure_apply]
  refine ⟨scopes, ?_⟩
  rw [asBody, bind_ok hbound]
  rcases ho : (traced x { m with scopes }).1 with halt | signal <;> rw [ho] at ht
  · rw [bind_error ht]
    refine ⟨rfl, ?_⟩
    rintro e ⟨⟩
    exact mapFailure_eq_failed.mp ho
  · rw [bind_ok ht]
    cases signal <;> refine ⟨rfl, fun e he => ?_⟩ <;> cases he

theorem asBody_accounts {code : List Site} {fs : List Declaration} {region : List Site}
    {x : Exec P Signal} {m : Machine P} (params : List String) (args : List Value)
    (hx : Accounts prog region x) (hp : x.Positioned)
    (hstacked : Stacked prog code fs m.calls.frames) (hregion : innermost code fs = region) :
    ∃ events, Accounted fs m (asBody params args x m).2 events ∧
      ∀ e, (asBody params args x m).1 = .error (.failed e) → ∃ e' : Failure,
        Origin prog code fs m.calls.frames events e' ∧ e'.position.isSome ∧
          e = m.calls.attach e' := by
  obtain ⟨scopes, hmachine, hfailed⟩ := asBody_runs params args x m
  obtain ⟨events, ha, ho⟩ := hx code fs { m with scopes } hstacked hregion
  refine ⟨events, ?_, fun e he => ?_⟩
  · rw [hmachine]
    exact ⟨ha.journal, ha.calls, ha.running, ha.traces⟩
  · obtain ⟨e', he', rfl⟩ := hfailed e he
    exact ⟨e', ho e' he', hp _ e' he', congrArg (Calls.attach · e') ha.calls⟩

theorem failure?_eq_some {outcome : Except Halt α} {e : Failure} :
    failure? outcome = some e ↔ outcome = .error (.failed e) := by
  rcases outcome with (e' | _) | a <;> simp [failure?, Halt.failure?]

end Exec

section
variable {code region : List Site} {f : Declaration} {fs : List Declaration}
  {events : List (Event P)} {e : Failure} {frames : List Frame} {calls : Calls}

theorem Escapes.during {caller : Option Declaration} {called : List Frame} (last : Event P)
    (h : Escapes prog code (f :: fs) events e frames) :
    Escapes prog code fs (last :: (events ++ [.entered f caller called])) e frames := by
  obtain ⟨later, g, outer, scopes, earlier, rfl, hrunning, h⟩ := h
  refine ⟨last :: later, g, outer, scopes, earlier ++ [.entered f caller called],
    by simp, ?_, h⟩
  rw [running_append]
  exact hrunning

theorem Unwinds.leave {inside outside : List Frame} {scopes : List Handle}
    (hlength : inside.length = outside.length + 1) (hinside : inside <:+ frames)
    (h : Unwinds inside events e frames) :
    Unwinds outside (.left f inside scopes (some e) :: events) e frames := by
  intro inner hsuffix hinner
  by_cases hfurther : inside.length < inner.length
  · obtain ⟨g, scopes, hleft⟩ := h inner hsuffix hfurther
    exact ⟨g, scopes, List.mem_cons_of_mem _ hleft⟩
  · have hsame : inner = inside :=
      (List.suffix_of_suffix_length_le hsuffix hinside (by omega)).eq_of_length (by omega)
    exact ⟨f, scopes, hsame ▸ List.mem_cons_self⟩

theorem Origin.attached (hcalls : calls.frames ≠ [])
    (h : Origin prog code fs calls.frames events e) :
    ∃ trace, (calls.attach e).backtrace = some trace ∧ calls.frames <:+ trace := by
  obtain ⟨hb, -⟩ | ⟨hb, hsuffix, -⟩ := h
  · exact ⟨_, calls.attach_untraced hcalls hb, List.suffix_rfl⟩
  · rw [calls.attach_traced hb]
    exact ⟨_, hb, hsuffix⟩

/-- A failure that leaves the body of a function with the calls in progress attached has left this
one and any further in that it has left before. -/
theorem Origin.leave {caller : Option Declaration} {called outside : List Frame}
    {scopes : List Handle} {frame : Frame} (hframes : calls.frames = frame :: outside)
    (hstacked : Stacked prog code (f :: fs) calls.frames)
    (hrunning : running (f :: fs) events = f :: fs) (hposition : e.position.isSome)
    (h : Origin prog code (f :: fs) calls.frames events e) :
    Origin prog code fs outside (.left f calls.frames scopes (some (calls.attach e)) ::
      (events ++ [.entered f caller called])) (calls.attach e) := by
  have houtside : outside <:+ calls.frames := hframes ▸ List.suffix_cons frame outside
  have hlength : calls.frames.length = outside.length + 1 := hframes ▸ List.length_cons
  obtain ⟨hb, hp⟩ | ⟨hb, hcalls, h, hall⟩ := h
  · obtain ⟨p, hposition⟩ := Option.isSome_iff_exists.mp hposition
    have hescapes : Escapes prog code fs (.left f calls.frames scopes (some (calls.attach e)) ::
        (events ++ [.entered f caller called])) (calls.attach e) calls.frames := by
      refine ⟨[], f, fs, scopes, _, rfl, ?_, hstacked, p, ?_, hp p hposition⟩
      · rw [running_append]
        exact hrunning
      · rw [calls.attach_position, hposition]
    -- No function further in has been left.
    have hnone : Unwinds calls.frames (events ++ [.entered f caller called]) (calls.attach e)
        calls.frames :=
      fun inner hsuffix hinner => absurd hsuffix.length_le (by omega)
    have hne : calls.frames ≠ [] := hframes ▸ List.cons_ne_nil frame outside
    exact .inner (calls.attach_untraced hne hb) houtside hescapes
      (hnone.leave hlength List.suffix_rfl)
  · rw [calls.attach_traced hb]
    exact .inner hb (houtside.trans hcalls) (h.during _)
      ((hall.mono (List.subset_append_left _ _)).leave hlength hcalls)

theorem Accounted.call {m m' : Machine P} {frame : Frame} {failure : Option Failure}
    (hc : m.calls.push frame = .ok calls) (h : Accounted (f :: fs) (m.enterCall f calls) m' events)
    (hfailure : ∀ e, failure = some e → ∃ trace, e.backtrace = some trace ∧
      calls.frames <:+ trace) :
    Accounted fs m (m'.leaveCall f m.current failure)
      (.left f calls.frames m'.scopes.stack failure ::
        (events ++ [.entered f m.current calls.frames])) where
  journal := by
    have hcalls : m'.calls = calls := h.calls
    simp only [Machine.leaveCall, hcalls, h.journal, Machine.enterCall, List.cons_append,
      List.append_assoc, List.nil_append]
  calls := (congrArg Calls.pop h.calls).trans (Calls.push_pops hc).2
  running := by
    rw [running_left, running_append]
    exact congrArg List.tail h.running
  traces e he := by
    rcases List.mem_cons.mp he with rfl | he
    · cases failure with
      | none => trivial
      | some e => exact ⟨(Calls.push_pops hc).1 ▸ List.cons_ne_nil frame _, hfailure e rfl⟩
    · rcases List.mem_append.mp he with he | he
      · exact h.traces e he
      · cases List.mem_singleton.mp he
        trivial

theorem Exec.Accounts.withFunction {site : Option Position} {args : List Value} {x : Exec P Signal}
    (hs : prog.CallSite region f site) (hx : Exec.Accounts prog f.sites x) (hp : x.Positioned) :
    Exec.Accounts prog region (Exec.withFunction f site (Exec.asBody f.params args x)) := by
  intro code fs m hstacked hregion
  cases hc : m.calls.push ⟨f.name, site⟩ with
  | error e =>
    obtain ⟨limit, rfl⟩ := Calls.push_refuses hc
    rw [Exec.withFunction_refused hc]
    refine ⟨[.refused f], .aside rfl rfl fun e he => List.mem_singleton.mp he ▸ trivial, ?_⟩
    rintro _ ⟨⟩
    exact .bare (.of _)
  | ok calls =>
    obtain ⟨hframes, -⟩ := Calls.push_pops hc
    have hstacked' : Stacked prog code (f :: fs) calls.frames :=
      hframes ▸ .cons (hregion ▸ hs) hstacked
    obtain ⟨events, ha, hfailure⟩ :=
      Exec.asBody_accounts (m := m.enterCall f calls) f.params args hx hp hstacked' rfl
    rw [Exec.withFunction_entered hc]
    refine ⟨_, ha.call hc fun e he => ?_, fun e he => ?_⟩
    · obtain ⟨e', ho, hposition, rfl⟩ := hfailure e (Exec.failure?_eq_some.mp he)
      exact ho.attached (hframes ▸ List.cons_ne_nil _ _)
    · obtain ⟨e', ho, hposition, rfl⟩ := hfailure e he
      rw [Exec.failure?_eq_some.mpr he]
      exact ho.leave hframes hstacked' ha.running hposition

end

-- ---------------------------------------------------------------------------
-- Programs
-- ---------------------------------------------------------------------------

namespace Exec.Accounts

variable {region : List Site}

theorem act (hhost : ∀ e, prog.host.Returns e → e.Bare) {x : Act P α}
    (h : prog.host.Offers x) :
    Accounts prog region (Exec.act x) := by
  refine .aside fun m => ?_
  rcases hx : x m.world with ⟨e | a, w⟩
  · rw [act_error hx]
    refine ⟨[.faulted e], rfl, rfl, fun _ he => List.mem_singleton.mp he ▸ trivial, ?_⟩
    rintro _ ⟨⟩
    exact (h.answers m.world e (congrArg Prod.fst hx)).elim (·.toBare) (hhost e)
  · rw [act_ok hx]
    refine ⟨[], rfl, rfl, List.forall_mem_nil _, fun e he => ?_⟩
    cases he

theorem operate {task : Calculator Unit}
    (h : ∀ operands e, (task operands).1 = .error e → e.Bare) :
    Accounts prog region (Exec.operate task : Exec P Unit) :=
  .quiet (fun _ => rfl) (fun _ => rfl) fun m e he => h m.operands e (operate_eq_failed.mp he)

end Exec.Accounts

def accounts (hhost : ∀ e, prog.host.Returns e → e.Bare) : Uniform prog where
  toRegions := .code
  keeps := Exec.Accounts prog
  still hstill := .quiet (fun m => congrArg Machine.journal (hstill m))
    fun m => congrArg Machine.calls (hstill m)
  bind := .bind
  callee h code fs m := h m trivial code fs m
  act := .act hhost
  note h := .note h.isAside
  noting hx h := hx.noting fun outcome e he => (h outcome e he).isAside
  define _ _ := .quiet (fun _ => rfl) (fun _ => rfl) fun _ _ => nofun
  store _ _ := .quiet (fun _ => rfl) (fun _ => rfl) fun _ _ => nofun
  operate := .operate
  located := .located
  recover := .recover
  finish := .finish
  andThen := .andThen
  withScope := .withScope
  withFunction hs := .withFunction hs.callSite
  top := .top

def accounting (hhost : ∀ e, prog.host.Returns e → e.Bare) : Regime prog :=
  (accounts hhost).regime

-- ---------------------------------------------------------------------------
-- Runs
-- ---------------------------------------------------------------------------

/-- From a host whose own failures are bare, whatever a host asks for while no call is in progress:
if it fails, the failure has a backtrace exactly if it has left the body of a function. The
backtrace is then what calls were in progress when it left the innermost body that it has left, the
innermost call first; each stands in the body of the function that the next one calls, and the last
in what the host has asked for, or nowhere if that is a call; and the failure stands at a node of
the innermost body. The bodies that it has left are those of all these calls and no others. A call
with a wrong number of arguments, or one too many, fails before its function begins to run, with a
failure that is bare. -/
theorem enter_backtrace (prog : Program P)
    (hhost : ∀ e, prog.host.Returns e → e.position = none ∧ e.backtrace = none)
    (fuel : Nat) (entry : Entry) (m : Machine P) (hcalls : m.calls.frames = []) :
    (∀ e, (prog.enter fuel entry m).1 = .error (.failed e) →
      ∃ events, (prog.enter fuel entry m).2.journal = events ++ m.journal ∧
        (e.backtrace.isSome ↔ ∃ f frames scopes, .left f frames scopes (some e) ∈ events) ∧
        ∀ frames, e.backtrace = some frames →
          (∃ later f outer scopes earlier,
            events = later ++ .left f frames scopes (some e) :: earlier ∧
              running [] earlier = f :: outer ∧ Stacked prog entry.sites (f :: outer) frames ∧
              ∃ p, e.position = some p ∧ .node p ∈ f.sites) ∧
          ∀ inner, (∃ f scopes, .left f inner scopes (some e) ∈ events) ↔
            inner ≠ [] ∧ inner <:+ frames) ∧
    ∀ (f : Declaration) (args : List Value) (site : Option Position) (m : Machine P),
      (args.length ≠ f.params.length →
        (prog.evaluator fuel).callScript f args site m =
          (.error (.failed (.of (.parameterMismatch f.params.length args.length))), m)) ∧
      ∀ limit, args.length = f.params.length → m.calls.exhausted? = some limit →
        (prog.evaluator fuel).callScript f args site m =
          (.error (.failed (.of (.stackOverflow limit))), m.noted (.refused f)) := by
  refine ⟨fun e he => ?_,
    fun f args site m => ⟨fun hlength => ?_, fun limit hlength hlimit => ?_⟩⟩
  · have hbare : ∀ e, prog.host.Returns e → e.Bare :=
      fun e h => ⟨(hhost e h).1, (hhost e h).2⟩
    obtain ⟨events, ha, ho⟩ := (accounting hbare).enter fuel entry entry.sites [] m
      (hcalls ▸ .nil) rfl
    -- Whatever leaves a body has a backtrace that ends with the calls in progress there.
    have hleft : ∀ {f inner scopes}, .left f inner scopes (some e) ∈ events →
        inner ≠ [] ∧ ∃ trace, e.backtrace = some trace ∧ inner <:+ trace :=
          fun h => ha.traces _ h
    refine ⟨events, ha.journal, ⟨fun hb => ?_, ?_⟩, fun frames hb => ?_⟩
    · obtain ⟨frames, hb⟩ := Option.isSome_iff_exists.mp hb
      obtain ⟨⟨later, f, outer, scopes, earlier, rfl, -⟩, -⟩ := (ho e he).traced hb
      exact ⟨f, frames, scopes, List.mem_append_right _ List.mem_cons_self⟩
    · rintro ⟨f, frames, scopes, h⟩
      obtain ⟨-, trace, hb, -⟩ := hleft h
      simp [hb]
    · obtain ⟨hescapes, hall⟩ := (ho e he).traced hb
      refine ⟨hescapes,
        fun inner => ⟨?_, fun ⟨hinner, hsuffix⟩ => hall inner hsuffix ?_⟩⟩
      · rintro ⟨f, scopes, h⟩
        obtain ⟨hinner, trace, htrace, hsuffix⟩ := hleft h
        obtain rfl := Option.some.inj (hb.symm.trans htrace)
        exact ⟨hinner, hsuffix⟩
      · rw [hcalls]
        exact List.length_pos_of_ne_nil hinner
  · rw [Evaluator.callScript, if_neg hlength]
    rfl
  · have hpush : m.calls.push ⟨f.name, site⟩ = .error (.of (.stackOverflow limit)) := by
      rw [Calls.push, hlimit]
    rw [Evaluator.callScript, if_pos hlength, Exec.withFunction_refused hpush]
    rfl

namespace Workbench

/-- The function `func refuse(why) { fail(why) }`. -/
def refuse : Declaration :=
  ⟨"refuse", ["why"],
    [⟨.expr ⟨.call ⟨"fail", [variableNamed "why"], false, ⟨"main", 5, 3⟩⟩,
      ⟨"main", 5, 3⟩⟩,
      ⟨"main", 5, 3⟩⟩], ⟨"main", 4, 1⟩⟩

/-- The function `func ask() { refuse("no") }`. -/
def ask : Declaration :=
  ⟨"ask", [],
    [⟨.expr ⟨.call ⟨"refuse", [⟨.str "no", ⟨"main", 2, 10⟩⟩], false,
      ⟨"main", 2, 3⟩⟩,
      ⟨"main", 2, 3⟩⟩, ⟨"main", 2, 3⟩⟩], ⟨"main", 1, 1⟩⟩

def refusing : Program platform :=
  ⟨host, ⟨[("ask", ask), ("refuse", refuse)]⟩,
    ⟨[("fail", ⟨"fail", .fixed [.str], .foreign .fail⟩)], []⟩⟩

def refusal : Failure :=
  ⟨.custom "no", some ⟨"main", 5, 3⟩,
    some [⟨"refuse", some ⟨"main", 2, 3⟩⟩, ⟨"ask", none⟩]⟩

theorem refusing_fails :
    (refusing.enter 5 (.call "ask" []) idle).1 = .error (.failed refusal) := by
  have hfails : Exec.failure? (refusing.enter 5 (.call "ask" []) idle).1 = some refusal := by
    decide +kernel
  exact Exec.failure?_eq_some.mp hfails

theorem refusing_backtrace :
    (∀ e, refusing.host.Returns e → e.position = none ∧ e.backtrace = none) ∧
      idle.calls.frames = [] ∧
      (refusing.enter 5 (.call "ask" []) idle).1 = .error (.failed refusal) ∧
      ∃ later f outer scopes earlier,
        (refusing.enter 5 (.call "ask" []) idle).2.journal =
            later ++ .left f
              [⟨"refuse", some ⟨"main", 2, 3⟩⟩, ⟨"ask", none⟩] scopes (some refusal) ::
              earlier ∧
          running [] earlier = f :: outer ∧
          Stacked refusing [.call "ask" none] (f :: outer)
            [⟨"refuse", some ⟨"main", 2, 3⟩⟩, ⟨"ask", none⟩] ∧
          .node ⟨"main", 5, 3⟩ ∈ f.sites := by
  have hhost : ∀ e, refusing.host.Returns e → e.position = none ∧ e.backtrace = none :=
    fun e h => ⟨(host_bare h).position, (host_bare h).backtrace⟩
  refine ⟨hhost, rfl, refusing_fails, ?_⟩
  obtain ⟨htold, -⟩ := enter_backtrace refusing hhost 5 (.call "ask" []) idle rfl
  obtain ⟨events, hjournal, -, hframes⟩ := htold refusal refusing_fails
  obtain ⟨⟨later, f, outer, scopes, earlier, rfl, hrunning, hstacked, p, hp, hnode⟩, -⟩ :=
    hframes _ rfl
  cases hp
  exact ⟨later, f, outer, scopes, earlier, hjournal.trans (List.append_nil _), hrunning, hstacked,
    hnode⟩

end Workbench

end HostScript
