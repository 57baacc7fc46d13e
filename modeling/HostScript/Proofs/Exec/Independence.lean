import HostScript.Proofs.Exec.Confinement
import HostScript.Workbench.Scripts
import Mathlib.Data.List.Basic

/-!
# What a call does not depend on

A function sees its arguments, the global names, the objects and how many calls are in progress. It
sees neither the scopes and operands of its caller nor who that is. Two runs that start from
machines which differ in no more than that do the same, step by step: they end alike, ask the same
of the host, and leave the same global names and objects (`callScript_independent`). Failures differ
at most in the calls that they came through.
-/

namespace HostScript

variable {P : Platform} {α β : Type}

-- ---------------------------------------------------------------------------
-- Outcomes
-- ---------------------------------------------------------------------------

/-- Outcomes that differ at most in the calls that a failure came through. -/
inductive SameOutcome {α : Type} : Except Halt α → Except Halt α → Prop where
  | ok (a : α) : SameOutcome (.ok a) (.ok a)
  | failed {e e' : Failure} (cause : e.cause = e'.cause) (position : e.position = e'.position) :
    SameOutcome (.error (.failed e)) (.error (.failed e'))
  | outOfFuel : SameOutcome (.error .outOfFuel) (.error .outOfFuel)

namespace SameOutcome

theorem refl (outcome : Except Halt α) : SameOutcome outcome outcome := by
  rcases outcome with (e | _) | a
  · exact .failed rfl rfl
  · exact .outOfFuel
  · exact .ok a

theorem map {outcome outcome' : Except Halt α} (f : α → β) (h : SameOutcome outcome outcome') :
    SameOutcome (outcome.map f) (outcome'.map f) := by
  cases h with
  | ok a => exact .ok (f a)
  | failed hc hp => exact .failed hc hp
  | outOfFuel => exact .outOfFuel

theorem overriding {outcome outcome' after after' : Except Halt Signal}
    (h : SameOutcome outcome outcome') (ha : SameOutcome after after') :
    SameOutcome (Exec.overriding outcome after) (Exec.overriding outcome' after') := by
  cases ha with
  | ok signal =>
    cases signal with
    | normal => exact h
    | brk | cont | ret => exact .ok _
  | failed hc hp => exact .failed hc hp
  | outOfFuel => exact .outOfFuel

theorem firstFailure {outcome outcome' : Except Halt α} {after after' : Except Halt Unit}
    (h : SameOutcome outcome outcome') (ha : SameOutcome after after') :
    SameOutcome (Exec.firstFailure outcome after) (Exec.firstFailure outcome' after') := by
  cases h with
  | ok a =>
    cases ha with
    | ok => exact .ok a
    | failed hc hp => exact .failed hc hp
    | outOfFuel => exact .outOfFuel
  | failed hc hp => exact .failed hc hp
  | outOfFuel => exact .outOfFuel

end SameOutcome

theorem Failure.text_congr {e e' : Failure} (hc : e.cause = e'.cause)
    (hp : e.position = e'.position) : e.text = e'.text := by
  simp [text, message, hc, hp]

-- ---------------------------------------------------------------------------
-- Two runs
-- ---------------------------------------------------------------------------

namespace Exec

/-- From machines that are related, a computation ends alike, and in machines that are. -/
def Alike (R : Machine P → Machine P → Prop) (x : Exec P α) : Prop :=
  ∀ m₁ m₂, R m₁ m₂ → SameOutcome (x m₁).1 (x m₂).1 ∧ R (x m₁).2 (x m₂).2

namespace Alike

variable {R : Machine P → Machine P → Prop} {m₁ m₂ : Machine P} {x : Exec P α}

theorem elim (hx : Alike R x) (hm : R m₁ m₂) : ∃ outcome₁ outcome₂ m₁' m₂',
    x m₁ = (outcome₁, m₁') ∧ x m₂ = (outcome₂, m₂') ∧
      SameOutcome outcome₁ outcome₂ ∧ R m₁' m₂' :=
  ⟨_, _, _, _, rfl, rfl, hx m₁ m₂ hm⟩

theorem ended {outcome : Machine P → Except Halt α} (h : ∀ m, x m = (outcome m, m))
    (hsame : ∀ m₁ m₂, R m₁ m₂ → outcome m₁ = outcome m₂) : Alike R x := by
  intro m₁ m₂ hm
  rw [h m₁, h m₂, hsame m₁ m₂ hm]
  exact ⟨.refl _, hm⟩

theorem bind {f : α → Exec P β} (hx : Alike R x) (hf : ∀ a, Alike R (f a)) :
    Alike R (x >>= f) := by
  intro m₁ m₂ hm
  obtain ⟨_, _, m₁', m₂', h₁, h₂, ho, hm'⟩ := hx.elim hm
  cases ho with
  | ok a =>
    rw [bind_ok h₁, bind_ok h₂]
    exact hf a m₁' m₂' hm'
  | failed hc hp =>
    rw [bind_error h₁, bind_error h₂]
    exact ⟨.failed hc hp, hm'⟩
  | outOfFuel =>
    rw [bind_error h₁, bind_error h₂]
    exact ⟨.outOfFuel, hm'⟩

theorem mapFailure {f : Machine P → Failure → Failure} (hx : Alike R x)
    (hcause : ∀ m e, (f m e).cause = e.cause)
    (hposition : ∀ m m' e e', e.position = e'.position →
      (f m e).position = (f m' e').position) :
    Alike R (x.mapFailure f) := by
  intro m₁ m₂ hm
  obtain ⟨_, _, m₁', m₂', h₁, h₂, ho, hm'⟩ := hx.elim hm
  rw [mapFailure_apply, mapFailure_apply, h₁, h₂]
  refine ⟨?_, hm'⟩
  cases ho with
  | ok a => exact .ok a
  | failed hc hp =>
    exact .failed ((hcause _ _).trans (hc.trans (hcause _ _).symm)) (hposition _ _ _ _ hp)
  | outOfFuel => exact .outOfFuel

theorem located {p : Position} (hx : Alike R x) : Alike R (x.located p) := by
  refine hx.mapFailure (fun _ _ => rfl) fun _ _ e e' hp => ?_
  simp [Failure.locate, hp]

theorem traced (hx : Alike R x) : Alike R x.traced := by
  have hattach (m : Machine P) (e : Failure) :
      (m.calls.attach e).cause = e.cause ∧ (m.calls.attach e).position = e.position := by
    unfold Calls.attach
    split <;> exact ⟨rfl, rfl⟩
  refine hx.mapFailure (fun m e => (hattach m e).1) fun m m' e e' hp => ?_
  rw [(hattach m e).2, (hattach m' e').2, hp]

theorem recover {handler : Failure → Exec P α} (hx : Alike R x) (hh : ∀ e, Alike R (handler e))
    (htext : ∀ e e' : Failure, e.text = e'.text → handler e = handler e') :
    Alike R (x.recover handler) := by
  intro m₁ m₂ hm
  obtain ⟨_, _, m₁', m₂', h₁, h₂, ho, hm'⟩ := hx.elim hm
  cases ho with
  | ok a =>
    rw [recover_ok h₁, recover_ok h₂]
    exact ⟨.ok a, hm'⟩
  | @failed e e' hc hp =>
    rw [recover_failed h₁, recover_failed h₂, htext e e' (Failure.text_congr hc hp)]
    exact hh e' m₁' m₂' hm'
  | outOfFuel =>
    rw [recover_outOfFuel h₁, recover_outOfFuel h₂]
    exact ⟨.outOfFuel, hm'⟩

theorem finish {x cleanup : Exec P Signal} (hx : Alike R x) (hy : Alike R cleanup) :
    Alike R (x.finish cleanup) := by
  intro m₁ m₂ hm
  obtain ⟨_, _, m₁', m₂', h₁, h₂, ho, hm'⟩ := hx.elim hm
  obtain ⟨hafter, hm''⟩ := hy m₁' m₂' hm'
  cases ho with
  | ok a =>
    rw [finish_apply h₁ nofun, finish_apply h₂ nofun]
    exact ⟨(SameOutcome.ok a).overriding hafter, hm''⟩
  | failed hc hp =>
    rw [finish_apply h₁ nofun, finish_apply h₂ nofun]
    exact ⟨(SameOutcome.failed hc hp).overriding hafter, hm''⟩
  | outOfFuel =>
    rw [finish_outOfFuel h₁, finish_outOfFuel h₂]
    exact ⟨.outOfFuel, hm'⟩

theorem andThen {y : Exec P Unit} (hx : Alike R x) (hy : Alike R y) : Alike R (x.andThen y) := by
  intro m₁ m₂ hm
  obtain ⟨ho, hm'⟩ := hx m₁ m₂ hm
  obtain ⟨hafter, hm''⟩ := hy _ _ hm'
  rw [andThen_apply, andThen_apply]
  exact ⟨ho.firstFailure hafter, hm''⟩

end Alike

end Exec

-- ---------------------------------------------------------------------------
-- Journals
-- ---------------------------------------------------------------------------

instance : DecidablePred (Event.IsMark (P := P))
  | .invoked .. | .faulted _ | .created _ | .closed _ | .lapsed _ | .delivered .. | .stopped _ =>
    .isTrue trivial
  | .entered .. | .left .. | .refused _ | .leftBlock _ => .isFalse id

def marks (events : List (Event P)) : List (Event P) :=
  events.filter (decide ·.IsMark)

def SameMarks (j₁ j₂ j₁' j₂' : List (Event P)) : Prop :=
  ∃ events₁ events₂, j₁' = events₁ ++ j₁ ∧ j₂' = events₂ ++ j₂ ∧
    marks events₁ = marks events₂

namespace SameMarks

variable {j₁ j₂ j₁' j₂' j₁'' j₂'' : List (Event P)}

theorem refl (j₁ j₂ : List (Event P)) : SameMarks j₁ j₂ j₁ j₂ :=
  ⟨[], [], rfl, rfl, rfl⟩

theorem trans (h : SameMarks j₁ j₂ j₁' j₂') (h' : SameMarks j₁' j₂' j₁'' j₂'') :
    SameMarks j₁ j₂ j₁'' j₂'' := by
  obtain ⟨events₁, events₂, rfl, rfl, hmarks⟩ := h
  obtain ⟨later₁, later₂, rfl, rfl, hlater⟩ := h'
  refine ⟨later₁ ++ events₁, later₂ ++ events₂, by simp, by simp, ?_⟩
  simp only [marks, List.filter_append] at hmarks hlater ⊢
  rw [hmarks, hlater]

theorem append (h : SameMarks j₁ j₂ j₁' j₂') (events : List (Event P)) :
    SameMarks j₁ j₂ (events ++ j₁') (events ++ j₂') :=
  h.trans ⟨events, events, rfl, rfl, rfl⟩

theorem cons {e₁ e₂ : Event P} (h : SameMarks j₁ j₂ j₁' j₂') (h₁ : ¬ e₁.IsMark)
    (h₂ : ¬ e₂.IsMark) : SameMarks j₁ j₂ (e₁ :: j₁') (e₂ :: j₂') :=
  h.trans ⟨[e₁], [e₂], rfl, rfl, by simp [marks, h₁, h₂]⟩

end SameMarks

-- ---------------------------------------------------------------------------
-- Machines that cannot be told apart
-- ---------------------------------------------------------------------------

/-- Machines that agree on all that a function sees which is called there. -/
structure Machine.Peers (m₁ m₂ : Machine P) : Prop where
  world : m₁.world = m₂.world
  depth : m₁.calls.depth = m₂.calls.depth
  limit : m₁.calls.limit = m₂.calls.limit
  globals : m₁.scopes.meaning Scopes.global = m₂.scopes.meaning Scopes.global

/-- Machines reached from two others that agree on all that a computation sees, and of whose
operands something holds. -/
structure Twins (Q : Operands → Operands → Prop) (a₁ a₂ m₁ m₂ : Machine P) : Prop where
  world : m₁.world = m₂.world
  depth : m₁.calls.depth = m₂.calls.depth
  limit : m₁.calls.limit = m₂.calls.limit
  current : m₁.current = m₂.current
  seen : m₁.scopes.seen = m₂.scopes.seen
  operands : Q m₁.operands m₂.operands
  confined₁ : a₁.Confined m₁
  confined₂ : a₂.Confined m₂
  journals : SameMarks a₁.journal a₂.journal m₁.journal m₂.journal

namespace Twins

variable {Q R : Operands → Operands → Prop} {a₁ a₂ m₁ m₂ : Machine P}

theorem peers (h : Twins Q a₁ a₂ m₁ m₂) : m₁.Peers m₂ := by
  refine ⟨h.world, h.depth, h.limit, ?_⟩
  have hlast := congrArg List.getLast? h.seen
  rwa [Scopes.seen_getLast?, Scopes.seen_getLast?, Option.some_inj] at hlast

theorem view (h : Twins Q a₁ a₂ m₁ m₂) : m₁.world.view = m₂.world.view := by
  rw [h.world]

theorem resolveRoot? (h : Twins Q a₁ a₂ m₁ m₂) (prog : Program P) :
    prog.resolveRoot? m₁ = prog.resolveRoot? m₂ := by
  funext name
  simp only [Program.resolveRoot?, Scopes.lookup_eq_seen, h.seen]

theorem resolve? (h : Twins Q a₁ a₂ m₁ m₂) (prog : Program P) :
    prog.resolve? m₁ = prog.resolve? m₂ := by
  funext name
  simp only [Program.resolve?, h.resolveRoot?, h.world]

theorem callee? (h : Twins Q a₁ a₂ m₁ m₂) (prog : Program P) (call : Call) :
    prog.callee? m₁ call = prog.callee? m₂ call := by
  simp only [Program.callee?, Program.callingUnit, Program.hostCallee?, h.resolve?, h.world,
    h.current]

theorem on (h : Twins Q a₁ a₂ m₁ m₂) {operands₁ operands₂ : Operands}
    (hq : R operands₁ operands₂) :
    Twins R a₁ a₂ { m₁ with operands := operands₁ } { m₂ with operands := operands₂ } :=
  { h with operands := hq }

theorem scoping (h : Twins Q a₁ a₂ m₁ m₂) {f : Scopes → Scopes} {g : Sight → Sight}
    (hseen : ∀ s, (f s).seen = g s.seen) (hconfined : ∀ s, Scopes.Confined s (f s)) :
    Twins Q a₁ a₂ { m₁ with scopes := f m₁.scopes } { m₂ with scopes := f m₂.scopes } :=
  { h with
    seen := by rw [hseen, hseen, h.seen]
    confined₁ := h.confined₁.trans (hconfined m₁.scopes)
    confined₂ := h.confined₂.trans (hconfined m₂.scopes) }

theorem enterBlock (h : Twins Q a₁ a₂ m₁ m₂) :
    Twins Q m₁.enterBlock m₂.enterBlock m₁.enterBlock m₂.enterBlock :=
  { h with
    seen := by
      have hseen : m₁.scopes.seenFrom m₁.scopes.current =
          m₂.scopes.seenFrom m₂.scopes.current :=
        h.seen
      simp only [Machine.enterBlock, Scopes.push, Scopes.seen_pushBelow, hseen]
    confined₁ := .refl _
    confined₂ := .refl _
    journals := .refl _ _ }

theorem leaveBlock {n₁ n₂ : Machine P} (h : Twins Q a₁ a₂ m₁ m₂)
    (hn : Twins Q m₁.enterBlock m₂.enterBlock n₁ n₂) :
    Twins Q a₁ a₂ n₁.leaveBlock n₂.leaveBlock :=
  { hn with
    seen := by
      simp only [Machine.leaveBlock]
      rw [Scopes.seen_pop_push hn.confined₁.shape,
        Scopes.seen_pop_push hn.confined₂.shape, hn.seen]
    confined₁ := h.confined₁.trans hn.confined₁.block
    confined₂ := h.confined₂.trans hn.confined₂.block
    journals := (h.journals.trans hn.journals).cons id id }

end Twins

-- ---------------------------------------------------------------------------
-- Calls
-- ---------------------------------------------------------------------------

theorem Calls.push_alike {calls₁ calls₂ : Calls} (hd : calls₁.depth = calls₂.depth)
    (hl : calls₁.limit = calls₂.limit) (frame₁ frame₂ : Frame) :
    (∃ e, calls₁.push frame₁ = .error e ∧ calls₂.push frame₂ = .error e) ∨
      ∃ next₁ next₂, calls₁.push frame₁ = .ok next₁ ∧
        calls₂.push frame₂ = .ok next₂ ∧
        next₁.depth = next₂.depth ∧ next₁.limit = next₂.limit := by
  have hsame : calls₁.exhausted? = calls₂.exhausted? := by rw [exhausted?, exhausted?, hd, hl]
  unfold push
  rw [hsame]
  cases calls₂.exhausted? with
  | some limit => exact .inl ⟨_, rfl, rfl⟩
  | none => exact .inr ⟨_, _, rfl, rfl, congrArg (· + 1) hd, hl⟩

structure Machine.Returned (m m' : Machine P) : Prop where
  confined : m.Confined m'
  current : m'.current = m.current
  seen : m'.scopes.seen = m.scopes.seen.dropLast ++ [m'.scopes.meaning Scopes.global]

namespace Machine.Returned

variable {m m' : Machine P} {f : Declaration}

theorem refused (m : Machine P) (events : List (Event P)) :
    m.Returned { m with journal := events } := by
  refine ⟨.refl m.scopes, rfl, ?_⟩
  exact (List.dropLast_append_getLast? _ m.scopes.seen_getLast?).symm

theorem left {calls : Calls} (h : (m.enterCall f calls).Confined m') (failure : Option Failure) :
    m.Returned (m'.leaveCall f m.current failure) :=
  ⟨Scopes.Confined.call h, rfl, Scopes.Confined.seen_call h⟩

end Machine.Returned

/-- How two runs of a call end in which a function cannot tell where it is called. -/
structure SameCall (Q : Operands → Operands → Prop) (m₁ m₂ : Machine P)
    (run₁ run₂ : Except Halt α × Machine P) : Prop where
  outcome : SameOutcome run₁.1 run₂.1
  peers : run₁.2.Peers run₂.2
  journals : SameMarks m₁.journal m₂.journal run₁.2.journal run₂.2.journal
  operands : Q run₁.2.operands run₂.2.operands
  returned₁ : m₁.Returned run₁.2
  returned₂ : m₂.Returned run₂.2

section

variable {Q : Operands → Operands → Prop} {m₁ m₂ n₁ n₂ : Machine P} {f : Declaration}
  {calls₁ calls₂ : Calls}

theorem Machine.Peers.enterCall (h : m₁.Peers m₂) (hq : Q m₁.operands m₂.operands)
    (hd : calls₁.depth = calls₂.depth) (hl : calls₁.limit = calls₂.limit) :
    Twins Q (m₁.enterCall f calls₁) (m₂.enterCall f calls₂) (m₁.enterCall f calls₁)
      (m₂.enterCall f calls₂) :=
  { world := h.world
    depth := hd
    limit := hl
    current := rfl
    seen := by simp only [Machine.enterCall, Scopes.seen_pushRoot, h.globals]
    operands := hq
    confined₁ := .refl _
    confined₂ := .refl _
    journals := .refl _ _ }

theorem Twins.leaveCall
    (h : Twins Q (m₁.enterCall f calls₁) (m₂.enterCall f calls₂) n₁ n₂)
    (failure₁ failure₂ : Option Failure) :
    (n₁.leaveCall f m₁.current failure₁).Peers
      (n₂.leaveCall f m₂.current failure₂) := by
  refine ⟨h.world, ?_, h.limit, ?_⟩
  · simp only [Machine.leaveCall, Calls.pop, Calls.depth, List.length_tail]
    exact congrArg (· - 1) h.depth
  · have hglobal₁ := Scopes.Confined.meaning_global h.confined₁
    have hglobal₂ := Scopes.Confined.meaning_global h.confined₂
    exact hglobal₁.trans (h.peers.globals.trans hglobal₂.symm)

theorem Exec.withFunction_peers {x : Exec P α} (hx : ∀ a₁ a₂, Alike (Twins Q a₁ a₂) x)
    (h : m₁.Peers m₂) (hq : Q m₁.operands m₂.operands) (site₁ site₂ : Option Position) :
    SameCall Q m₁ m₂ (withFunction f site₁ x m₁) (withFunction f site₂ x m₂) := by
  obtain ⟨e, hc₁, hc₂⟩ | ⟨calls₁, calls₂, hc₁, hc₂, hd, hl⟩ :=
    Calls.push_alike h.depth h.limit ⟨f.name, site₁⟩ ⟨f.name, site₂⟩
  · rw [withFunction_refused hc₁, withFunction_refused hc₂]
    exact ⟨.refl _, { h with }, (SameMarks.refl _ _).cons id id, hq, .refused _ _, .refused _ _⟩
  · rw [withFunction_entered hc₁, withFunction_entered hc₂]
    obtain ⟨ho, hn⟩ := hx _ _ _ _ (h.enterCall hq hd hl)
    refine ⟨ho, hn.leaveCall _ _, ?_, hn.operands, .left hn.confined₁ _,
      .left hn.confined₂ _⟩
    have hentered : SameMarks m₁.journal m₂.journal (m₁.enterCall f calls₁).journal
        (m₂.enterCall f calls₂).journal := (SameMarks.refl _ _).cons id id
    exact (hentered.trans hn.journals).cons id id

theorem Twins.returned {a₁ a₂ : Machine P} {run₁ run₂ : Except Halt α × Machine P}
    (h : Twins Q a₁ a₂ m₁ m₂) (hcall : SameCall Q m₁ m₂ run₁ run₂) :
    Twins Q a₁ a₂ run₁.2 run₂.2 := by
  obtain ⟨-, hpeers, hjournals, hq, hreturned₁, hreturned₂⟩ := hcall
  exact
    { hpeers with
      current := by rw [hreturned₁.current, hreturned₂.current, h.current]
      seen := by rw [hreturned₁.seen, hreturned₂.seen, h.seen, hpeers.globals]
      operands := hq
      confined₁ := h.confined₁.trans hreturned₁.confined
      confined₂ := h.confined₂.trans hreturned₂.confined
      journals := h.journals.trans hjournals }

end

-- ---------------------------------------------------------------------------
-- Computations
-- ---------------------------------------------------------------------------

def Independent (Q : Operands → Operands → Prop) (x : Exec P α) : Prop :=
  ∀ a₁ a₂, Exec.Alike (Twins Q a₁ a₂) x

namespace Independent

variable {Q : Operands → Operands → Prop} {prog : Program P} {x : Exec P α}

theorem act (x : Act P α) : Independent Q (Exec.act x) := by
  intro a₁ a₂ m₁ m₂ hm
  rcases hw : x m₂.world with ⟨e | a, w⟩
  · rw [Exec.act_error (hm.world ▸ hw), Exec.act_error hw]
    exact ⟨.refl _, { hm with world := rfl, journals := hm.journals.append [.faulted e] }⟩
  · rw [Exec.act_ok (hm.world ▸ hw), Exec.act_ok hw]
    exact ⟨.refl _, { hm with world := rfl }⟩

theorem note (e : Event P) : Independent Q (Exec.note e) :=
  fun _ _ _ _ hm => ⟨.refl _, { hm with journals := hm.journals.append [e] }⟩

theorem noting {events : Except Halt α → List (Event P)} (hx : Independent Q x)
    (hevents : ∀ halt halt', events (.error halt) = events (.error halt')) :
    Independent Q (x.noting events) := by
  intro a₁ a₂ m₁ m₂ hm
  obtain ⟨outcome₁, outcome₂, m₁', m₂', h₁, h₂, ho, hm'⟩ := (hx a₁ a₂).elim hm
  have hsame : events outcome₁ = events outcome₂ := by
    cases ho with
    | ok a => rfl
    | failed | outOfFuel => exact hevents _ _
  unfold Exec.noting
  rw [h₁, h₂]
  dsimp only
  rw [hsame]
  exact ⟨ho, { hm' with journals := hm'.journals.append _ }⟩

theorem root (name : String) : Independent Q (Exec.root prog name) := by
  intro a₁ a₂ m₁ m₂ hm
  have hresolve := congrFun (hm.resolveRoot? prog) name
  cases h : prog.resolveRoot? m₂ name with
  | none =>
    rw [Exec.root_unbound (hresolve.trans h), Exec.root_unbound h]
    exact ⟨.refl _, hm⟩
  | some v =>
    rw [Exec.root_bound (hresolve.trans h), Exec.root_bound h]
    exact ⟨.refl _, hm⟩

theorem scoping {f : Scopes → Scopes} {g : Sight → Sight} (hseen : ∀ s, (f s).seen = g s.seen)
    (hconfined : ∀ s, Scopes.Confined s (f s)) : Independent Q (Exec.scoping (P := P) f) :=
  fun _ _ _ _ hm => ⟨.refl _, hm.scoping hseen hconfined⟩

theorem withScope (hx : Independent Q x) : Independent Q (Exec.withScope x) := by
  intro a₁ a₂ m₁ m₂ hm
  obtain ⟨ho, hm'⟩ := hx _ _ _ _ hm.enterBlock
  rw [Exec.withScope_apply, Exec.withScope_apply]
  exact ⟨ho, hm.leaveBlock hm'⟩

theorem withFunction {f : Declaration} {site : Option Position} (hx : Independent Q x) :
    Independent Q (Exec.withFunction f site x) := by
  intro a₁ a₂ m₁ m₂ hm
  have hcall := Exec.withFunction_peers (f := f) hx hm.peers hm.operands site site
  exact ⟨hcall.outcome, hm.returned hcall⟩

theorem top {x : Exec P Unit} (hx : Independent Eq x) : Independent Q (Exec.top x) := by
  intro a₁ a₂ m₁ m₂ hm
  obtain ⟨ho, hm'⟩ := hx a₁ a₂ _ _ (hm.on (R := Eq) (rfl : ([] : Operands) = []))
  rw [Exec.top_apply, Exec.top_apply, hm'.operands]
  exact ⟨ho.map _, hm'.on hm.operands⟩

theorem operand {p : Position} {x : Exec P Unit} (hx : Independent Eq x) :
    Independent Eq (Exec.operand p x) := by
  intro a₁ a₂ m₁ m₂ hm
  obtain ⟨_, _, m₁', m₂', h₁, h₂, ho, hm'⟩ := (hx a₁ a₂).elim hm
  cases ho with
  | ok =>
    by_cases hlength : m₂'.operands.length = m₂.operands.length
    · rw [Exec.operand_empty h₁ (by rw [hm.operands, hm'.operands, hlength]),
        Exec.operand_empty h₂ hlength]
      exact ⟨.refl _, hm'⟩
    · rw [Exec.operand_ok h₁ (by rwa [hm.operands, hm'.operands]), Exec.operand_ok h₂ hlength]
      exact ⟨.refl _, hm'⟩
  | failed hc hp =>
    rw [Exec.operand_error h₁, Exec.operand_error h₂]
    exact ⟨.failed hc hp, hm'⟩
  | outOfFuel =>
    rw [Exec.operand_error h₁, Exec.operand_error h₂]
    exact ⟨.outOfFuel, hm'⟩

theorem operate (task : Calculator Unit) : Independent Eq (Exec.operate task : Exec P Unit) := by
  intro a₁ a₂ m₁ m₂ hm
  unfold Exec.operate
  rw [hm.operands]
  exact ⟨.refl _, hm.on rfl⟩

theorem operateOn (task : View → Calculator Unit) :
    Independent Eq (do Exec.operate (task (← Exec.view)) : Exec P Unit) :=
  fun a₁ a₂ => (Exec.Alike.ended (fun _ => rfl) fun _ _ hm => congrArg Except.ok hm.view).bind
    fun view => operate (task view) a₁ a₂

end Independent

theorem independent_lenient (prog : Program P) :
    Lenient prog fun x => ∀ Q, Independent Q x where
  pure _ _ _ _ := .ended (fun _ => rfl) fun _ _ _ => rfl
  bind hx hf Q _ _ := (hx Q _ _).bind fun a => hf a Q _ _
  world _ _ _ := .ended (fun _ => rfl) fun _ _ hm => congrArg Except.ok hm.world
  act {_} {x} _ _ := .act x
  note _ _ := .note _
  noting hx _ hevents Q := (hx Q).noting hevents
  located _ hx Q _ _ := (hx Q _ _).located
  andThen hx hy Q _ _ := (hx Q _ _).andThen (hy Q _ _)

def independence (prog : Program P) : Discipline prog where
  keeps x := ∀ Q, Independent Q x
  yields := Independent Eq
  puts := Independent Eq
  pure := (independent_lenient prog).pure
  bind := (independent_lenient prog).bind
  fail _ _ _ _ := .ended (fun _ => rfl) fun _ _ _ => rfl
  outOfFuel _ _ _ := .ended (fun _ => rfl) fun _ _ _ => rfl
  world := (independent_lenient prog).world
  root name _ := .root name
  callee call _ _ _ := .ended (fun _ => rfl) fun _ _ hm => congrArg Except.ok (hm.callee? prog call)
  act h := (independent_lenient prog).act (.serves h)
  invoked _ := (independent_lenient prog).note trivial
  advance := (independent_lenient prog).advance
  define name v _ := .scoping (Scopes.seen_define · name v) (.define · name v)
  store name v _ := .scoping (Scopes.seen_store · name v) (.store · name v)
  located := (independent_lenient prog).located trivial
  traced hx Q _ _ := (hx Q _ _).traced
  recover hx hh htext Q _ _ := (hx Q _ _).recover (fun e => hh e Q _ _) htext
  finish hx hy Q _ _ := (hx Q _ _).finish (hy Q _ _)
  withScope hx Q := (hx Q).withScope
  withFunction hx Q := (hx Q).withFunction
  holding := (independent_lenient prog).holding trivial
  top hx _ := hx.top
  skip _ _ := .ended (fun _ => rfl) fun _ _ _ => rfl
  stuck _ _ := .ended (fun _ => rfl) fun _ _ _ => rfl
  after hx hf _ _ := (hx Eq _ _).bind fun a => hf a _ _
  placed hx _ _ := (hx _ _).located
  weaken := id
  push _ := .operate _
  operand := .operand
  unary _ hx _ _ := (hx _ _).bind fun _ => Independent.operateOn _ _ _
  binary _ hx hy _ _ := (hx _ _).bind fun _ => (hy.operand _ _).bind fun _ =>
    Independent.operateOn _ _ _

/-- Whatever function is called with whatever arguments: from machines that agree on the objects, on
the global names, and on how many calls are in progress and may be, it ends with the same value, or
with a failure of the same cause at the same position; it asks the same of the host on the way, and
it leaves the same objects and the same global names. -/
theorem callScript_independent (prog : Program P) (fuel : Nat) (f : Declaration) (args : List Value)
    (site₁ site₂ : Option Position) {m₁ m₂ : Machine P} (h : m₁.Peers m₂) :
    SameOutcome ((prog.evaluator fuel).callScript f args site₁ m₁).1
        ((prog.evaluator fuel).callScript f args site₂ m₂).1 ∧
      SameMarks m₁.journal m₂.journal
        ((prog.evaluator fuel).callScript f args site₁ m₁).2.journal
        ((prog.evaluator fuel).callScript f args site₂ m₂).2.journal ∧
      ((prog.evaluator fuel).callScript f args site₁ m₁).2.Peers
        ((prog.evaluator fuel).callScript f args site₂ m₂).2 := by
  have hbody := (independence prog).body ((independence prog).parts fuel) f args
  unfold Evaluator.callScript
  split
  · have hcall :=
      Exec.withFunction_peers (f := f) (hbody fun _ _ => True) h trivial site₁ site₂
    exact ⟨hcall.outcome, hcall.journals, hcall.peers⟩
  · exact ⟨.refl _, .refl _ _, h⟩

namespace Workbench

/-- The function `func bump() { log(total); total += 1; return total }`. -/
def bump : Declaration :=
  ⟨"bump", [],
    [⟨.expr ⟨.call ⟨"log", [variableNamed "total"], false, here⟩, here⟩, here⟩,
      ⟨.expr ⟨.assign ⟨[⟨"total", []⟩]⟩ (.compound .add) ⟨.int 1, here⟩,
        here⟩, here⟩,
      ⟨.ret (some (variableNamed "total")), here⟩], here⟩

def counting : Machine platform :=
  { Session.start ⟨[], .empty, none, [("total", .int 1)]⟩ world with
    calls := ⟨[⟨"outer", none⟩], none⟩ }

/-- The same machine in a block of another caller, which has a `total` of its own and an operand. -/
def countingElsewhere : Machine platform :=
  { counting with
    operands := [.int 7]
    scopes := counting.scopes.push.define "total" (.int 5)
    calls := ⟨[⟨"bump", some here⟩], none⟩
    current := some bump }

/-- The function sees the global `total` from both machines, and changes that one. -/
theorem bump_independent : counting.Peers countingElsewhere ∧
    number? ((logging.evaluator 3).callScript bump [] none counting).1 = some 2 ∧
    logged ((logging.evaluator 3).callScript bump [] none counting).2 = ["log 1"] ∧
    SameOutcome ((logging.evaluator 3).callScript bump [] none counting).1
      ((logging.evaluator 3).callScript bump [] (some here) countingElsewhere).1 ∧
    ((logging.evaluator 3).callScript bump [] none counting).2.Peers
      ((logging.evaluator 3).callScript bump [] (some here) countingElsewhere).2 := by
  have hpeers : counting.Peers countingElsewhere := ⟨rfl, rfl, rfl, rfl⟩
  have hnumber : number? ((logging.evaluator 3).callScript bump [] none counting).1 = some 2 := by
    decide +kernel
  have hlog : logged ((logging.evaluator 3).callScript bump [] none counting).2 = ["log 1"] := by
    decide +kernel
  obtain ⟨houtcome, -, hafter⟩ :=
    callScript_independent logging 3 bump [] none (some here) hpeers
  exact ⟨hpeers, hnumber, hlog, houtcome, hafter⟩

end Workbench

end HostScript
