import HostScript.Proofs.Exec.Discipline
import HostScript.Workbench.Scripts
import Mathlib.Data.List.Basic

/-!
# Expressions and the operands below them

The operands of all nested expressions are on one stack. An expression works on top of what it finds
there: it runs the same whatever that is, and leaves it there, with at most one value more
(`evalExpr_framed`). No operator finds too few operands, since one that has put no value on the
stack stops the expression it stands in.
-/

namespace HostScript

variable {P : Platform} {α β : Type}

def Machine.on (m : Machine P) (operands : Operands) : Machine P :=
  { m with operands }

def Machine.atop (m : Machine P) (below : Operands) : Machine P :=
  { m with operands := m.operands ++ below }

-- ---------------------------------------------------------------------------
-- Who is to blame
-- ---------------------------------------------------------------------------

/-- The journal has only grown, and if the outcome is a misuse of the calculator, the host has
returned one of that cause in the meantime. -/
def Blames (H : Host P) (before after : List (Event P)) (outcome : Except Halt α) : Prop :=
  ∃ events, after = events ++ before ∧
    ∀ e, outcome = .error (.failed e) → e.cause.IsMisuse →
      ∃ g, .faulted g ∈ events ∧ H.Returns g ∧ g.cause = e.cause

namespace Blames

variable {H : Host P} {before mid after : List (Event P)} {outcome : Except Halt α}

theorem ok (a : α) (h : before <:+ after) : Blames H before after (.ok a : Except Halt α) := by
  obtain ⟨events, rfl⟩ := h
  exact ⟨events, rfl, fun _ => nofun⟩

theorem failed {e : Failure} (he : ¬ e.cause.IsMisuse) (h : before <:+ after) :
    Blames H before after (.error (.failed e) : Except Halt α) := by
  obtain ⟨events, rfl⟩ := h
  refine ⟨events, rfl, ?_⟩
  rintro _ ⟨⟩ hm
  exact absurd hm he

theorem suffix (h : Blames H before after outcome) : before <:+ after := by
  obtain ⟨events, rfl, -⟩ := h
  exact List.suffix_append events before

theorem earlier (h : before <:+ mid) (hb : Blames H mid after outcome) :
    Blames H before after outcome := by
  obtain ⟨first, rfl⟩ := h
  obtain ⟨events, rfl, hblame⟩ := hb
  refine ⟨events ++ first, (List.append_assoc ..).symm, fun e he hm => ?_⟩
  obtain ⟨g, hg, hcause⟩ := hblame e he hm
  exact ⟨g, List.mem_append_left first hg, hcause⟩

theorem later (hb : Blames H before mid outcome) (h : mid <:+ after) :
    Blames H before after outcome := by
  obtain ⟨events, rfl, hblame⟩ := hb
  obtain ⟨last, rfl⟩ := h
  refine ⟨last ++ events, (List.append_assoc ..).symm, fun e he hm => ?_⟩
  obtain ⟨g, hg, hcause⟩ := hblame e he hm
  exact ⟨g, List.mem_append_right last hg, hcause⟩

theorem congr {outcome' : Except Halt β} (hb : Blames H before after outcome)
    (h : ∀ e, outcome' = .error (.failed e) →
      ∃ e', outcome = .error (.failed e') ∧ e'.cause = e.cause) :
        Blames H before after outcome' := by
  obtain ⟨events, rfl, hblame⟩ := hb
  refine ⟨events, rfl, fun e he hm => ?_⟩
  obtain ⟨e', he', hcause⟩ := h e he
  exact hcause ▸ hblame e' he' (hcause ▸ hm)

end Blames

-- ---------------------------------------------------------------------------
-- Computations over operands
-- ---------------------------------------------------------------------------

/-- From a machine a computation runs the same over any operands below, and it fails for misuse of
the calculator only if the host does. -/
structure FramedAt (H : Host P) (x : Exec P α) (m : Machine P) : Prop where
  anywhere : ∀ below, x (m.atop below) = ((x m).1, (x m).2.atop below)
  blames : Blames H m.journal (x m).2.journal (x m).1

namespace FramedAt

variable {H : Host P} {m m' : Machine P} {x : Exec P α}

theorem intro (outcome : Except Halt α) (m' : Machine P) (hm : x m = (outcome, m'))
    (hover : ∀ below, x (m.atop below) = (outcome, m'.atop below))
    (hb : Blames H m.journal m'.journal outcome) : FramedAt H x m :=
  ⟨fun below => by rw [hover below, hm], by rw [hm]; exact hb⟩

theorem elim {outcome : Except Halt α} (h : FramedAt H x m) (hm : x m = (outcome, m')) :
    (∀ below, x (m.atop below) = (outcome, m'.atop below)) ∧
      Blames H m.journal m'.journal outcome := by
  obtain ⟨hover, hb⟩ := h
  rw [hm] at hover hb
  exact ⟨hover, hb⟩

theorem ended {outcome : Except Halt α} (h : ∀ below, x (m.atop below) = (outcome, m.atop below))
    (hm : x m = (outcome, m)) (ho : ∀ e, outcome = .error (.failed e) → ¬ e.cause.IsMisuse) :
    FramedAt H x m :=
  intro outcome m hm h ⟨[], rfl, fun e he hm => absurd hm (ho e he)⟩

theorem bind {f : α → Exec P β} (hx : FramedAt H x m)
    (hf : ∀ a m', x m = (.ok a, m') → FramedAt H (f a) m') : FramedAt H (x >>= f) m := by
  rcases hm : x m with ⟨halt | a, m'⟩
  · obtain ⟨hover, hb⟩ := hx.elim hm
    refine intro _ m' (Exec.bind_error hm) (fun below => Exec.bind_error (hover below)) ?_
    exact hb.congr fun e he => ⟨e, congrArg _ (Except.error.inj he), rfl⟩
  · obtain ⟨hover, hb⟩ := hx.elim hm
    rcases hm' : f a m' with ⟨outcome, m''⟩
    obtain ⟨hover', hb'⟩ := (hf a m' hm).elim hm'
    exact intro outcome m'' ((Exec.bind_ok hm).trans hm')
      (fun below => (Exec.bind_ok (hover below)).trans (hover' below)) (hb'.earlier hb.suffix)

theorem mapFailure {f : Machine P → Failure → Failure} (hx : FramedAt H x m)
    (hover : ∀ m below, f (Machine.atop m below) = f m)
    (hcause : ∀ m e, (f m e).cause = e.cause) : FramedAt H (x.mapFailure f) m := by
  refine ⟨fun below => ?_, ?_⟩
  · rw [Exec.mapFailure_apply, Exec.mapFailure_apply, hx.anywhere below]
    exact congrArg (Exec.changed · _, _) (hover _ below)
  · have hmachine : (x.mapFailure f m).2 = (x m).2 := by rw [Exec.mapFailure_apply]
    rw [hmachine]
    refine hx.blames.congr fun e he => ?_
    obtain ⟨e', he', rfl⟩ := Exec.mapFailure_eq_failed.mp he
    exact ⟨e', he', (hcause _ e').symm⟩

theorem located {p : Position} (hx : FramedAt H x m) : FramedAt H (x.located p) m :=
  hx.mapFailure (fun _ _ => rfl) fun _ _ => rfl

theorem traced (hx : FramedAt H x m) : FramedAt H x.traced m := by
  refine hx.mapFailure (fun _ _ => rfl) fun m e => ?_
  unfold Calls.attach
  split <;> rfl

theorem recover {handler : Failure → Exec P α} (hx : FramedAt H x m)
    (hh : ∀ e m', FramedAt H (handler e) m') : FramedAt H (x.recover handler) m := by
  rcases hm : x m with ⟨(e | _) | a, m'⟩ <;> obtain ⟨hover, hb⟩ := hx.elim hm
  · rcases hm' : handler e m' with ⟨outcome, m''⟩
    obtain ⟨hover', hb'⟩ := (hh e m').elim hm'
    exact intro outcome m'' ((Exec.recover_failed hm).trans hm')
      (fun below => (Exec.recover_failed (hover below)).trans (hover' below))
        (hb'.earlier hb.suffix)
  · exact intro _ m' (Exec.recover_outOfFuel hm)
      (fun below => Exec.recover_outOfFuel (hover below)) hb
  · exact intro _ m' (Exec.recover_ok hm) (fun below => Exec.recover_ok (hover below)) hb

theorem finish {x cleanup : Exec P Signal} (hx : FramedAt H x m)
    (hy : ∀ m', FramedAt H cleanup m') : FramedAt H (x.finish cleanup) m := by
  rcases hm : x m with ⟨outcome, m'⟩
  obtain ⟨hover, hb⟩ := hx.elim hm
  by_cases ho : outcome = .error .outOfFuel
  · subst ho
    exact intro _ m' (Exec.finish_outOfFuel hm)
      (fun below => Exec.finish_outOfFuel (hover below)) hb
  · rcases hm' : cleanup m' with ⟨after, m''⟩
    obtain ⟨hover', hb'⟩ := (hy m').elim hm'
    refine intro (Exec.overriding outcome after) m'' ?_ (fun below => ?_) ?_
    · rw [Exec.finish_apply hm ho, hm']
    · rw [Exec.finish_apply (hover below) ho, hover' below]
    -- Only a cleanup that ends normally leaves the outcome, and with it the blame, to what it
    -- follows.
    · rcases after with halt | (_ | _ | _ | v)
      · exact hb'.earlier hb.suffix
      · exact hb.later hb'.suffix
      · exact hb'.earlier hb.suffix
      · exact hb'.earlier hb.suffix
      · exact hb'.earlier hb.suffix

theorem andThen {y : Exec P Unit} (hx : FramedAt H x m) (hy : ∀ m', FramedAt H y m') :
    FramedAt H (x.andThen y) m := by
  rcases hm : x m with ⟨outcome, m'⟩
  obtain ⟨hover, hb⟩ := hx.elim hm
  rcases hm' : y m' with ⟨after, m''⟩
  obtain ⟨hover', hb'⟩ := (hy m').elim hm'
  refine intro (Exec.firstFailure outcome after) m'' ?_ (fun below => ?_) ?_
  · rw [Exec.andThen_apply, hm, hm']
  · rw [Exec.andThen_apply, hover below, hover' below]
  · rcases outcome with halt | a
    · exact hb.later hb'.suffix
    · rcases after with halt | ⟨⟩
      · exact (hb'.earlier hb.suffix).congr fun e he =>
          ⟨e, congrArg _ (Except.error.inj he), rfl⟩
      · exact .ok a (hb.suffix.trans hb'.suffix)

theorem noting {events : Except Halt α → List (Event P)} (hx : FramedAt H x m) :
    FramedAt H (x.noting events) m := by
  refine ⟨fun below => ?_, hx.blames.later (List.suffix_append _ _)⟩
  unfold Exec.noting
  rw [hx.anywhere below]
  rfl

theorem withScope (hx : FramedAt H x m.enterBlock) : FramedAt H (Exec.withScope x) m := by
  refine ⟨fun below => ?_, hx.blames.later (List.suffix_cons _ _)⟩
  have h : x (m.atop below).enterBlock = _ := hx.anywhere below
  rw [Exec.withScope_apply, Exec.withScope_apply, h]
  rfl

theorem withFunction {f : Declaration} {site : Option Position}
    (hx : ∀ calls, FramedAt H x (m.enterCall f calls)) :
    FramedAt H (Exec.withFunction f site x) m := by
  cases hc : m.calls.push ⟨f.name, site⟩ with
  | error e =>
    refine intro _ _ (Exec.withFunction_refused hc) (fun below => Exec.withFunction_refused hc) ?_
    obtain ⟨limit, rfl⟩ := Calls.push_refuses hc
    exact .failed (fun h => h) (List.suffix_cons _ _)
  | ok calls =>
    refine intro _ _ (Exec.withFunction_entered hc) (fun below => ?_) ?_
    · rw [Exec.withFunction_entered (m := m.atop below) hc]
      have h := (hx calls).anywhere below
      change x ((m.atop below).enterCall f calls) = _ at h
      rw [h]
      rfl
    · exact ((hx calls).blames.earlier (List.suffix_cons _ _)).later (List.suffix_cons _ _)

theorem act {x : Act P α} (h : H.AnswersFor id x) : FramedAt H (Exec.act x) m := by
  rcases hw : x m.world with ⟨e | a, w⟩
  · refine intro _ _ (Exec.act_error hw) (fun below => Exec.act_error hw)
      ⟨[.faulted e], rfl, ?_⟩
    rintro _ ⟨⟩ hm
    have hreturned :=
      (h m.world e (congrArg Prod.fst hw)).resolve_left fun hplain => hplain.cause hm
    exact ⟨e, List.mem_singleton_self _, hreturned, rfl⟩
  · exact intro _ _ (Exec.act_ok hw) (fun below => Exec.act_ok hw) (.ok a List.suffix_rfl)

theorem note (e : Event P) : FramedAt H (Exec.note e) m :=
  intro (.ok ()) _ rfl (fun _ => rfl) (.ok () (List.suffix_cons _ _))

theorem top {x : Exec P Unit} (hx : FramedAt H x { m with operands := [] }) :
    FramedAt H (Exec.top x) m := by
  refine intro _ _ (Exec.top_apply x m) (fun below => Exec.top_apply x (m.atop below)) ?_
  refine hx.blames.congr fun e he => ⟨e, ?_, rfl⟩
  cases ho : (x { m with operands := [] }).1 with
  | error halt =>
    rw [ho] at he
    exact congrArg _ (Except.error.inj he)
  | ok a =>
    rw [ho] at he
    cases he

theorem operand {p : Position} {x : Exec P Unit} (hx : FramedAt H x m) :
    FramedAt H (Exec.operand p x) m := by
  rcases hm : x m with ⟨halt | ⟨⟩, m'⟩
  · obtain ⟨hover, hb⟩ := hx.elim hm
    exact intro _ m' (Exec.operand_error hm) (fun below => Exec.operand_error (hover below)) hb
  · obtain ⟨hover, hb⟩ := hx.elim hm
    by_cases hlength : m'.operands.length = m.operands.length
    · refine intro _ m' (Exec.operand_empty hm hlength) (fun below => ?_)
        (.failed (fun h => h) hb.suffix)
      refine Exec.operand_empty (hover below) ?_
      simp only [Machine.atop, List.length_append, hlength]
    · refine intro _ m' (Exec.operand_ok hm hlength) (fun below => ?_) hb
      refine Exec.operand_ok (hover below) fun h => hlength ?_
      simpa only [Machine.atop, List.length_append, Nat.add_right_cancel_iff] using h

end FramedAt

def SameOperands (m m' : Machine P) : Prop :=
  m'.operands = m.operands

instance : IsPreorder (Machine P) SameOperands where
  refl _ := rfl
  trans _ _ _ h h' := h'.trans h

structure Keeps (H : Host P) (x : Exec P α) : Prop where
  framed : ∀ m, FramedAt H x m
  operands : Exec.Leads SameOperands x

namespace Keeps

variable {H : Host P} {prog : Program P} {x : Exec P α}

theorem ended {outcome : Except Halt α} (h : ∀ m, x m = (outcome, m))
    (ho : ∀ e, outcome = .error (.failed e) → ¬ e.cause.IsMisuse) : Keeps H x :=
  ⟨fun m => .ended (fun _ => h _) (h m) ho, fun m => by rw [h m]; rfl⟩

theorem bind {f : α → Exec P β} (hx : Keeps H x) (hf : ∀ a, Keeps H (f a)) :
    Keeps H (x >>= f) :=
  ⟨fun m => (hx.framed m).bind fun a m' _ => (hf a).framed m',
    hx.operands.bind fun a => (hf a).operands⟩

theorem act {x : Act P α} (h : prog.host.Offers x) : Keeps prog.host (Exec.act x) := by
  refine ⟨fun m => .act h.answers, fun m => ?_⟩
  unfold Exec.act
  split <;> rfl

theorem scoping (f : Scopes → Scopes) : Keeps H (Exec.scoping f : Exec P Unit) :=
  ⟨fun _ => .intro (.ok ()) _ rfl (fun _ => rfl) (.ok () List.suffix_rfl), fun _ => rfl⟩

theorem root (name : String) : Keeps H (Exec.root prog name) := by
  refine ⟨fun m => ?_, fun m => ?_⟩ <;> cases h : prog.resolveRoot? m name
  · exact .intro _ _ (Exec.root_unbound h) (fun below => Exec.root_unbound h)
      (.failed (fun h => h) List.suffix_rfl)
  · exact .intro _ _ (Exec.root_bound h) (fun below => Exec.root_bound h) (.ok _ List.suffix_rfl)
  · rw [Exec.root_unbound h]
    rfl
  · rw [Exec.root_bound h]
    rfl

theorem withScope (hx : Keeps H x) : Keeps H (Exec.withScope x) :=
  ⟨fun _ => (hx.framed _).withScope, fun m => hx.operands m.enterBlock⟩

theorem withFunction {f : Declaration} {site : Option Position} (hx : Keeps H x) :
    Keeps H (Exec.withFunction f site x) := by
  refine ⟨fun m => .withFunction fun calls => hx.framed _, fun m => ?_⟩
  cases hc : m.calls.push ⟨f.name, site⟩ with
  | error e =>
    rw [Exec.withFunction_refused hc]
    rfl
  | ok calls =>
    rw [Exec.withFunction_entered hc]
    exact hx.operands (m.enterCall f calls)

theorem top {x : Exec P Unit} (hx : ∀ m, FramedAt H x m) : Keeps H (Exec.top x) := by
  refine ⟨fun m => .top (hx _), fun m => ?_⟩
  rw [Exec.top_apply]
  rfl

end Keeps

/-- From a machine a computation puts operands on top of given ones, so many as allowed
unless it fails. -/
structure AddsAt (H : Host P) (allowed : Nat → Prop) (x : Exec P Unit) (rest : Operands)
    (m : Machine P) : Prop where
  framed : FramedAt H x m
  added : ∃ new, (x m).2.operands = new ++ rest ∧ ((x m).1 = .ok () → allowed new.length)

namespace AddsAt

variable {H : Host P} {allowed allowed' : Nat → Prop} {x : Exec P Unit} {rest : Operands}
  {m : Machine P}

theorem elim {m' : Machine P} {outcome : Except Halt Unit} (h : AddsAt H allowed x rest m)
    (hm : x m = (outcome, m')) :
    ∃ new, m'.operands = new ++ rest ∧ (outcome = .ok () → allowed new.length) := by
  have hadded := h.added
  rwa [hm] at hadded

theorem weaken (hx : AddsAt H allowed x rest m) (h : ∀ n, allowed n → allowed' n) :
    AddsAt H allowed' x rest m := by
  obtain ⟨hframed, new, hnew, hallowed⟩ := hx
  exact ⟨hframed, new, hnew, fun ho => h _ (hallowed ho)⟩

theorem located {p : Position} (hx : AddsAt H allowed x rest m) :
    AddsAt H allowed (x.located p) rest m := by
  obtain ⟨hframed, new, hnew, hallowed⟩ := hx
  refine ⟨hframed.located, new, ?_, ?_⟩
  · rw [Exec.located, Exec.mapFailure_apply]
    exact hnew
  · rw [Exec.located, Exec.mapFailure_apply]
    exact fun ho => hallowed (Exec.changed_eq_ok.mp ho)

theorem bind {f : Unit → Exec P Unit} (hx : AddsAt H allowed x rest m)
    (hf : ∀ new m', allowed new.length → m'.operands = new ++ rest →
      AddsAt H allowed' (f ()) rest m') : AddsAt H allowed' (x >>= f) rest m := by
  refine ⟨hx.framed.bind fun a m' hm => ?_, ?_⟩
  · obtain ⟨new, hnew, hallowed⟩ := hx.elim hm
    exact (hf new m' (hallowed rfl) hnew).framed
  · rcases Exec.bind_cases x f m with ⟨halt, m', hm, hb⟩ | ⟨a, m', hm, hb⟩ <;>
      obtain ⟨new, hnew, hallowed⟩ := hx.elim hm <;> rw [hb]
    · exact ⟨new, hnew, nofun⟩
    · exact (hf new m' (hallowed rfl) hnew).added

theorem operate {task : Calculator Unit} {answer : Except Failure Value}
    (h : ∀ below, task (m.operands ++ below) =
      match answer with
      | .ok v => (.ok (), v :: (rest ++ below))
      | .error e => (.error e, rest ++ below))
    (ha : Ordinary answer) : AddsAt H (· = 1) (Exec.operate task) rest m := by
  have hm := h []
  rw [List.append_nil, List.append_nil] at hm
  cases answer with
  | ok v =>
    have hrun : Exec.operate task m = (.ok (), { m with operands := v :: rest }) := by
      rw [Exec.operate, hm]
      rfl
    refine ⟨.intro _ _ hrun (fun below => ?_) (.ok () List.suffix_rfl), [v], ?_, fun _ => rfl⟩
    · rw [Exec.operate, Machine.atop, h below]
      rfl
    · rw [hrun]
      rfl
  | error e =>
    have hrun : Exec.operate task m = (.error (.failed e), { m with operands := rest }) := by
      rw [Exec.operate, hm]
      rfl
    refine ⟨.intro _ _ hrun (fun below => ?_) (.failed (ha e rfl).cause List.suffix_rfl), [],
      ?_, ?_⟩
    · rw [Exec.operate, Machine.atop, h below]
      rfl
    · rw [hrun]
      rfl
    · rw [hrun]
      rintro ⟨⟩

theorem operateOn {task : View → Calculator Unit}
    (h : AddsAt H allowed (Exec.operate (task m.world.view)) rest m) :
    AddsAt H allowed (do Exec.operate (task (← Exec.view))) rest m := by
  have hview : FramedAt H (Exec.view : Exec P View) m := .ended (fun _ => rfl) rfl (fun _ => nofun)
  refine ⟨hview.bind fun view m' hm => ?_, ?_⟩
  · cases hm
    exact h.framed
  · rw [Exec.bind_ok (Exec.view_apply m)]
    exact h.added

theorem unary {op : UnaryOp} {v : Value} (h : m.operands = v :: rest) :
    AddsAt H (· = 1) (Exec.unary op) rest m := by
  refine operateOn (operate (fun below => ?_) (m.world.view.unaryNamed_ordinary op v))
  rw [h]
  exact Calculator.unary_apply _ _ _ _

theorem binary {op : BinaryOp} {a b : Value} (h : m.operands = b :: a :: rest) :
    AddsAt H (· = 1) (Exec.binary op) rest m := by
  refine operateOn (operate (fun below => ?_) (m.world.view.binaryNamed_ordinary op a b))
  rw [h]
  exact Calculator.binary_apply _ _ _ _ _

end AddsAt

def Adds (H : Host P) (allowed : Nat → Prop) (x : Exec P Unit) : Prop :=
  ∀ m, AddsAt H allowed x m.operands m

namespace Adds

variable {H : Host P} {allowed allowed' : Nat → Prop} {x : Exec P Unit}

theorem after {x : Exec P α} {f : α → Exec P Unit} (hx : Keeps H x)
    (hf : ∀ a, Adds H allowed (f a)) : Adds H allowed (x >>= f) := by
  intro m
  refine ⟨(hx.framed m).bind fun a m' _ => (hf a m').framed, ?_⟩
  have hkept : (x m).2.operands = m.operands := hx.operands m
  rcases Exec.bind_cases x f m with ⟨halt, m', hm, hb⟩ | ⟨a, m', hm, hb⟩ <;>
    rw [hm] at hkept
  · rw [hb]
    exact ⟨[], hkept, nofun⟩
  · rw [hb, ← hkept]
    exact (hf a m').added

theorem push (v : Value) : Adds H (· = 1) (Exec.push v : Exec P Unit) :=
  fun _ => .operate (fun _ => rfl) (Ordinary.ok v)

theorem operand {p : Position} (hx : Adds H (· ≤ 1) x) : Adds H (· = 1) (Exec.operand p x) := by
  refine fun m => ⟨(hx m).framed.operand, ?_⟩
  rcases hm : x m with ⟨halt | ⟨⟩, m'⟩ <;>
    obtain ⟨new, hnew, hallowed⟩ := (hx m).elim hm
  · rw [Exec.operand_error hm]
    exact ⟨new, hnew, nofun⟩
  · by_cases hlength : m'.operands.length = m.operands.length
    · rw [Exec.operand_empty hm hlength]
      exact ⟨new, hnew, nofun⟩
    · rw [Exec.operand_ok hm hlength]
      refine ⟨new, hnew, fun _ => ?_⟩
      have hfew := hallowed rfl
      rw [hnew, List.length_append] at hlength
      omega

theorem unary (op : UnaryOp) (hx : Adds H (· = 1) x) :
    Adds H (· = 1) (x >>= fun _ => Exec.unary op) := by
  refine fun m => (hx m).bind fun new m' hlength hm' => ?_
  obtain ⟨v, rfl⟩ := List.length_eq_one_iff.mp hlength
  exact .unary hm'

theorem binary {y : Exec P Unit} {p : Position} (op : BinaryOp) (hx : Adds H (· = 1) x)
    (hy : Adds H (· ≤ 1) y) :
    Adds H (· = 1) (x >>= fun _ => Exec.operand p y >>= fun _ => Exec.binary op) := by
  refine fun m => (hx m).bind fun left m' hlength hm' => ?_
  obtain ⟨a, rfl⟩ := List.length_eq_one_iff.mp hlength
  -- Both operands are counted from where the first one was put.
  have hright : AddsAt H (· = 2) (Exec.operand p y) m.operands m' := by
    obtain ⟨hframed, right, hright, hallowed⟩ := hy.operand (p := p) m'
    refine ⟨hframed, right ++ [a], ?_, fun ho => ?_⟩
    · rw [hright, hm', List.append_assoc]
    · rw [List.length_append, hallowed ho]
      rfl
  refine hright.bind fun new m'' hlength hm'' => ?_
  obtain ⟨b, a, rfl⟩ := List.length_eq_two.mp hlength
  exact .binary hm''

end Adds

theorem keeps_lenient (prog : Program P) : Lenient prog (Keeps prog.host) where
  pure _ := .ended (fun _ => rfl) fun _ => nofun
  bind := .bind
  world := ⟨fun _ => .ended (fun _ => rfl) rfl (fun _ => nofun), fun _ => rfl⟩
  act := .act
  note _ := ⟨fun _ => .note _, fun _ => rfl⟩
  noting hx _ _ := ⟨fun m => (hx.framed m).noting, hx.operands⟩
  located _ hx := ⟨fun m => (hx.framed m).located, hx.operands.mapFailure⟩
  andThen hx hy := ⟨fun m => (hx.framed m).andThen hy.framed, hx.operands.andThen hy.operands⟩

def framing (prog : Program P) : Discipline prog where
  keeps := Keeps prog.host
  yields := Adds prog.host (· ≤ 1)
  puts := Adds prog.host (· = 1)
  pure := (keeps_lenient prog).pure
  bind := .bind
  fail h := .ended (fun _ => rfl) (by rintro _ ⟨⟩; exact h)
  outOfFuel := .ended (fun _ => rfl) fun _ => nofun
  world := (keeps_lenient prog).world
  root := .root
  callee _ := ⟨fun _ => .ended (fun _ => rfl) rfl (fun _ => nofun), fun _ => rfl⟩
  act h := .act (.serves h)
  invoked _ := (keeps_lenient prog).note trivial
  advance := (keeps_lenient prog).advance
  define _ _ := .scoping _
  store _ _ := .scoping _
  located := (keeps_lenient prog).located trivial
  traced hx := ⟨fun m => (hx.framed m).traced, hx.operands.mapFailure⟩
  recover hx hh _ := ⟨fun m => (hx.framed m).recover fun e => (hh e).framed,
    hx.operands.recover fun e => (hh e).operands⟩
  finish hx hy := ⟨fun m => (hx.framed m).finish hy.framed, hx.operands.finish hy.operands⟩
  withScope := .withScope
  withFunction := .withFunction
  holding := (keeps_lenient prog).holding trivial
  top hx := .top fun m => (hx m).framed
  skip m := ⟨.ended (fun _ => rfl) rfl (fun _ => nofun), [], rfl, fun _ => Nat.zero_le 1⟩
  stuck m := ⟨.ended (fun _ => rfl) rfl (fun _ => nofun), [], rfl, nofun⟩
  after := .after
  placed hx m := (hx m).located
  weaken hx m := (hx m).weaken fun _ => Nat.le_of_eq
  push := .push
  operand := .operand
  unary := .unary
  binary := .binary

-- ---------------------------------------------------------------------------
-- Operands without a value
-- ---------------------------------------------------------------------------

def noOperand (e : Expr) : Failure :=
  (Failure.of (.noResult "operand")).locate e.pos

namespace Evaluator

variable {E : Evaluator P} {prog : Program P}

theorem chain_append (first second : List (BinaryOp × Expr)) :
    E.chain (first ++ second) = E.chain first >>= fun _ => E.chain second := by
  induction first with
  | nil => rfl
  | cons entry first ih =>
    obtain ⟨op, e⟩ := entry
    simp only [List.cons_append, chain, ih, bind_assoc]

theorem binary_append (first : Expr) (before rest : List (BinaryOp × Expr)) :
    E.exprForm prog (.binary first (before ++ rest)) =
      E.exprForm prog (.binary first before) >>= fun _ => E.chain rest := by
  simp only [exprForm, chain_append, bind_assoc]

theorem operand_missing {e : Expr} {m m' : Machine P} (h : E.expr e m = (.ok (), m'))
    (hsame : m'.operands = m.operands) : E.operand e m = (.error (.failed (noOperand e)), m') :=
  Exec.operand_empty h (congrArg List.length hsame)

theorem evalExpr_error {e whole : Expr} {m m' : Machine P}
    (h : E.exprForm prog whole.form m = (.error (.failed (noOperand e)), m')) :
    E.evalExpr prog whole m = (.error (.failed (noOperand e)), m') := by
  rw [evalExpr, Exec.located, Exec.mapFailure_apply, h]
  rfl

theorem evalExpr_ok {e : Expr} {m m' : Machine P} (h : E.evalExpr prog e m = (.ok (), m')) :
    E.exprForm prog e.form m = (.ok (), m') := by
  rw [evalExpr, Exec.located, Exec.mapFailure_apply] at h
  obtain ⟨ho, hm⟩ := Prod.ext_iff.mp h
  exact Prod.ext (Exec.changed_eq_ok.mp ho) hm

end Evaluator

/-- An expression runs over any operands as it does over none, with these left below. Over them it
has put at most one value when it ends, exactly one or none unless it fails. It fails for misuse of
the calculator only if a function or a capability of the host has returned that failure. An operand
that has put no value anywhere, be it that of a unary operator or the first or a later one of a
chain, ends the expression, in the state that it has left behind itself. -/
theorem evalExpr_over_operands (prog : Program P) (n : Nat) (e : Expr) (m : Machine P)
    (s : Operands) :
    prog.evalExpr n e (m.on s) =
        ((prog.evalExpr n e (m.on [])).1, (prog.evalExpr n e (m.on [])).2.atop s) ∧
      ((prog.evalExpr n e (m.on s)).1 = .ok () →
        (prog.evalExpr n e (m.on s)).2.operands = s ∨
          ∃ v, (prog.evalExpr n e (m.on s)).2.operands = v :: s) ∧
      s <:+ (prog.evalExpr n e (m.on s)).2.operands ∧
      (∀ failure, (prog.evalExpr n e (m.on s)).1 = .error (.failed failure) →
        failure.cause = .emptyStack ∨ (∃ op, failure.cause = .undefinedOperation op) →
          ∃ events, (prog.evalExpr n e (m.on s)).2.journal = events ++ m.journal ∧
            ∃ g, .faulted g ∈ events ∧ prog.host.Returns g ∧ g.cause = failure.cause) ∧
      ∀ m₁ m₂, prog.evalExpr n e m₁ = (.ok (), m₂) → m₂.operands = m₁.operands →
        (∀ op p, prog.evalExpr (n + 1) ⟨.unary op e, p⟩ m₁ =
          (.error (.failed (noOperand e)), m₂)) ∧
        (∀ rest p, prog.evalExpr (n + 1) ⟨.binary e rest, p⟩ m₁ =
          (.error (.failed (noOperand e)), m₂)) ∧
        ∀ first before op rest p q m₀,
          prog.evalExpr (n + 1) ⟨.binary first before, q⟩ m₀ = (.ok (), m₁) →
            prog.evalExpr (n + 1) ⟨.binary first (before ++ (op, e) :: rest), p⟩ m₀ =
              (.error (.failed (noOperand e)), m₂) := by
  have halone := (framing prog).evalExpr n e (m.on [])
  have hrun := (framing prog).evalExpr n e (m.on s)
  obtain ⟨new, hnew, hallowed⟩ := hrun.added
  refine ⟨halone.framed.anywhere s, fun ho => ?_, ⟨new, hnew.symm⟩,
    fun failure hf hmisuse => ?_,
    fun m₁ m₂ he hsame => ?_⟩
  · rw [hnew]
    match new, hallowed ho with
    | [], _ => exact .inl rfl
    | [v], _ => exact .inr ⟨v, rfl⟩
  · obtain ⟨events, hj, hblame⟩ := hrun.framed.blames
    refine ⟨events, hj, hblame failure hf ?_⟩
    rcases hmisuse with h | ⟨op, h⟩ <;> rw [h] <;> trivial
  · have hmissing := Evaluator.operand_missing (E := prog.evaluator n) he hsame
    refine ⟨fun op p => ?_, fun rest p => ?_, fun first before op rest p q m₀ hbefore => ?_⟩
    · exact Evaluator.evalExpr_error (Exec.bind_error hmissing)
    · exact Evaluator.evalExpr_error (Exec.bind_error hmissing)
    · refine Evaluator.evalExpr_error ?_
      rw [Evaluator.binary_append, Exec.bind_ok (Evaluator.evalExpr_ok hbefore)]
      exact Exec.bind_error hmissing

namespace Workbench

def logCall : Expr :=
  ⟨.call ⟨"log", [], false, ⟨"main", 1, 2⟩⟩, ⟨"main", 1, 2⟩⟩

/-- In `-log()` there is nothing to negate, and the `7` below stays. -/
theorem negated_log :
    logging.evalExpr 2 ⟨.unary .neg logCall, ⟨"main", 1, 1⟩⟩ (idle.on [.int 7]) =
      (.error (.failed (noOperand logCall)), (logging.evalExpr 1 logCall (idle.on [.int 7])).2) ∧
    (logging.evalExpr 1 logCall (idle.on [.int 7])).2.operands = [.int 7] := by
  have hlog : (logging.evalExpr 1 logCall (idle.on [.int 7])).1 = .ok () := by rfl
  have hsame : (logging.evalExpr 1 logCall (idle.on [.int 7])).2.operands = [.int 7] := by rfl
  obtain ⟨-, -, -, -, hmissing⟩ := evalExpr_over_operands logging 1 logCall idle [.int 7]
  exact ⟨(hmissing _ _ (Prod.ext hlog rfl) hsame).1 .neg ⟨"main", 1, 1⟩, hsame⟩

end Workbench

end HostScript
