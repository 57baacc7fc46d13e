import HostScript.Proofs.Exec.Backtraces

/-!
# The way out of a failure

From where it is raised, a failure comes by the nodes around it on its way out, and each of them
offers it a position. `Raises` tells that way. A failure takes the first position that it is offered
and keeps it (`Raises.fails`); and whatever fails in a statement, an expression or the body of a
function has been offered one there or in a function called from there
(`failures_keep_first_position`).
-/

namespace HostScript

variable {P : Platform} {prog : Program P} {α β : Type}

namespace Exec

/-- A computation ends with what was once this failure, and has been offered these positions on its
way out, the first one first. -/
inductive Raises :
    {α : Type} → Exec P α → Machine P → Failure → List Position → Prop where
  | raised {α : Type} {x : Exec P α} {m : Machine P} {e : Failure} :
    (x m).1 = .error (.failed e) → Raises x m e []
  | located {α : Type} {x : Exec P α} {m : Machine P} {e : Failure} {ps : List Position}
    {p : Position} : Raises x m e ps → Raises (x.located p) m e (ps ++ [p])
  | traced {α : Type} {x : Exec P α} {m : Machine P} {e : Failure} {ps : List Position} :
    Raises x m e ps → Raises x.traced m e ps
  | noting {α : Type} {x : Exec P α} {m : Machine P} {e : Failure} {ps : List Position}
    {events : Except Halt α → List (Event P)} :
    Raises x m e ps → Raises (x.noting events) m e ps
  | first {α β : Type} {x : Exec P α} {f : α → Exec P β} {m : Machine P} {e : Failure}
    {ps : List Position} : Raises x m e ps → Raises (x >>= f) m e ps
  | second {α β : Type} {x : Exec P α} {f : α → Exec P β} {m m' : Machine P}
    {a : α} {e : Failure}
    {ps : List Position} : x m = (.ok a, m') → Raises (f a) m' e ps → Raises (x >>= f) m e ps
  /-- What fails first goes no further: the handler ends with a failure of its own. -/
  | handling {α : Type} {x : Exec P α} {handler : Failure → Exec P α} {m m' : Machine P}
    {handled e : Failure} {ps : List Position} : x m = (.error (.failed handled), m') →
    Raises (handler handled) m' e ps → Raises (x.recover handler) m e ps
  | attempted {x cleanup : Exec P Signal} {m : Machine P} {e : Failure} {ps : List Position} :
    (cleanup (x m).2).1 = .ok .normal → Raises x m e ps → Raises (x.finish cleanup) m e ps
  | cleaning {x cleanup : Exec P Signal} {m : Machine P} {e : Failure} {ps : List Position} :
    (x m).1 ≠ .error .outOfFuel → Raises cleanup (x m).2 e ps →
      Raises (x.finish cleanup) m e ps
  | before {α : Type} {x : Exec P α} {y : Exec P Unit} {m : Machine P} {e : Failure}
    {ps : List Position} : Raises x m e ps → Raises (x.andThen y) m e ps
  | after {α : Type} {x : Exec P α} {y : Exec P Unit} {m : Machine P} {a : α} {e : Failure}
    {ps : List Position} : (x m).1 = .ok a → Raises y (x m).2 e ps → Raises (x.andThen y) m e ps
  | withScope {α : Type} {x : Exec P α} {m : Machine P} {e : Failure} {ps : List Position} :
    Raises x m.enterBlock e ps → Raises (withScope x) m e ps
  | top {x : Exec P Unit} {m : Machine P} {e : Failure} {ps : List Position} :
    Raises x { m with operands := [] } e ps → Raises (top x) m e ps
  | withFunction {α : Type} {x : Exec P α} {m : Machine P} {f : Declaration}
    {site : Option Position} {calls : Calls} {e : Failure} {ps : List Position} :
    m.calls.push ⟨f.name, site⟩ = .ok calls →
    Raises x (m.enterCall f calls) e ps → Raises (withFunction f site x) m e ps

/-- On its way out a failure keeps what it is for, and the first position that it has
or is offered. -/
theorem Raises.fails {x : Exec P α} {m : Machine P} {raised : Failure} {ps : List Position}
    (h : Raises x m raised ps) : ∃ e, (x m).1 = .error (.failed e) ∧ e.cause = raised.cause ∧
      e.position = raised.position.or ps.head? := by
  induction h with
  | raised h => exact ⟨_, h, rfl, by simp⟩
  | @located _ x m _ ps p _ ih =>
    obtain ⟨e, hm, hcause, hposition⟩ := ih
    refine ⟨e.locate p, mapFailure_eq_failed.mpr ⟨e, hm, rfl⟩, hcause, ?_⟩
    rw [Failure.locate, hposition]
    cases ps <;> simp
  | @traced _ x m _ ps _ ih =>
    obtain ⟨e, hm, hcause, hposition⟩ := ih
    refine ⟨(x m).2.calls.attach e, mapFailure_eq_failed.mpr ⟨e, hm, rfl⟩, ?_, ?_⟩
    · rw [← hcause, Calls.attach]
      split <;> rfl
    · rw [Calls.attach_position, hposition]
  | noting _ ih => exact ih
  | @first _ _ x f m _ _ _ ih =>
    obtain ⟨e, hm, he⟩ := ih
    have hx : x m = (.error (.failed e), (x m).2) := Prod.ext hm rfl
    exact ⟨e, by rw [bind_error hx], he⟩
  | second hm _ ih => rwa [bind_ok hm]
  | handling hm _ ih => rwa [recover_failed hm]
  | @attempted x cleanup m _ _ hcleanup _ ih =>
    obtain ⟨e, hm, he⟩ := ih
    exact ⟨e, finish_eq_failed.mpr (.inr ⟨hcleanup, hm⟩), he⟩
  | @cleaning x cleanup m _ _ hfuel _ ih =>
    obtain ⟨e, hm, he⟩ := ih
    exact ⟨e, finish_eq_failed.mpr (.inl ⟨hfuel, hm⟩), he⟩
  | before _ ih =>
    obtain ⟨e, hm, he⟩ := ih
    exact ⟨e, andThen_eq_error.mpr (.inl hm), he⟩
  | after hx _ ih =>
    obtain ⟨e, hm, he⟩ := ih
    exact ⟨e, andThen_eq_error.mpr (.inr ⟨_, hx, hm⟩), he⟩
  | withScope _ ih => exact ih
  | top _ ih =>
    obtain ⟨e, hm, he⟩ := ih
    exact ⟨e, top_eq_error.mpr hm, he⟩
  | withFunction hc _ ih => rwa [withFunction_entered hc]

-- ---------------------------------------------------------------------------
-- Where positions come from
-- ---------------------------------------------------------------------------

end Exec

def Program.Stands (prog : Program P) (code : List Site) (p : Position) : Prop :=
  .node p ∈ code ∨ ∃ unit name f, prog.functions.lookup? unit name = some f ∧
    .node p ∈ f.sites

theorem Program.Stands.called {f : Declaration} {unit name : String} {region : List Site}
    {p : Position} (hf : prog.functions.lookup? unit name = some f) (h : prog.Stands f.sites p) :
    prog.Stands region p :=
  .inr (h.elim (fun hp => ⟨unit, name, f, hf, hp⟩) id)

namespace Exec

/-- Whatever a computation in a region of code fails with was raised without a position, and all
that it has been offered on its way out are positions of nodes. -/
def Traceable (prog : Program P) (region : List Site) (x : Exec P α) : Prop :=
  ∀ m e, (x m).1 = .error (.failed e) →
    ∃ raised ps, Raises x m raised ps ∧ raised.position = none ∧
      ∀ p ∈ ps, prog.Stands region p

namespace Traceable

variable {region : List Site} {x : Exec P α}

theorem unplaced (h : ∀ m e, (x m).1 = .error (.failed e) → e.position = none) :
    Traceable prog region x := by
  intro m e he
  exact ⟨e, [], .raised he, h m e he, List.forall_mem_nil _⟩

theorem bind {f : α → Exec P β} (hx : Traceable prog region x)
    (hf : ∀ a, Traceable prog region (f a)) : Traceable prog region (x >>= f) := by
  intro m e he
  rcases bind_cases x f m with ⟨halt, m', hm, hb⟩ | ⟨a, m', hm, hb⟩ <;> rw [hb] at he
  · cases he
    obtain ⟨raised, ps, hraises, hps⟩ := hx m e (by rw [hm])
    exact ⟨raised, ps, .first hraises, hps⟩
  · obtain ⟨raised, ps, hraises, hps⟩ := hf a m' e he
    exact ⟨raised, ps, .second hm hraises, hps⟩

theorem located {p : Position} (hp : .node p ∈ region) (hx : Traceable prog region x) :
    Traceable prog region (x.located p) := by
  intro m e he
  obtain ⟨e', he', -⟩ := mapFailure_eq_failed.mp he
  obtain ⟨raised, ps, hraises, hraised, hps⟩ := hx m e' he'
  refine ⟨raised, ps ++ [p], .located hraises, hraised, fun q hq => ?_⟩
  rcases List.mem_append.mp hq with hq | hq
  · exact hps q hq
  · exact .inl (List.mem_singleton.mp hq ▸ hp)

theorem recover {handler : Failure → Exec P α}
    (hh : ∀ e, Traceable prog region (handler e)) :
    Traceable prog region (x.recover handler) := by
  intro m e he
  rcases hm : x m with ⟨(e' | _) | a, m'⟩
  · -- Only what the handler fails with goes on, wherever the failure that it handles came from.
    rw [recover_failed hm] at he
    obtain ⟨raised, ps, hraises, hps⟩ := hh e' m' e he
    exact ⟨raised, ps, .handling hm hraises, hps⟩
  · rw [recover_outOfFuel hm] at he
    cases he
  · rw [recover_ok hm] at he
    cases he

theorem finish {x cleanup : Exec P Signal} (hx : Traceable prog region x)
    (hy : Traceable prog region cleanup) : Traceable prog region (x.finish cleanup) := by
  intro m e he
  rcases finish_eq_failed.mp he with ⟨hfuel, hcleanup⟩ | ⟨hcleanup, hattempt⟩
  · obtain ⟨raised, ps, hraises, hps⟩ := hy (x m).2 e hcleanup
    exact ⟨raised, ps, .cleaning hfuel hraises, hps⟩
  · obtain ⟨raised, ps, hraises, hps⟩ := hx m e hattempt
    exact ⟨raised, ps, .attempted hcleanup hraises, hps⟩

theorem andThen {y : Exec P Unit} (hx : Traceable prog region x) (hy : Traceable prog region y) :
    Traceable prog region (x.andThen y) := by
  intro m e he
  rcases andThen_eq_error.mp he with hfirst | ⟨a, hfirst, hsecond⟩
  · obtain ⟨raised, ps, hraises, hps⟩ := hx m e hfirst
    exact ⟨raised, ps, .before hraises, hps⟩
  · obtain ⟨raised, ps, hraises, hps⟩ := hy (x m).2 e hsecond
    exact ⟨raised, ps, .after hfirst hraises, hps⟩

theorem noting {events : Except Halt α → List (Event P)} (hx : Traceable prog region x) :
    Traceable prog region (x.noting events) := by
  intro m e he
  obtain ⟨raised, ps, hraises, hps⟩ := hx m e he
  exact ⟨raised, ps, .noting hraises, hps⟩

theorem withScope (hx : Traceable prog region x) : Traceable prog region (Exec.withScope x) := by
  intro m e he
  obtain ⟨raised, ps, hraises, hps⟩ := hx m.enterBlock e he
  exact ⟨raised, ps, .withScope hraises, hps⟩

theorem top {x : Exec P Unit} (hx : Traceable prog region x) :
    Traceable prog region (Exec.top x) := by
  intro m e he
  obtain ⟨raised, ps, hraises, hps⟩ := hx { m with operands := [] } e (top_eq_error.mp he)
  exact ⟨raised, ps, .top hraises, hps⟩

theorem asBody {x : Exec P Signal} (params : List String) (args : List Value)
    (hx : Traceable prog region x) : Traceable prog region (Exec.asBody params args x) := by
  have htraced : Traceable prog region x.traced := by
    intro m e he
    obtain ⟨e', he', -⟩ := mapFailure_eq_failed.mp he
    obtain ⟨raised, ps, hraises, hps⟩ := hx m e' he'
    exact ⟨raised, ps, .traced hraises, hps⟩
  refine bind (unplaced fun m e he => ?_) fun _ => htraced.bind fun signal =>
    unplaced fun m e he => ?_
  · obtain ⟨scopes, hbound⟩ := bindParams_apply params args m
    rw [hbound] at he
    cases he
  · cases signal <;> cases he

theorem withFunction {f : Declaration} {site : Option Position} (hs : prog.CallSite region f site)
    (hx : Traceable prog f.sites x) : Traceable prog region (Exec.withFunction f site x) := by
  intro m e he
  obtain ⟨name, unit, -, hf⟩ := hs
  cases hc : m.calls.push ⟨f.name, site⟩ with
  | error e' =>
    -- A call beyond the limit fails before anything offers a position.
    obtain ⟨limit, rfl⟩ := Calls.push_refuses hc
    exact ⟨_, [], .raised (congrArg Prod.fst (withFunction_refused hc)), rfl,
      List.forall_mem_nil _⟩
  | ok calls =>
    rw [withFunction_entered hc] at he
    obtain ⟨raised, ps, hraises, hraised, hps⟩ := hx (m.enterCall f calls) e he
    exact ⟨raised, ps, .withFunction hc hraises, hraised, fun p hp => (hps p hp).called hf⟩

theorem act (hhost : ∀ e, prog.host.Returns e → e.position = none) {x : Act P α}
    (h : prog.host.Offers x) : Traceable prog region (Exec.act x) := by
  refine unplaced fun m e he => ?_
  rcases hx : x m.world with ⟨e' | a, w⟩
  · rw [act_error hx] at he
    cases he
    exact (h.answers m.world e (congrArg Prod.fst hx)).elim (·.position) (hhost e)
  · rw [act_ok hx] at he
    cases he

theorem operate {task : Calculator Unit}
    (h : ∀ operands e, (task operands).1 = .error e → e.Bare) :
    Traceable prog region (Exec.operate task : Exec P Unit) :=
  unplaced fun m e he => (h m.operands e (operate_eq_failed.mp he)).position

end Traceable

end Exec

def tracing (hhost : ∀ e, prog.host.Returns e → e.position = none) : Uniform prog where
  toRegions := .code
  keeps := Exec.Traceable prog
  still _ h := .unplaced fun m e he => (h m e he).position
  bind := .bind
  callee := fun h m e he => by
    obtain ⟨raised, ps, hraises, hps⟩ := h m trivial m e he
    exact ⟨raised, ps, .second rfl hraises, hps⟩
  act := .act hhost
  note _ := .unplaced fun _ _ => nofun
  noting hx _ := hx.noting
  define _ _ := .unplaced fun _ _ => nofun
  store _ _ := .unplaced fun _ _ => nofun
  operate := .operate
  located := .located
  recover _ hh := .recover hh
  finish := .finish
  andThen := .andThen
  withScope := .withScope
  withFunction hs hx _ := .withFunction hs.callSite (hx.asBody _ _)
  top := .top

-- ---------------------------------------------------------------------------
-- Runs
-- ---------------------------------------------------------------------------

theorem Exec.asBody_positioned (params : List String) (args : List Value) {x : Exec P Signal}
    (hx : x.Positioned) : (Exec.asBody params args x).Positioned := by
  intro m e he
  obtain ⟨scopes, -, hfailed⟩ := asBody_runs params args x m
  obtain ⟨e', he', rfl⟩ := hfailed e he
  rw [Calls.attach_position]
  exact hx _ e' he'

theorem Program.execute_positioned (prog : Program P) (fuel : Nat) (s : Stmt) :
    (prog.execute fuel s).Positioned := by
  refine .bind ?_ fun _ => (prog.evaluator_positions fuel).stmt s
  unfold Stmt.checkPlacement
  cases h : s.misplaced? 0 with
  | none => exact .pure ()
  | some e =>
    obtain ⟨jump, p, -, rfl⟩ := s.misplaced?_site (List.Subset.refl s.sites) h
    exact .located p (Exec.fail (.invalidControl jump))

def Exec.TakesFirst (prog : Program P) (code : List Site) (x : Exec P α) : Prop :=
  ∀ m e, (x m).1 = .error (.failed e) → ∃ raised first later,
    Raises x m raised (first :: later) ∧ raised.position = none ∧ raised.cause = e.cause ∧
      e.position = some first ∧ ∀ p ∈ first :: later, prog.Stands code p

theorem Exec.Traceable.takesFirst {code : List Site} {x : Exec P α} (h : Traceable prog code x)
    (hx : x.Positioned) : TakesFirst prog code x := by
  intro m e he
  obtain ⟨raised, ps, hraises, hraised, hps⟩ := h m e he
  obtain ⟨e', hm, hcause, hposition⟩ := hraises.fails
  cases he.symm.trans hm
  rw [hraised, Option.none_or] at hposition
  cases ps with
  | nil =>
    have hsome := hx m e he
    rw [hposition] at hsome
    cases hsome
  | cons first later =>
    exact ⟨raised, first, later, hraises, hraised, hcause.symm, hposition, hps⟩

/-- Every failure that leaves a statement or an expression that a host has asked for, or the body
of a function, has a position. On the way out of any failure, whatever is around where it was
raised, the first position that it has or is offered is the one that it keeps. If those of the
host come without one, it is always one that was offered, by a node of that code or of a function
that can be called. -/
theorem failures_keep_first_position (prog : Program P) (fuel : Nat) :
    (∀ s, (prog.execute fuel s).Positioned) ∧
    (∀ e, (prog.evaluate fuel e).Positioned) ∧
    (∀ f args, ((prog.evaluator fuel).body f args).Positioned) ∧
    (∀ {α : Type} (x : Exec P α) m raised ps, x.Raises m raised ps →
      ∃ e, (x m).1 = .error (.failed e) ∧ e.cause = raised.cause ∧
        e.position = raised.position.or ps.head?) ∧
    ((∀ e, prog.host.Returns e → e.position = none) →
      (∀ s, (prog.execute fuel s).TakesFirst prog s.sites) ∧
      (∀ e, (prog.evaluate fuel e).TakesFirst prog e.sites) ∧
      ∀ f args, ((prog.evaluator fuel).body f args).TakesFirst prog f.sites) := by
  have hpositions := prog.evaluator_positions fuel
  have hexecute := prog.execute_positioned fuel
  have hevaluate (e : Expr) : (prog.evaluate fuel e).Positioned := (hpositions.expr e).top
  have hbody (f : Declaration) (args : List Value) :
      ((prog.evaluator fuel).body f args).Positioned :=
    Exec.asBody_positioned f.params args (Evaluator.stmts_positioned hpositions f.body)
  refine ⟨hexecute, hevaluate, hbody, fun _ _ _ _ h => h.fails,
    fun hhost => ⟨fun s => ?_, fun e => ?_,
    fun f args => ?_⟩⟩
  · exact ((tracing hhost).regime.execute fuel (List.Subset.refl s.sites)).takesFirst (hexecute s)
  · exact ((tracing hhost).regime.evaluate fuel (List.Subset.refl e.sites)).takesFirst
      (hevaluate e)
  · have hstmts : Exec.Traceable prog f.sites ((prog.evaluator fuel).stmts f.body) :=
      (tracing hhost).regime.stmts ((tracing hhost).regime.parts fuel) (List.Subset.refl f.sites)
    exact (hstmts.asBody f.params args).takesFirst (hbody f args)

namespace Workbench

def asking : Expr :=
  ⟨.call ⟨"ask", [], false, ⟨"main", 9, 1⟩⟩, ⟨"main", 9, 1⟩⟩

/-- What fails in `refuse` has been offered the position of the call of `fail` there before those of
the statement around it, of the call of `refuse` and of that of `ask`. -/
theorem asking_takes_first :
    (∀ e, refusing.host.Returns e → e.position = none) ∧
      ∃ raised later,
        (refusing.evaluate 6 asking).Raises idle raised (⟨"main", 5, 3⟩ :: later) ∧
        raised.position = none ∧ raised.cause = .custom "no" ∧
        refusing.Stands asking.sites ⟨"main", 5, 3⟩ := by
  have hhost : ∀ e, refusing.host.Returns e → e.position = none :=
    fun e h => (host_bare h).position
  have hfails : Exec.failure? (refusing.evaluate 6 asking idle).1 = some ⟨.custom "no",
      some ⟨"main", 5, 3⟩, some [⟨"refuse", some ⟨"main", 2, 3⟩⟩,
        ⟨"ask", some ⟨"main", 9, 1⟩⟩]⟩ := by
    decide +kernel
  obtain ⟨-, -, -, -, htakes⟩ := failures_keep_first_position refusing 6
  obtain ⟨raised, first, later, hraises, hraised, hcause, hposition, hps⟩ :=
    (htakes hhost).2.1 asking idle _ (Exec.failure?_eq_some.mp hfails)
  cases hposition
  exact ⟨hhost, raised, later, hraises, hraised, hcause, hps _ List.mem_cons_self⟩

end Workbench

end HostScript
