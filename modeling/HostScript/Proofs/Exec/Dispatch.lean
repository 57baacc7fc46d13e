import HostScript.Proofs.Exec.Paths
import HostScript.Proofs.Exec.Restoration
import HostScript.Workbench.Scripts

/-!
# How a call runs

What a name calls on a machine is settled by `Program.Resolves`. A call goes by the machine on which
it begins; then it evaluates its arguments, in order and each where the one before it has ended, and
spreads the last if it is to (`Evaluator.ArgumentsRun`); and only what has come of all of them is
counted and turned into what is declared (`Evaluator.CallRuns`). `Program.call_runs` says that calls
run so and in no other way.
-/

namespace HostScript

variable {P : Platform}

-- ---------------------------------------------------------------------------
-- What is called
-- ---------------------------------------------------------------------------

namespace Program

variable {prog : Program P} {m : Machine P} {call : Call} {name : String} {f : Callable P}

def Holds (prog : Program P) (m : Machine P) (name : String) (f : Callable P) : Prop :=
  ∃ r, prog.resolve? m name = some (.ref r) ∧ prog.host.callableOf? m.world r = some f

def RefersTo (v : Value) (r : Address) : Prop :=
  v = .ref r ∨ ∃ key, v = .pair key (.ref r)

/-- What stands before the last dot of a name leads to an object with a method of the
name behind it. -/
def Binds (prog : Program P) (m : Machine P) (name : String) (f : Callable P) : Prop :=
  ∃ receiver member v r, receiverAndMember? name = some (receiver, member) ∧
    prog.resolve? m receiver = some v ∧ RefersTo v r ∧
      prog.host.methodOf? m.world r member = some f

/-- What a call calls on a machine, the first of four that there is. -/
inductive Resolves (prog : Program P) (m : Machine P) (call : Call) : Option (Callee P) → Prop
  | registered {f : Callable P} :
    prog.registry.builtin? call.name = some f → Resolves prog m call (some (.host f))
  | declared {f : Declaration} :
    prog.registry.builtin? call.name = none →
    prog.functions.lookup? (callingUnit m call) call.name = some f →
      Resolves prog m call (some (.script f))
  | held {f : Callable P} :
    prog.registry.builtin? call.name = none →
    prog.functions.lookup? (callingUnit m call) call.name = none → prog.Holds m call.name f →
      Resolves prog m call (some (.host f))
  | bound {f : Callable P} :
    prog.registry.builtin? call.name = none →
    prog.functions.lookup? (callingUnit m call) call.name = none →
    (∀ g, ¬prog.Holds m call.name g) → prog.Binds m call.name f →
      Resolves prog m call (some (.host f))
  | undefined :
    prog.registry.builtin? call.name = none →
    prog.functions.lookup? (callingUnit m call) call.name = none →
    (∀ g, ¬prog.Holds m call.name g) → (∀ g, ¬prog.Binds m call.name g) →
      Resolves prog m call none

theorem holds_iff :
    ((prog.resolve? m name).bind Value.address?).bind (prog.host.callableOf? m.world) = some f ↔
      prog.Holds m name f := by
  unfold Holds
  rcases prog.resolve? m name with _ | v
  · simp
  · cases v <;> simp [Value.address?]

theorem hostCallee?_of_holds (h : prog.Holds m name f) : prog.hostCallee? m name = some f := by
  rw [hostCallee?, holds_iff.mpr h]

theorem hostCallee?_of_not_holds (h : ∀ g, ¬prog.Holds m name g) :
    prog.hostCallee? m name = some f ↔ prog.Binds m name f := by
  have hnone : ((prog.resolve? m name).bind Value.address?).bind (prog.host.callableOf? m.world) =
      none := by
    rw [Option.eq_none_iff_forall_ne_some]
    exact fun g hg => h g (holds_iff.mp hg)
  rw [hostCallee?, hnone]
  unfold Binds
  rcases receiverAndMember? name with _ | ⟨receiver, member⟩
  · simp
  · rcases hv : prog.resolve? m receiver with _ | v
    · simp [hv]
    · cases v with
      | pair key v => cases v <;> simp [hv, RefersTo, Value.address?]
      | _ => simp [hv, RefersTo]

theorem Resolves.callee? {c : Option (Callee P)} (h : prog.Resolves m call c) :
    prog.callee? m call = c := by
  unfold Program.callee?
  cases h with
  | registered hf => rw [hf]
  | declared hb hf => rw [hb, hf]
  | held hb hd hf => rw [hb, hd, hostCallee?_of_holds hf]; rfl
  | bound hb hd hh hf => rw [hb, hd, (hostCallee?_of_not_holds hh).mpr hf]; rfl
  | undefined hb hd hh hm =>
    have hnone : prog.hostCallee? m call.name = none := by
      rw [Option.eq_none_iff_forall_ne_some]
      exact fun g hg => hm g ((hostCallee?_of_not_holds hh).mp hg)
    rw [hb, hd, hnone]
    rfl

theorem resolves_callee? (prog : Program P) (m : Machine P) (call : Call) :
    prog.Resolves m call (prog.callee? m call) := by
  suffices h : ∃ c, prog.Resolves m call c by
    obtain ⟨c, hc⟩ := h
    rwa [hc.callee?]
  rcases hb : prog.registry.builtin? call.name with _ | f
  · rcases hd : prog.functions.lookup? (callingUnit m call) call.name with _ | f
    · by_cases hheld : ∃ f, prog.Holds m call.name f
      · obtain ⟨f, hf⟩ := hheld
        exact ⟨_, .held hb hd hf⟩
      · have hheld := not_exists.mp hheld
        by_cases hbound : ∃ f, prog.Binds m call.name f
        · obtain ⟨f, hf⟩ := hbound
          exact ⟨_, .bound hb hd hheld hf⟩
        · exact ⟨_, .undefined hb hd hheld (not_exists.mp hbound)⟩
    · exact ⟨_, .declared hb hd⟩
  · exact ⟨_, .registered hb⟩

end Program

-- ---------------------------------------------------------------------------
-- Arguments
-- ---------------------------------------------------------------------------

structure Machine.SameCaller (m m' : Machine P) : Prop where
  stack : m'.scopes.stack = m.scopes.stack
  parents : m'.scopes.parents = m.scopes.parents
  calls : m'.calls = m.calls
  current : m'.current = m.current

namespace Machine.SameCaller

variable {m m' m'' : Machine P}

theorem refl (m : Machine P) : m.SameCaller m := ⟨rfl, rfl, rfl, rfl⟩

theorem trans (h : m.SameCaller m') (h' : m'.SameCaller m'') : m.SameCaller m'' :=
  ⟨h'.stack.trans h.stack, h'.parents.trans h.parents, h'.calls.trans h.calls,
    h'.current.trans h.current⟩

theorem of_restored (h : Restored m m') : m.SameCaller m' :=
  ⟨h.scopes.stack, h.scopes.parents, h.calls, h.current⟩

end Machine.SameCaller

theorem Program.isolated_sameCaller {prog : Program P} {fuel : Nat} {e : Expr} {m m' : Machine P}
    {outcome : Except Halt (Option Value)}
    (h : (prog.evaluator fuel).isolated e m = (outcome, m')) : m.SameCaller m' := by
  have hrestored :=
    (restored_conserved prog).top ((restored_conserved prog).discipline.evalExpr fuel e) m
  have hm : m' = (Exec.top (prog.evalExpr fuel e) m).2 := (congrArg Prod.snd h).symm
  subst hm
  exact .of_restored hrestored

namespace Evaluator

variable {E : Evaluator P} {prog : Program P} {call : Call} {caller m m' : Machine P}

/-- Expressions have values. They are evaluated in order, each of them once, on a machine with the
scopes of the caller that the one before it has left. -/
inductive Gives (E : Evaluator P) (caller : Machine P) :
    List Expr → Machine P → List Value → Machine P → Prop
  | nil (m : Machine P) : Gives E caller [] m [] m
  | cons {e : Expr} {rest : List Expr} {v : Value} {vs : List Value} {m m₁ m₂ : Machine P} :
    caller.SameCaller m → E.isolated e m = (.ok (some v), m₁) →
      Gives E caller rest m₁ vs m₂ →
      Gives E caller (e :: rest) m (v :: vs) m₂

theorem Gives.values {es : List Expr} {vs : List Value} (h : E.Gives caller es m vs m') :
    E.values es m = (.ok vs, m') := by
  induction h with
  | nil => rfl
  | cons _ he _ ih =>
    rw [Evaluator.values, Exec.bind_ok (value_ok he), Exec.bind_ok ih]
    rfl

theorem Gives.stops {leading later : List Expr} {e : Expr} {vs : List Value} {halt : Halt}
    {m₁ : Machine P} (h : E.Gives caller leading m vs m₁)
    (he : E.Stops e "argument" m₁ halt m') :
    E.values (leading ++ e :: later) m = (.error halt, m') := by
  induction h with
  | nil => rw [List.nil_append, Evaluator.values, Exec.bind_error he.value]
  | cons _ hfirst _ ih =>
    rw [List.cons_append, Evaluator.values, Exec.bind_ok (value_ok hfirst), Exec.bind_error (ih he)]

theorem Gives.length {es : List Expr} {vs : List Value} (h : E.Gives caller es m vs m') :
    vs.length = es.length := by
  induction h with
  | nil => rfl
  | cons _ _ _ ih => rw [List.length_cons, List.length_cons, ih]

inductive ArgumentsRun (E : Evaluator P) (prog : Program P) (call : Call) (m : Machine P) :
    Except Halt (List Value) × Machine P → Prop
  | stops {leading later : List Expr} {e : Expr} {vs : List Value} {halt : Halt}
      {m₁ m' : Machine P} :
    call.args = leading ++ e :: later → E.Gives m leading m vs m₁ → m.SameCaller m₁ →
    E.Stops e "argument" m₁ halt m' → ArgumentsRun E prog call m (.error halt, m')
  | plain {vs : List Value} {m' : Machine P} :
    call.spread = false → E.Gives m call.args m vs m' → ArgumentsRun E prog call m (.ok vs, m')
  | spread {leading : List Expr} {e : Expr} {vs elements : List Value} {last : Value}
      {m' : Machine P} :
    call.spread = true → call.args = leading ++ [e] →
      E.Gives m call.args m (vs ++ [last]) m' →
    prog.host.items m'.world last = .ok elements →
      ArgumentsRun E prog call m (.ok (vs ++ elements), m')
  | unspreadable {leading : List Expr} {e : Expr} {vs : List Value} {last : Value}
      {failure : Failure} {m' : Machine P} :
    call.spread = true → call.args = leading ++ [e] →
      E.Gives m call.args m (vs ++ [last]) m' →
    prog.host.items m'.world last = .error failure →
      ArgumentsRun E prog call m
        (.error (.failed (failure.locate e.pos)), m'.noted (.faulted failure))
  | nothingToSpread :
    call.spread = true → call.args = [] →
      ArgumentsRun E prog call m (.error (.failed (.of .spreadWithoutArguments)), m)

theorem arguments_plain {vs : List Value} (h : E.values call.args m = (.ok vs, m'))
    (hs : call.spread = false) : E.arguments prog call m = (.ok vs, m') := by
  rw [arguments, Exec.bind_ok h, hs]
  rfl

theorem arguments_spread {leading : List Expr} {e : Expr} {vs : List Value} {last : Value}
    (h : E.values call.args m = (.ok (vs ++ [last]), m')) (hs : call.spread = true)
    (he : call.args = leading ++ [e]) :
    E.arguments prog call m =
      (Exec.located e.pos (Exec.items prog last) >>= fun elements => pure (vs ++ elements)) m' := by
  rw [arguments, Exec.bind_ok h, hs, he]
  simp

theorem ArgumentsRun.arguments {r : Except Halt (List Value) × Machine P}
    (h : E.ArgumentsRun prog call m r) : E.arguments prog call m = r := by
  cases h with
  | stops hargs hgives _ he =>
    rw [Evaluator.arguments, Exec.bind_error]
    rw [hargs, hgives.stops he]
  | plain hs hgives => exact arguments_plain hgives.values hs
  | @spread _ _ vs elements last m' hs hargs hgives hitems =>
    have hask : Exec.items prog last m' = (.ok elements, m') := Exec.ask_ok hitems
    rw [arguments_spread hgives.values hs hargs, Exec.bind_ok (Exec.located_ok hask)]
    rfl
  | @unspreadable _ _ vs last failure m' hs hargs hgives hitems =>
    have hask : Exec.items prog last m' =
        (.error (.failed failure), m'.noted (.faulted failure)) := Exec.ask_error hitems
    rw [arguments_spread hgives.values hs hargs, Exec.bind_error]
    rw [Exec.located, Exec.mapFailure_apply, hask]
    rfl
  | nothingToSpread hs hargs =>
    have hvalues : E.values call.args m = (.ok [], m) := by
      rw [hargs]
      rfl
    rw [Evaluator.arguments, Exec.bind_ok hvalues, hs]
    rfl

theorem gives_or {E : Evaluator P}
    (hE : ∀ {e : Expr} {m m' : Machine P} {v : Value},
      E.isolated e m = (.ok (some v), m') → m.SameCaller m')
    (es : List Expr) {caller m : Machine P} (hm : caller.SameCaller m) :
    (∃ vs m', E.Gives caller es m vs m') ∨
      ∃ leading e later vs m₁ halt m', es = leading ++ e :: later ∧
        E.Gives caller leading m vs m₁ ∧ caller.SameCaller m₁ ∧
        E.Stops e "argument" m₁ halt m' := by
  induction es generalizing m with
  | nil => exact .inl ⟨[], m, .nil m⟩
  | cons e rest ih =>
    rcases E.gives_or_stops e "argument" m with ⟨v, m₁, he⟩ | ⟨halt, m', he⟩
    · rcases ih (hm.trans (hE he)) with
        ⟨vs, m', hrest⟩ | ⟨leading, e', later, vs, m₂, halt, m', rfl, hleading,
          hm₂, hstops⟩
      · exact .inl ⟨v :: vs, m', .cons hm he hrest⟩
      · exact .inr ⟨e :: leading, e', later, v :: vs, m₂, halt, m', rfl, .cons hm he hleading,
          hm₂, hstops⟩
    · exact .inr ⟨[], e, rest, [], m, halt, m', rfl, .nil m, hm, he⟩

end Evaluator

theorem Program.argumentsRun_exists (prog : Program P) (fuel : Nat) (call : Call) (m : Machine P) :
    ∃ r, (prog.evaluator fuel).ArgumentsRun prog call m r := by
  rcases Evaluator.gives_or isolated_sameCaller call.args (.refl m) with
    ⟨vs, m', hgives⟩ | ⟨leading, e, later, vs, m₁, halt, m', hargs, hgives, hm, he⟩
  · cases hs : call.spread with
    | false => exact ⟨_, .plain hs hgives⟩
    | true =>
      have hlength := hgives.length
      rcases List.eq_nil_or_concat call.args with hargs | ⟨leading, e, hargs⟩
      · exact ⟨_, .nothingToSpread hs hargs⟩
      · rcases List.eq_nil_or_concat vs with rfl | ⟨vs, last, rfl⟩
        · simp [hargs] at hlength
        · rw [List.concat_eq_append] at hargs hgives
          cases hitems : prog.host.items m'.world last with
          | ok elements => exact ⟨_, .spread hs hargs hgives hitems⟩
          | error failure => exact ⟨_, .unspreadable hs hargs hgives hitems⟩
  · exact ⟨_, .stops hargs hgives hm he⟩

-- ---------------------------------------------------------------------------
-- Calls
-- ---------------------------------------------------------------------------

def Call.blame (call : Call) (index : Option Nat) (e : Failure) : Failure :=
  match index.bind (call.args[·]?) with
  | some arg => e.locate arg.pos
  | none => e

namespace Evaluator

variable {E : Evaluator P} {prog : Program P} {call : Call} {m m' : Machine P}

/-- The runs of a call. What is called is what the name means where the call begins. -/
inductive CallRuns (E : Evaluator P) (prog : Program P) (call : Call) (m : Machine P) :
    Except Halt (Option Value) × Machine P → Prop
  | undefined :
    prog.Resolves m call none →
      CallRuns E prog call m (.error (.failed (.of (.undefinedFunction call.name))), m)
  | argumentsFail {c : Callee P} {halt : Halt} {m' : Machine P} :
    prog.Resolves m call (some c) → E.ArgumentsRun prog call m (.error halt, m') →
      CallRuns E prog call m (.error halt, m')
  | miscounted {f : Declaration} {args : List Value} {m' : Machine P} :
    prog.Resolves m call (some (.script f)) → E.ArgumentsRun prog call m (.ok args, m') →
    args.length ≠ f.params.length →
      CallRuns E prog call m
        (.error (.failed (.of (.parameterMismatch f.params.length args.length))), m')
  | script {f : Declaration} {args : List Value} {m' : Machine P} :
    prog.Resolves m call (some (.script f)) → E.ArgumentsRun prog call m (.ok args, m') →
    args.length = f.params.length →
      CallRuns E prog call m (Exec.withFunction f (some call.pos) (E.body f args) m')
  | misfit {f : Callable P} {args : List Value} {index : Option Nat} {e : Failure}
      {m' : Machine P} :
    prog.Resolves m call (some (.host f)) → E.ArgumentsRun prog call m (.ok args, m') →
    f.signature.bind m'.world.view args = .error (index, e) →
      CallRuns E prog call m (.error (.failed (call.blame index e)), m')
  | host {f : Callable P} {args bound : List Value} {m' : Machine P} :
    prog.Resolves m call (some (.host f)) → E.ArgumentsRun prog call m (.ok args, m') →
    f.signature.bind m'.world.view args = .ok bound →
      CallRuns E prog call m (invoke prog f bound m')

def dispatch (E : Evaluator P) (prog : Program P) (call : Call) :
    Option (Callee P) → Exec P (Option Value)
  | some (.host f) => E.callHost prog f call
  | some (.script f) => do E.callScript f (← E.arguments prog call) (some call.pos)
  | none => Exec.fail (.undefinedFunction call.name)

theorem call_resolves {c : Option (Callee P)} (h : prog.Resolves m call c) :
    E.call prog call m = E.dispatch prog call c m := by
  have hcallee : Exec.callee prog call m = (.ok c, m) := by
    rw [← h.callee?]
    rfl
  rw [Evaluator.call, Exec.bind_ok hcallee]
  rcases c with _ | f | f <;> rfl

theorem dispatch_fails {c : Callee P} {halt : Halt}
    (h : E.arguments prog call m = (.error halt, m')) :
    E.dispatch prog call (some c) m = (.error halt, m') := by
  cases c with
  | host f => rw [dispatch, callHost, Exec.bind_error h]
  | script f => rw [dispatch, Exec.bind_error h]

theorem CallRuns.runs {r : Except Halt (Option Value) × Machine P}
    (h : E.CallRuns prog call m r) : E.call prog call m = r := by
  cases h with
  | undefined hc =>
    rw [call_resolves hc]
    rfl
  | argumentsFail hc hargs => rw [call_resolves hc, dispatch_fails hargs.arguments]
  | miscounted hc hargs hlength =>
    rw [call_resolves hc, dispatch, Exec.bind_ok hargs.arguments, callScript, if_neg hlength]
    rfl
  | script hc hargs hlength =>
    rw [call_resolves hc, dispatch, Exec.bind_ok hargs.arguments, callScript, if_pos hlength]
  | @misfit f args index e m' hc hargs hbind =>
    rw [call_resolves hc, dispatch, callHost, Exec.bind_ok hargs.arguments,
      Exec.bind_ok (Exec.view_apply _), hbind]
    dsimp only [Call.blame]
    cases index.bind (call.args[·]?) <;> rfl
  | host hc hargs hbind =>
    rw [call_resolves hc, dispatch, callHost, Exec.bind_ok hargs.arguments,
      Exec.bind_ok (Exec.view_apply _), hbind]

end Evaluator

theorem Program.callRuns_exists (prog : Program P) (fuel : Nat) (call : Call) (m : Machine P) :
    ∃ r, (prog.evaluator fuel).CallRuns prog call m r := by
  obtain ⟨⟨outcome, m'⟩, hargs⟩ := prog.argumentsRun_exists fuel call m
  have hc := prog.resolves_callee? m call
  rcases hcallee : prog.callee? m call with _ | c <;> rw [hcallee] at hc
  · exact ⟨_, .undefined hc⟩
  · rcases outcome with halt | args
    · exact ⟨_, .argumentsFail hc hargs⟩
    · rcases c with f | f
      · rcases hbind : f.signature.bind m'.world.view args with ⟨index, e⟩ | bound
        · exact ⟨_, .misfit hc hargs hbind⟩
        · exact ⟨_, .host hc hargs hbind⟩
      · by_cases hlength : args.length = f.params.length
        · exact ⟨_, .script hc hargs hlength⟩
        · exact ⟨_, .miscounted hc hargs hlength⟩

def Exec.putResult : Option Value → Exec P Unit
  | some v => Exec.push v
  | none => return ()

/-- What a call calls is one thing, and what the name means before any argument is evaluated:
whatever the arguments do, that is what runs. The arguments are evaluated in order, each of them
once and with the scopes of the caller; only when all have values is the function's own count of
them looked at and what it declares. -/
theorem Program.call_runs (prog : Program P) (fuel : Nat) (call : Call) (p : Position)
    (m : Machine P) (r : Except Halt Unit × Machine P) :
    (∃! c, prog.Resolves m call c) ∧
      (prog.evalExpr (fuel + 1) ⟨.call call, p⟩ m = r ↔
        ∃ outcome m', (prog.evaluator fuel).CallRuns prog call m (outcome, m') ∧
          r = Exec.located p (Exec.ofOutcome outcome >>= Exec.putResult) m') := by
  have hunique : ∃! c, prog.Resolves m call c :=
    ⟨_, prog.resolves_callee? m call, fun _ hc => hc.callee?.symm⟩
  have hexpr (outcome : Except Halt (Option Value)) (m' : Machine P)
      (h : (prog.evaluator fuel).call prog call m = (outcome, m')) :
      prog.evalExpr (fuel + 1) ⟨.call call, p⟩ m =
        Exec.located p (Exec.ofOutcome outcome >>= Exec.putResult) m' := by
    have hform : (prog.evaluator fuel).exprForm prog (.call call) m =
        (Exec.ofOutcome outcome >>= Exec.putResult) m' := by
      rcases outcome with halt | _ | v
      · exact Exec.bind_error h
      · exact Exec.bind_ok h
      · exact Exec.bind_ok h
    change Exec.located p ((prog.evaluator fuel).exprForm prog (.call call)) m = _
    rw [Exec.located, Exec.mapFailure_apply, hform, Exec.located, Exec.mapFailure_apply]
  refine ⟨hunique, ?_, ?_⟩
  · rintro rfl
    obtain ⟨⟨outcome, m'⟩, hr⟩ := prog.callRuns_exists fuel call m
    exact ⟨outcome, m', hr, hexpr outcome m' hr.runs⟩
  · rintro ⟨outcome, m', hr, rfl⟩
    exact hexpr outcome m' hr.runs

-- In `f(f = 7)` the name means something else once the argument is there. What it meant before
-- runs.
open Workbench in
example : number? ((bare.evaluator 4).call bare
    ⟨"f", [⟨.assign ⟨[⟨"f", []⟩]⟩ .set ⟨.int 7, here⟩, here⟩], false, here⟩
    (Session.start ⟨[], .empty, none, [("f", .ref 0)]⟩
      ⟨#[.function ⟨"sum", .variadic [] .int, .foreign .sum⟩], []⟩)).1 = some 7 := by rfl

end HostScript
