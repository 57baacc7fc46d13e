import HostScript.Proofs.Exec.Chains
import HostScript.Proofs.Exec.Padding
import HostScript.Proofs.Operator.Unification

/-!
# Loops that agree

What one round of a loop does with how its body has ended says all about it
(`Evaluator.goRound_succ`). From that, `repeat { … } until (c)` is `do { … } while (!c)`
wherever `c` has a truth value that can be negated, and `while (c) { … }` is
`if (c) do { … } while (c)` wherever the first test binds no name, since it then makes no
difference in which scope it runs (`Program.loops_agree`).
-/

namespace HostScript

variable {P : Platform}

-- ---------------------------------------------------------------------------
-- One round
-- ---------------------------------------------------------------------------

def Loop.after (body : List Stmt) (cond : Expr) (wanted : Bool) : Loop :=
  ⟨none, none, body, none, some cond, wanted⟩

def Loop.before (body : List Stmt) (cond : Expr) : Loop :=
  ⟨none, some cond, body, none, none, true⟩

/-- What a loop makes of how its body has ended, if it has something left to do: that comes after
`continue` too, but not after `break` or `return`. -/
def Signal.resume (rest : Exec P Signal) : Signal → Exec P Signal
  | .brk => return .normal
  | .ret v => return .ret v
  | .normal | .cont => rest

theorem Signal.resume_goes_on {signal : Signal} (h : signal = .normal ∨ signal = .cont)
    (rest : Exec P Signal) : signal.resume rest = rest := by
  rcases h with rfl | rfl <;> rfl

theorem Signal.resume_stops {signal : Signal} (h : ¬(signal = .normal ∨ signal = .cont))
    (rest rest' : Exec P Signal) : signal.resume rest = signal.resume rest' := by
  cases signal with
  | brk | ret v => rfl
  | normal | cont => simp at h

namespace Evaluator

variable {E E' : Evaluator P}

def afterBody (E : Evaluator P) (body : List Stmt) (rest : Exec P Signal) : Exec P Signal := do
  (← E.block body).resume rest

def whenTrue (E : Evaluator P) (cond : Expr) (x : Exec P Signal) : Exec P Signal := do
  if ← E.condition cond then x else return .normal

theorem goRound_succ (E : Evaluator P) (loop : Loop) (n : Nat) :
    E.goRound loop (n + 1) = (do
      if ← E.holds loop.wanted loop.pre then E.afterBody loop.body (E.goOn loop n)
      else return .normal) := by
  have hresume (signal : Signal) : signal.resume (E.goOn loop n) = match signal with
      | .brk => return .normal
      | .ret v => return .ret v
      | .normal | .cont => E.goOn loop n := by
    cases signal <;> rfl
  simp only [goRound, afterBody, hresume]
  rfl

theorem goRound_ok {loop : Loop} {n : Nat} {m m₁ m₂ : Machine P} {signal : Signal}
    (hpre : E.holds loop.wanted loop.pre m = (.ok true, m₁))
    (hbody : E.block loop.body m₁ = (.ok signal, m₂)) :
    E.goRound loop (n + 1) m = signal.resume (E.goOn loop n) m₂ := by
  rw [goRound_succ, Exec.bind_ok hpre, if_pos rfl, afterBody, Exec.bind_ok hbody]

theorem holds_true (cond : Expr) : E.holds true (some cond) = E.condition cond := by
  simp [holds]

theorem goRound_after (E : Evaluator P) (body : List Stmt) (cond : Expr) (wanted : Bool) (n : Nat) :
    E.goRound (.after body cond wanted) (n + 1) = E.afterBody body do
      if ← E.holds wanted (some cond) then E.goRound (.after body cond wanted) n
      else return .normal :=
  goRound_succ E _ n

namespace Approximates

variable {x y : Exec P Signal}

theorem afterBody (h : E.Approximates E') (body : List Stmt) (hxy : x.Approximates y) :
    (E.afterBody body x).Approximates (E'.afterBody body y) := by
  refine (h.block body).bind fun signal => ?_
  cases signal with
  | brk | ret v => exact .refl _
  | normal | cont => exact hxy

theorem whenTrue (h : E.Approximates E') (cond : Expr) (hxy : x.Approximates y) :
    (E.whenTrue cond x).Approximates (E'.whenTrue cond y) := by
  refine (h.condition cond).bind fun b => ?_
  split
  · exact hxy
  · exact .refl _

end Approximates

theorem condition_eq (E : Evaluator P) (cond : Expr) :
    E.condition cond = (do
      let v ← E.value cond "condition"
      Exec.viewed cond.pos (·.asBool v)) := rfl

theorem condition_machine (E : Evaluator P) (cond : Expr) (m : Machine P) :
    (E.condition cond m).2 = (E.isolated cond m).2 := by
  rw [condition_eq]
  rcases E.gives_or_stops cond "condition" m with ⟨v, m', h⟩ | ⟨halt, m', h⟩
  · rw [Exec.bind_ok (value_ok h), h]
    cases hb : m'.world.view.asBool v with
    | ok b => rw [Exec.viewed_ok hb]
    | error e => rw [Exec.viewed_error hb]
  · rw [Exec.bind_error h.value]
    cases h with
    | fails h => rw [h]
    | empty h => rw [h]

end Evaluator

theorem Program.execStmt_loop (prog : Program P) (n : Nat) {form : StmtForm} {loop : Loop}
    (h : form.loop? = some loop) (p : Position) :
    prog.execStmt (n + 1) ⟨form, p⟩ = (prog.evaluator n).loop loop := by
  change Exec.located p ((prog.evaluator n).stmtForm prog form) = _
  rw [Evaluator.stmtForm_loop h,
    (Evaluator.loop_positioned (prog.evaluator_positions n) loop).located_eq]

theorem Program.execStmt_rounds (prog : Program P) (n : Nat) {form : StmtForm} {loop : Loop}
    (h : form.loop? = some loop) (hinit : loop.init = none) (p : Position) :
    prog.execStmt (n + 1) ⟨form, p⟩ = Exec.withScope ((prog.evaluator n).goRound loop n) := by
  rw [prog.execStmt_loop n h, Evaluator.loop, hinit]
  rfl

-- ---------------------------------------------------------------------------
-- Negated conditions
-- ---------------------------------------------------------------------------

def View.BoolOrInt (view : View) (v : Value) : Prop :=
  (view.scalar v).hasKind .bool ∨ (view.scalar v).hasKind .int

theorem View.BoolOrInt.negated {view : View} {v : Value} (h : view.BoolOrInt v) :
    ∃ b, view.asBool v = .ok b ∧ view.unaryNamed UnaryOp.not.symbol v = .ok (.bool !b) := by
  have happly : view.unaryNamed UnaryOp.not.symbol v = view.applyUnary .not v := rfl
  rw [happly, applyUnary, asBool]
  rcases h with h | h <;> cases hv : view.scalar v <;> rw [hv] at h <;> cases h
  · exact ⟨_, rfl, rfl⟩
  · rename_i n
    refine ⟨n != 0, rfl, ?_⟩
    simp [UnaryOp.onScalar, bne]

def Evaluator.Negatable (E : Evaluator P) (e : Expr) (m : Machine P) : Prop :=
  ∀ answer m', E.isolated e m = (.ok answer, m') →
    ∃ v, answer = some v ∧ m'.world.view.BoolOrInt v

namespace Exec

theorem unary_puts (p : Position) (op : UnaryOp) (v : Value) (m : Machine P) (s : Operands) :
    Puts s (viewed p (·.unaryNamed op.symbol v) m)
      (located p (unary op) (m.on (v :: s))) := by
  have hoperate : unary op (m.on (v :: s)) =
      operate (Calculator.unary m.world.view op.symbol) (m.on (v :: s)) :=
    bind_ok (view_apply _)
  have hstack : (m.on (v :: s)).operands = v :: s := rfl
  rw [located, mapFailure_apply, hoperate, operate, hstack, Calculator.unary_apply]
  cases h : m.world.view.unaryNamed op.symbol v with
  | ok w =>
    rw [viewed_ok h]
    exact .value w m
  | error e =>
    rw [viewed_error h]
    exact .halt _ rfl

end Exec

namespace Program

variable {prog : Program P} {n : Nat} {cond : Expr} {m : Machine P}

theorem value_unary (prog : Program P) (n : Nat) (op : UnaryOp) (e : Expr) (q : Position)
    (use : String) :
    (prog.evaluator (n + 1)).value ⟨.unary op e, q⟩ use = (do
      let v ← (prog.evaluator n).value e "operand"
      Exec.viewed q (·.unaryNamed op.symbol v)) := by
  have hpositioned : ((prog.evaluator n).operand e).Positioned :=
    ((prog.evaluator_positions n).expr e).operand
  have hoperands : Exec.Leads SameOperands (do
      let v ← (prog.evaluator n).value e "operand"
      Exec.viewed q (·.unaryNamed op.symbol v)) :=
    (Evaluator.value_operands e "operand").bind fun v => Exec.viewed_operands q _
  rw [Evaluator.value, isolated_of_puts hoperands fun m => ?_]
  · simp
  · change Exec.Puts [] _ (Exec.located q ((prog.evaluator n).operand e >>= fun _ =>
      Exec.unary op) (m.on []))
    rw [Exec.located_bind, hpositioned.located_eq]
    exact (prog.operand_puts n e m []).bind fun v m₁ => Exec.unary_puts q op v m₁ []

theorem holds_not (h : (prog.evaluator n).Negatable cond m) (wanted : Bool) (q : Position) :
    (prog.evaluator (n + 1)).holds wanted (some ⟨.unary .not cond, q⟩) m =
      (prog.evaluator n).holds (!wanted) (some cond) m := by
  rw [Evaluator.holds, Evaluator.holds, Evaluator.condition_eq, Evaluator.condition_eq,
    value_unary]
  rcases hrun : (prog.evaluator n).isolated cond m with ⟨halt | answer, m'⟩
  · simp only [bind_assoc]
    rw [Exec.bind_error (Evaluator.Stops.fails hrun).value,
      Exec.bind_error (Evaluator.Stops.fails hrun).value]
  · obtain ⟨v, rfl, hv⟩ := h answer m' hrun
    obtain ⟨b, hasBool, hnot⟩ := hv.negated
    have hasBool' : m'.world.view.asBool (.bool !b) = .ok (!b) := by
      rw [View.asBool, View.scalar_of_kind? _ rfl]
      rfl
    have hwanted : ((!b) == wanted) = (b == !wanted) := by
      cases b <;> cases wanted <;> rfl
    simp only [bind_assoc]
    rw [Exec.bind_ok (Evaluator.value_ok hrun), Exec.bind_ok (Evaluator.value_ok hrun),
      Exec.bind_ok (Exec.viewed_ok hnot), Exec.bind_ok (Exec.viewed_ok hasBool'),
      Exec.bind_ok (Exec.viewed_ok hasBool), hwanted]

end Program

-- ---------------------------------------------------------------------------
-- Loops that ask after their bodies
-- ---------------------------------------------------------------------------

/-- Between such a loop's start and one of the times at which it asks whether to go on, there are
its bodies and the earlier times. -/
inductive Evaluator.ComesToAsk (E : Evaluator P) (body : List Stmt) (cond : Expr) (wanted : Bool) :
    Machine P → Machine P → Prop
  | first {m m₁ : Machine P} {signal : Signal} (h : E.block body m = (.ok signal, m₁))
      (hsignal : signal = .normal ∨ signal = .cont) : ComesToAsk E body cond wanted m m₁
  | again {m m₁ m₂ m₃ : Machine P} {signal : Signal} (h : E.block body m = (.ok signal, m₁))
      (hsignal : signal = .normal ∨ signal = .cont)
      (hgoes : E.holds wanted (some cond) m₁ = (.ok true, m₂))
      (hlater : ComesToAsk E body cond wanted m₂ m₃) : ComesToAsk E body cond wanted m m₃

/-- What the body and the condition keep holds whenever the loop asks. -/
theorem Evaluator.ComesToAsk.keeps {E : Evaluator P} {body : List Stmt} {cond : Expr}
    {wanted : Bool} {K : Machine P → Prop}
    (hbody : ∀ {m m₁ signal}, K m → E.block body m = (.ok signal, m₁) → K m₁)
    (hcond : ∀ {m m₁}, K m → E.holds wanted (some cond) m = (.ok true, m₁) → K m₁)
    {m m' : Machine P} (hm : K m) (h : E.ComesToAsk body cond wanted m m') : K m' := by
  induction h with
  | first hrun _ => exact hbody hm hrun
  | again hrun _ hgoes _ ih => exact ih (hcond (hbody hm hrun) hgoes)

def Evaluator.AlwaysNegatable (E : Evaluator P) (body : List Stmt) (cond : Expr)
    (m : Machine P) : Prop :=
  ∀ m', E.ComesToAsk body cond false m m' → E.Negatable cond m'

theorem Evaluator.AlwaysNegatable.again {E : Evaluator P} {body : List Stmt} {cond : Expr}
    {m m₁ m₂ : Machine P} {signal : Signal} (hm : E.AlwaysNegatable body cond m)
    (h : E.block body m = (.ok signal, m₁)) (hsignal : signal = .normal ∨ signal = .cont)
    (hgoes : E.holds false (some cond) m₁ = (.ok true, m₂)) :
    E.AlwaysNegatable body cond m₂ :=
  fun m' hlater => hm m' (.again h hsignal hgoes hlater)

/-- Loops with the same body that find the same answer whenever they ask are the same loop. -/
theorem Evaluator.goRound_same {E E' : Evaluator P} {body : List Stmt} {cond cond' : Expr}
    {wanted wanted' : Bool} (Starts : Machine P → Prop)
    (hbody : (E.block body).Approximates (E'.block body))
    (hasks : ∀ {m m₁ signal}, Starts m → E.block body m = (.ok signal, m₁) →
      signal = .normal ∨ signal = .cont →
        ((E.holds wanted (some cond) m₁).1 = .error .outOfFuel ∨
          E'.holds wanted' (some cond') m₁ = E.holds wanted (some cond) m₁) ∧
        ∀ m₂, E.holds wanted (some cond) m₁ = (.ok true, m₂) → Starts m₂)
    (n : Nat) {m : Machine P} (hm : Starts m) :
    (E.goRound (.after body cond wanted) n m).1 = .error .outOfFuel ∨
      E'.goRound (.after body cond' wanted') n m = E.goRound (.after body cond wanted) n m := by
  induction n generalizing m with
  | zero => exact .inl rfl
  | succ n ih =>
    rw [goRound_after, goRound_after]
    rcases hrun : E.block body m with ⟨halt | signal, m₁⟩
    · rw [afterBody, afterBody, Exec.bind_error hrun]
      rcases hbody.elim hrun with hout | hrun'
      · exact .inl hout
      · exact .inr (Exec.bind_error hrun')
    · have hrun' := (hbody.elim hrun).resolve_left nofun
      rw [afterBody, afterBody, Exec.bind_ok hrun, Exec.bind_ok hrun']
      by_cases hsignal : signal = .normal ∨ signal = .cont
      · obtain ⟨hsame, hstarts⟩ := hasks hm hrun hsignal
        rw [Signal.resume_goes_on hsignal, Signal.resume_goes_on hsignal]
        rcases hholds : E.holds wanted (some cond) m₁ with ⟨halt | goes, m₂⟩ <;>
          rw [hholds] at hsame
        · rw [Exec.bind_error hholds]
          rcases hsame with hout | hholds'
          · obtain rfl := Except.error.inj hout
            exact .inl rfl
          · exact .inr (Exec.bind_error hholds')
        · rw [Exec.bind_ok hholds, Exec.bind_ok (hsame.resolve_left nofun)]
          cases goes with
          | true =>
            rw [if_pos rfl, if_pos rfl]
            exact ih (hstarts m₂ hholds)
          | false =>
            rw [if_neg nofun, if_neg nofun]
            exact .inr rfl
      · exact .inr (congrFun (Signal.resume_stops hsignal _ _) m₁)

namespace Program

variable {prog : Program P} {body : List Stmt} {cond : Expr} {m : Machine P}

theorem repeat_reaches_doWhile (n : Nat) (q : Position)
    (h : (prog.evaluator n).AlwaysNegatable body cond m) :
    ((prog.evaluator n).goRound (.after body cond false) n m).1 = .error .outOfFuel ∨
      (prog.evaluator (n + 1)).goRound (.after body ⟨.unary .not cond, q⟩ true) (n + 1) m =
        (prog.evaluator n).goRound (.after body cond false) n m := by
  have hmono := prog.evaluator_mono (Nat.le_succ n)
  have hsame := Evaluator.goRound_same ((prog.evaluator n).AlwaysNegatable body cond)
    (hmono.block body) (fun hm hbody hsignal =>
      ⟨.inr (holds_not (hm _ (.first hbody hsignal)) true q),
        fun _ => hm.again hbody hsignal⟩) n h
  have hrounds := (Evaluator.Approximates.refl (prog.evaluator (n + 1))).goRound
    (.after body ⟨.unary .not cond, q⟩ true) (Nat.le_succ n) m
  rcases hsame with hout | hsame
  · exact .inl hout
  · rwa [hsame] at hrounds

theorem doWhile_reaches_repeat (n rounds : Nat) (q : Position)
    (h : (prog.evaluator (n + 1)).AlwaysNegatable body cond m) :
    ((prog.evaluator (n + 1)).goRound (.after body ⟨.unary .not cond, q⟩ true) rounds m).1 =
        .error .outOfFuel ∨
      (prog.evaluator (n + 1)).goRound (.after body cond false) rounds m =
        (prog.evaluator (n + 1)).goRound (.after body ⟨.unary .not cond, q⟩ true) rounds m := by
  have hmono := prog.evaluator_mono (Nat.le_succ n)
  refine Evaluator.goRound_same ((prog.evaluator (n + 1)).AlwaysNegatable body cond) (.refl _)
    (fun {m m₁ signal} hm hbody hsignal => ?_) rounds h
  have hless : (prog.evaluator n).Negatable cond m₁ := by
    intro answer m' hanswer
    rcases (hmono.isolated cond).elim hanswer with hout | hanswer'
    · cases hout
    · exact hm m₁ (.first hbody hsignal) answer m' hanswer'
  rw [holds_not hless true q]
  refine ⟨hmono.holds false (some cond) m₁, fun m₂ hgoes => hm.again hbody hsignal ?_⟩
  rcases (hmono.holds false (some cond)).elim hgoes with hout | hgoes'
  · cases hout
  · exact hgoes'

end Program

-- ---------------------------------------------------------------------------
-- Loops that ask before their bodies
-- ---------------------------------------------------------------------------

namespace Evaluator

theorem goRound_before (E : Evaluator P) (body : List Stmt) (cond : Expr) (n : Nat) :
    E.goRound (.before body cond) (n + 1) =
      E.whenTrue cond (E.afterBody body (E.goRound (.before body cond) n)) := by
  rw [goRound_succ, Loop.before, holds_true]
  rfl

theorem goRound_after_true (E : Evaluator P) (body : List Stmt) (cond : Expr) (n : Nat) :
    E.goRound (.after body cond true) (n + 1) =
      E.afterBody body (E.whenTrue cond (E.goRound (.after body cond true) n)) := by
  rw [goRound_after, holds_true]
  rfl

/-- Once in its body, the one loop goes as the other does from its start: both ask and run the body
in turn. -/
theorem rounds_shifted (E : Evaluator P) (body : List Stmt) (cond : Expr) (n : Nat) :
    (E.goRound (.after body cond true) n).Approximates
        (E.afterBody body (E.goRound (.before body cond) n)) ∧
      (E.afterBody body (E.goRound (.before body cond) n)).Approximates
        (E.goRound (.after body cond true) (n + 1)) := by
  have h := Approximates.refl E
  induction n with
  | zero =>
    refine ⟨.outOfFuel, ?_⟩
    rw [goRound_after_true]
    exact h.afterBody body .outOfFuel
  | succ n ih =>
    rw [goRound_before, goRound_after_true, goRound_after_true]
    exact ⟨h.afterBody body (h.whenTrue cond ih.1), h.afterBody body (h.whenTrue cond ih.2)⟩

theorem before_guarded (E : Evaluator P) (body : List Stmt) (cond : Expr) (n : Nat) :
    (E.goRound (.before body cond) n).Approximates
        (E.whenTrue cond (E.goRound (.after body cond true) n)) ∧
      (E.whenTrue cond (E.goRound (.after body cond true) n)).Approximates
        (E.goRound (.before body cond) (n + 1)) := by
  have h := Approximates.refl E
  constructor
  · cases n with
    | zero => exact .outOfFuel
    | succ n =>
      rw [goRound_before]
      exact h.whenTrue cond (rounds_shifted E body cond n).2
  · rw [goRound_before]
    exact h.whenTrue cond (rounds_shifted E body cond n).1

theorem stmts_singleton (E : Evaluator P) (s : Stmt) : E.stmts [s] = E.stmt s := by
  funext m
  rw [stmts]
  rcases h : E.stmt s m with ⟨halt | signal, m'⟩
  · rw [Exec.bind_error h]
  · rw [Exec.bind_ok h]
    cases signal <;> rfl

end Evaluator

namespace Program

theorem execStmt_guarded (prog : Program P) (n : Nat) (body : List Stmt) (cond : Expr)
    (p q : Position) :
    prog.execStmt (n + 1) ⟨.ite cond [⟨.doWhile body cond, q⟩] none, p⟩ =
      (prog.evaluator n).whenTrue cond
        (Exec.withScope (prog.execStmt n ⟨.doWhile body cond, q⟩)) := by
  let E := prog.evaluator n
  have hpositioned : (E.conditional cond [⟨.doWhile body cond, q⟩] none).Positioned := by
    have hE := prog.evaluator_positions n
    refine (Evaluator.condition_positioned hE cond).bind fun b => ?_
    split
    · exact Evaluator.block_positioned hE _
    · exact .pure _
  change Exec.located p (E.conditional cond [⟨.doWhile body cond, q⟩] none) = _
  rw [hpositioned.located_eq, Evaluator.conditional, Evaluator.block,
    Evaluator.stmts_singleton]
  rfl

end Program

-- ---------------------------------------------------------------------------
-- The forms agree
-- ---------------------------------------------------------------------------

def Exec.EndsLike (x y : Nat → Exec P Signal) (m : Machine P) : Prop :=
  ∀ run, Ends x m run → ∃ run', Ends y m run' ∧ SameRun run run'

theorem Exec.SameRun.between {x x' y y' : Exec P Signal} {m : Machine P}
    (h : SameRun (x' m) (y' m)) (hx : x.Approximates x') (hy : y'.Approximates y) :
    (x m).1 = .error .outOfFuel ∨ SameRun (x m) (y m) := by
  rcases hx m with hout | hx
  · exact .inl hout
  rw [hx] at h
  rcases hy m with hout | hy
  · exact .inl (h.outcome ▸ hout)
  · right
    rwa [hy]

namespace Program

variable {prog : Program P} {body : List Stmt} {cond : Expr} {m : Machine P}

theorem repeat_agrees (p q r : Position)
    (h : ∀ n, (prog.evaluator n).AlwaysNegatable body cond m.enterBlock)
    (run : Except Halt Signal × Machine P) :
    Exec.Ends (prog.execStmt · ⟨.repeatUntil body cond, p⟩) m run ↔
      Exec.Ends (prog.execStmt · ⟨.doWhile body ⟨.unary .not cond, q⟩, r⟩) m run := by
  have hrepeat (n : Nat) : prog.execStmt (n + 1) ⟨.repeatUntil body cond, p⟩ =
      Exec.withScope ((prog.evaluator n).goRound (.after body cond false) n) :=
    prog.execStmt_rounds n rfl rfl p
  have hdoWhile (n : Nat) : prog.execStmt (n + 1) ⟨.doWhile body ⟨.unary .not cond, q⟩, r⟩ =
      Exec.withScope
        ((prog.evaluator n).goRound (.after body ⟨.unary .not cond, q⟩ true) n) :=
    prog.execStmt_rounds n rfl rfl r
  refine ⟨fun hrun => hrun.same fun n => ⟨n + 1, ?_⟩,
    fun hrun => hrun.same fun n => ⟨n, ?_⟩⟩
  · cases n with
    | zero => exact .inl rfl
    | succ n =>
      rw [hrepeat, hdoWhile]
      exact Exec.withScope_same (repeat_reaches_doWhile n q (h n))
  · rcases n with _ | _ | n
    · exact .inl rfl
    · rw [hdoWhile]
      exact .inl rfl
    · rw [hrepeat, hdoWhile]
      exact Exec.withScope_same (doWhile_reaches_repeat n (n + 1) q (h (n + 1)))

theorem guarded_moves (n : Nat) (body : List Stmt)
    (h : m.enterBlock.SameNames ((prog.evaluator n).isolated cond m.enterBlock).2) :
    let E := prog.evaluator n
    let rounds := E.goRound (.after body cond true) n
    Exec.SameRun (Exec.withScope (E.whenTrue cond rounds) m)
      (E.whenTrue cond (Exec.withScope (Exec.withScope rounds)) m) := by
  intro E rounds
  have haround : Regime.Around (StmtForm.doWhile body cond).sites (.after body cond true) :=
    StmtForm.loop?_around rfl
  have hpads (k : Handle) : Exec.Oblivious k rounds :=
    (prog.oblivious k).regime.goRound ((prog.oblivious k).parts n) haround n
  have hconfined : Exec.Leads Machine.Confined rounds :=
    (confined_conserved prog).discipline.regime.goRound
      ((confined_conserved prog).discipline.parts n) haround n
  refine Exec.guard_moves hpads hconfined (fun k => ?_) ?_
  · exact (prog.oblivious k).regime.condition ((prog.oblivious k).parts n)
      (List.Subset.refl cond.sites)
  · rw [Evaluator.condition_machine]
    exact h

theorem while_agrees (p q r : Position)
    (h : ∀ n, m.enterBlock.SameNames ((prog.evaluator n).isolated cond m.enterBlock).2) :
    Exec.EndsLike (prog.execStmt · ⟨.whileLoop cond body, p⟩)
        (prog.execStmt · ⟨.ite cond [⟨.doWhile body cond, r⟩] none, q⟩) m ∧
      Exec.EndsLike (prog.execStmt · ⟨.ite cond [⟨.doWhile body cond, r⟩] none, q⟩)
        (prog.execStmt · ⟨.whileLoop cond body, p⟩) m := by
  have hwhile (n : Nat) : prog.execStmt (n + 1) ⟨.whileLoop cond body, p⟩ =
      Exec.withScope ((prog.evaluator n).goRound (.before body cond) n) :=
    prog.execStmt_rounds n rfl rfl p
  have hdoWhile (n : Nat) : prog.execStmt (n + 1) ⟨.doWhile body cond, r⟩ =
      Exec.withScope ((prog.evaluator n).goRound (.after body cond true) n) :=
    prog.execStmt_rounds n rfl rfl r
  have hnext (n : Nat) := prog.evaluator_mono (Nat.le_succ n)
  have hout {run run' : Except Halt Signal × Machine P} (hsame : Exec.SameRun run run')
      (hout : run'.1 = .error .outOfFuel) : run.1 = .error .outOfFuel :=
    hsame.outcome ▸ hout
  refine ⟨fun run hrun => hrun.reached hout fun n => ⟨n + 1, ?_⟩,
    fun run hrun => hrun.reached hout fun n => ⟨n + 1, ?_⟩⟩
  · cases n with
    | zero => exact .inl rfl
    | succ n =>
      rw [hwhile, execStmt_guarded, hdoWhile]
      refine (guarded_moves n body (h n)).between
        (Evaluator.before_guarded _ body cond n).1.withScope ?_
      exact (hnext n).whenTrue cond (.refl _)
  · cases n with
    | zero => exact .inl rfl
    | succ n =>
      rw [hwhile, execStmt_guarded]
      have hbranch : (prog.execStmt n ⟨.doWhile body cond, r⟩).Approximates
          (Exec.withScope ((prog.evaluator n).goRound (.after body cond true) n)) := by
        cases n with
        | zero => exact .outOfFuel
        | succ n =>
          rw [hdoWhile]
          exact ((hnext n).goRound _ (Nat.le_succ n)).withScope
      have hrounds := (hnext n).goRound (.before body cond) (Nat.le_refl (n + 1))
      have hself := Evaluator.Approximates.refl (prog.evaluator n)
      exact (guarded_moves n body (h n)).symm.between (hself.whenTrue cond hbranch.withScope)
        ((Evaluator.before_guarded _ body cond n).2.trans hrounds).withScope

/-- Loops agree. A `repeat` loop is the `do` loop with the negated condition if that has only
truth values which can be negated when the loop asks for it. A `while` loop is a `do` loop in
a conditional if its first condition binds no name. In every loop the step and the last
condition come after a body that ends with `continue`, and do not come after one that ends
with `break` or `return`. -/
theorem loops_agree (prog : Program P) (body : List Stmt) (cond : Expr) (m : Machine P)
    (p q r : Position) :
    ((∀ n, (prog.evaluator n).AlwaysNegatable body cond m.enterBlock) →
      ∀ run, Exec.Ends (prog.execStmt · ⟨.repeatUntil body cond, p⟩) m run ↔
        Exec.Ends (prog.execStmt · ⟨.doWhile body ⟨.unary .not cond, q⟩, r⟩) m run) ∧
    ((∀ n, m.enterBlock.SameNames ((prog.evaluator n).isolated cond m.enterBlock).2) →
      Exec.EndsLike (prog.execStmt · ⟨.whileLoop cond body, p⟩)
          (prog.execStmt · ⟨.ite cond [⟨.doWhile body cond, r⟩] none, q⟩) m ∧
        Exec.EndsLike (prog.execStmt · ⟨.ite cond [⟨.doWhile body cond, r⟩] none, q⟩)
          (prog.execStmt · ⟨.whileLoop cond body, p⟩) m) ∧
    ∀ form loop, form.loop? = some loop → ∀ n,
      prog.execStmt (n + 1) ⟨form, p⟩ = (prog.evaluator n).loop loop ∧
      ∀ rounds m₁ m₂ m₃ signal,
        (prog.evaluator n).holds loop.wanted loop.pre m₁ = (.ok true, m₂) →
        (prog.evaluator n).block loop.body m₂ = (.ok signal, m₃) →
          (signal = .normal ∨ signal = .cont →
            (prog.evaluator n).goRound loop (rounds + 1) m₁ =
              (prog.evaluator n).goOn loop rounds m₃) ∧
          (signal = .brk →
            (prog.evaluator n).goRound loop (rounds + 1) m₁ = (.ok .normal, m₃)) ∧
          ∀ v, signal = .ret v →
            (prog.evaluator n).goRound loop (rounds + 1) m₁ = (.ok (.ret v), m₃) := by
  refine ⟨repeat_agrees p q r, while_agrees p q r, fun form loop hloop n => ?_⟩
  refine ⟨prog.execStmt_loop n hloop p, fun rounds m₁ m₂ m₃ signal hpre hbody => ?_⟩
  rw [Evaluator.goRound_ok hpre hbody]
  refine ⟨?_, ?_, ?_⟩
  · rintro (rfl | rfl) <;> rfl
  · rintro rfl
    rfl
  · rintro v rfl
    rfl

end Program

namespace Workbench

def startingAt (n : Int64) : Machine platform :=
  Session.start ⟨[], .empty, none, [("x", .int n)]⟩ world

/-- Inside a loop that was started on this machine, after some of its rounds. -/
def midway (n : Int64) (journal : List (Event platform)) : Machine platform :=
  { (startingAt n).enterBlock with journal }

def counter : Expr := variableNamed "x"

/-- The body `{ x++; continue }`. -/
def upwards : List Stmt :=
  [⟨.expr ⟨.incDec ⟨[⟨"x", []⟩]⟩ true false, here⟩, here⟩, ⟨.cont, here⟩]

theorem upwards_counts (k : Nat) (n : Int64) (journal : List (Event platform)) :
    ∃ later, (bare.evaluator (k + 2)).block upwards (midway n journal) =
      (.ok .cont, midway (n + 1) later) := by
  refine ⟨.leftBlock [2, 1, 0] :: journal, ?_⟩
  rfl

theorem counter_runs (k : Nat) (n : Int64) (journal : List (Event platform)) :
    (bare.evaluator (k + 1)).isolated counter (midway n journal) =
      (.ok (some (.int n)), midway n journal) := by
  rfl

theorem counter_condition (k : Nat) (n : Int64) (journal : List (Event platform)) :
    (bare.evaluator (k + 1)).condition counter (midway n journal) =
      (.ok (n != 0), midway n journal) := by
  rw [Evaluator.condition_eq, Exec.bind_ok (Evaluator.value_ok (counter_runs k n journal))]
  exact Exec.viewed_ok rfl

theorem counter_holds (k : Nat) (wanted : Bool) (n : Int64) (journal : List (Event platform)) :
    (bare.evaluator (k + 1)).holds wanted (some counter) (midway n journal) =
      (.ok ((n != 0) == wanted), midway n journal) :=
  Exec.bind_ok (counter_condition k n journal)

theorem counter_negatable (k : Nat) (n : Int64) (journal : List (Event platform)) :
    (bare.evaluator k).Negatable counter (midway n journal) := by
  intro answer m' h
  cases k with
  | zero => cases h
  | succ k =>
    cases (counter_runs k n journal).symm.trans h
    refine ⟨.int n, rfl, .inr ?_⟩
    rw [View.scalar_of_kind? _ rfl]
    rfl

/-- `x` is a number whenever the loop asks, since every round counts it up. -/
theorem upwards_negatable (k : Nat) (n : Int64) (journal : List (Event platform)) :
    (bare.evaluator k).AlwaysNegatable upwards counter (midway n journal) := by
  intro m' hasks
  have hkept : ∃ n' later, m' = midway n' later := by
    refine hasks.keeps (K := fun m => ∃ n later, m = midway n later) ?_ ?_ ⟨n, journal, rfl⟩
    · rintro _ m₁ signal ⟨n, journal, rfl⟩ hrun
      match k with
      | 0 | 1 => cases hrun
      | k + 2 =>
        obtain ⟨later, hcounts⟩ := upwards_counts k n journal
        cases hcounts.symm.trans hrun
        exact ⟨n + 1, later, rfl⟩
    · rintro _ m₁ ⟨n, journal, rfl⟩ hgoes
      cases k with
      | zero => cases hgoes
      | succ k =>
        obtain ⟨-, rfl⟩ := Prod.mk.inj ((counter_holds k false n journal).symm.trans hgoes)
        exact ⟨n, journal, rfl⟩
  obtain ⟨n', later, rfl⟩ := hkept
  exact counter_negatable k n' later

theorem counter_keeps_names (k : Nat) (n : Int64) (journal : List (Event platform)) :
    (midway n journal).SameNames
      ((bare.evaluator k).isolated counter (midway n journal)).2 := by
  cases k with
  | zero => exact .refl (midway n journal).scopes
  | succ k =>
    rw [counter_runs]
    exact .refl (midway n journal).scopes

theorem repeat_round (k rounds : Nat) (n : Int64) (journal : List (Event platform)) :
    ∃ later, (bare.evaluator (k + 2)).goRound (.after upwards counter false) (rounds + 1)
        (midway n journal) =
      if n + 1 = 0 then
        (bare.evaluator (k + 2)).goRound (.after upwards counter false) rounds
          (midway (n + 1) later)
      else (.ok .normal, midway (n + 1) later) := by
  obtain ⟨later, hbody⟩ := upwards_counts k n journal
  refine ⟨later, ?_⟩
  rw [Evaluator.goRound_after, Evaluator.afterBody, Exec.bind_ok hbody,
    Signal.resume_goes_on (.inr rfl), Exec.bind_ok (counter_holds (k + 1) false (n + 1) later)]
  by_cases hn : n + 1 = 0
  · rw [if_pos hn, hn]
    rfl
  · rw [if_neg hn, bne_iff_ne.mpr hn]
    rfl

theorem while_round (k rounds : Nat) (n : Int64) (journal : List (Event platform)) :
    ∃ later, (bare.evaluator (k + 2)).goRound (.before upwards counter) (rounds + 1)
        (midway n journal) =
      if n = 0 then (.ok .normal, midway n journal)
      else (bare.evaluator (k + 2)).goRound (.before upwards counter) rounds
        (midway (n + 1) later) := by
  obtain ⟨later, hbody⟩ := upwards_counts k n journal
  refine ⟨later, ?_⟩
  rw [Evaluator.goRound_before, Evaluator.whenTrue,
    Exec.bind_ok (counter_condition (k + 1) n journal)]
  by_cases hn : n = 0
  · rw [if_pos hn, hn]
    rfl
  · rw [if_neg hn, if_pos (bne_iff_ne.mpr hn), Evaluator.afterBody, Exec.bind_ok hbody]
    rfl

theorem rounds_end {form : StmtForm} {loop : Loop} (hloop : form.loop? = some loop)
    (hinit : loop.init = none) {k : Nat} {n : Int64} {m : Machine platform}
    (hrounds : (bare.evaluator k).goRound loop k (midway n []) = (.ok .normal, m)) :
    Exec.Ends (bare.execStmt · ⟨form, here⟩) (startingAt n) (.ok .normal, m.leaveBlock) := by
  refine ⟨nofun, k + 1, (congrFun (bare.execStmt_rounds k hloop hinit here) _).trans ?_⟩
  have hinside : (startingAt n).enterBlock = midway n [] := rfl
  rw [Exec.withScope_apply, hinside, hrounds]

theorem repeat_ends : ∃ later,
    Exec.Ends (bare.execStmt · ⟨.repeatUntil upwards counter, here⟩) (startingAt (-1))
      (.ok .normal, (midway 1 later).leaveBlock) := by
  obtain ⟨journal, hfirst⟩ := repeat_round 0 1 (-1) []
  obtain ⟨later, hsecond⟩ := repeat_round 0 0 0 journal
  rw [if_pos (by decide)] at hfirst
  rw [if_neg (by decide)] at hsecond
  exact ⟨later, rounds_end rfl rfl (hfirst.trans hsecond)⟩

theorem while_ends : ∃ later,
    Exec.Ends (bare.execStmt · ⟨.whileLoop counter upwards, here⟩) (startingAt (-2))
      (.ok .normal, (midway 0 later).leaveBlock) := by
  obtain ⟨journal, hfirst⟩ := while_round 1 2 (-2) []
  obtain ⟨later, hsecond⟩ := while_round 1 1 (-1) journal
  obtain ⟨_, hthird⟩ := while_round 1 0 0 later
  rw [if_neg (by decide)] at hfirst hsecond
  rw [if_pos rfl] at hthird
  exact ⟨later, rounds_end rfl rfl (hfirst.trans (hsecond.trans hthird))⟩

/-- `repeat { x++; continue } until (x)` goes round twice from `-1`, and
`while (x) { x++; continue }` asks three times from `-2`. What they agree with ends as they do. -/
theorem counted_loops_agree :
    (∃ m, Exec.Ends (bare.execStmt · ⟨.repeatUntil upwards counter, here⟩) (startingAt (-1))
        (.ok .normal, m) ∧
      Exec.Ends (bare.execStmt · ⟨.doWhile upwards ⟨.unary .not counter, here⟩, here⟩)
        (startingAt (-1)) (.ok .normal, m) ∧
      m.scopes.lookup "x" = some (.int 1)) ∧
    (∃ m run',
      Exec.Ends (bare.execStmt · ⟨.whileLoop counter upwards, here⟩) (startingAt (-2))
        (.ok .normal, m) ∧
      Exec.Ends
        (bare.execStmt · ⟨.ite counter [⟨.doWhile upwards counter, here⟩] none, here⟩)
        (startingAt (-2)) run' ∧
      Exec.SameRun (.ok .normal, m) run' ∧
      m.scopes.lookup "x" = some (.int 0)) ∧
    ∃ later, (bare.evaluator 2).goRound (.after upwards counter false) 2 (midway (-1) []) =
      (bare.evaluator 2).goOn (.after upwards counter false) 1 (midway 0 later) := by
  obtain ⟨hrepeat, -, hrounds⟩ :=
    Program.loops_agree bare upwards counter (startingAt (-1)) here here here
  obtain ⟨-, hwhile, -⟩ :=
    Program.loops_agree bare upwards counter (startingAt (-2)) here here here
  obtain ⟨afterRepeat, hrepeatEnds⟩ := repeat_ends
  obtain ⟨afterWhile, hwhileEnds⟩ := while_ends
  obtain ⟨later, hbody⟩ := upwards_counts 0 (-1) []
  refine ⟨⟨_, hrepeatEnds, (hrepeat (upwards_negatable · (-1) []) _).mp hrepeatEnds,
    rfl⟩, ?_, ?_⟩
  · obtain ⟨run', hrun', hsame⟩ := (hwhile (counter_keeps_names · (-2) [])).1 _ hwhileEnds
    exact ⟨_, run', hwhileEnds, hrun', hsame, rfl⟩
  · obtain ⟨-, hround⟩ := hrounds (.repeatUntil upwards counter) _ rfl 2
    exact ⟨later, (hround 1 _ _ _ .cont rfl hbody).1 (.inr rfl)⟩

end Workbench

end HostScript
