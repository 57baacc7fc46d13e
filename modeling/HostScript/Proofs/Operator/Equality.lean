import HostScript.Proofs.Exec.Operands
import HostScript.Proofs.Operator.Unification

/-!
# Equality

Whether two values are equal is asked in two ways: by the operators `==` and `!=`, and by a switch
of the values of its cases. All give the same answer or the same failure (`equality_agrees`), except
that a switch goes on to its next case after a failure. An expression `e₁ == e₂` evaluates the
two one after the other on one stack, a switch each on a stack of its own.
-/

namespace HostScript

variable {P : Platform}

namespace View

variable {view : View} {a b : Value}

theorem applyBinary_equality (view : View) (a b : Value) :
    view.applyBinary .eq a b = (view.equals a b).map .bool ∧
      view.applyBinary .notEq a b = (view.equals a b).map fun equal => .bool !equal := by
  cases h : view.unify a b with
  | error e =>
    have hequals : view.equals a b = .error e := by
      rw [equals, h]
      rfl
    rw [applyBinary_error h, applyBinary_error h, hequals]
    exact ⟨rfl, rfl⟩
  | ok operands =>
    obtain ⟨x, y⟩ := operands
    obtain ⟨k, -, hx, hy⟩ := unify_kinds h
    rw [equals, h]
    cases x <;> cases hx <;> cases y <;> cases hy <;>
      exact ⟨applyBinary_ok h rfl, applyBinary_ok h rfl⟩

theorem equal_eq_map (view : View) (a b : Value) :
    view.binaryNamed "==" a b = (view.equals a b).map .bool :=
  (view.binaryNamed_symbol .eq a b).trans (view.applyBinary_equality a b).1

theorem notEqual_eq_map (view : View) (a b : Value) :
    view.binaryNamed "!=" a b = (view.equals a b).map fun equal => .bool !equal :=
  (view.binaryNamed_symbol .notEq a b).trans (view.applyBinary_equality a b).2

theorem equals_eq_ok {x : Bool} :
    view.equals a b = .ok x ↔ view.binaryNamed "==" a b = .ok (.bool x) := by
  rw [equal_eq_map]
  cases view.equals a b <;> simp [Except.map]

theorem equal_eq_ok {x : Bool} :
    view.binaryNamed "==" a b = .ok (.bool x) ↔ view.binaryNamed "!=" a b = .ok (.bool !x) := by
  rw [equal_eq_map, notEqual_eq_map]
  cases view.equals a b <;> simp [Except.map]

theorem caseMatches_iff :
    Evaluator.caseMatches view (some a) b = true ↔
      view.binaryNamed "==" a b = .ok (.bool true) := by
  rw [← equals_eq_ok, Evaluator.caseMatches]
  rcases view.equals a b with e | (_ | _) <;> simp [Except.toOption]

end View

-- ---------------------------------------------------------------------------
-- An operator between two expressions
-- ---------------------------------------------------------------------------

/-- An expression is an operand if it has a value, over any operands: it puts the value that it has
on a stack of its own. -/
theorem Program.operand_eq_ok {prog : Program P} {n : Nat} {e : Expr} {m m' : Machine P}
    {s : Operands} :
    (prog.evaluator n).operand e (m.on s) = (.ok (), m') ↔
      ∃ v m₁, (prog.evaluator n).isolated e m = (.ok (some v), m₁) ∧
        m₁.on (v :: s) = m' := by
  have hadds := (framing prog).evalExpr n e (m.on [])
  simp only [Evaluator.operand, Evaluator.isolated, Exec.operand_eq_ok, Exec.top_eq_ok]
  change (prog.evalExpr n e (m.on s) = _ ∧ _) ↔
    ∃ v m₁, (∃ m₂, prog.evalExpr n e (m.on []) = _ ∧ _) ∧ _
  -- Over any operands the expression runs as it does over none, and adds at most one.
  rcases hrun : prog.evalExpr n e (m.on []) with ⟨halt | ⟨⟩, m₁⟩
  · have hover : prog.evalExpr n e (m.on s) = (.error halt, m₁.atop s) :=
      (hadds.framed.elim hrun).1 s
    rw [hover]
    constructor
    · rintro ⟨⟨⟩, -⟩
    · rintro ⟨_, _, ⟨_, ⟨⟩, -⟩, -⟩
  · have hover : prog.evalExpr n e (m.on s) = (.ok (), m₁.atop s) := (hadds.framed.elim hrun).1 s
    obtain ⟨new, hnew, hallowed⟩ := hadds.elim hrun
    replace hnew : m₁.operands = new := hnew.trans (List.append_nil new)
    rw [hover]
    rcases new with _ | ⟨v, _ | ⟨_, _⟩⟩
    · constructor
      · rintro ⟨⟨⟩, hlength⟩
        simp [Machine.atop, Machine.on, hnew] at hlength
      · rintro ⟨v, _, ⟨_, ⟨⟩, hv, -⟩, -⟩
        rw [hnew] at hv
        cases hv
    · have hsame : m₁.atop s = (m₁.on m.operands).on (v :: s) := by
        simp only [Machine.atop, Machine.on, hnew, List.singleton_append]
      rw [hsame]
      constructor
      · rintro ⟨⟨⟩, -⟩
        exact ⟨v, _, ⟨m₁, rfl, by rw [hnew]; rfl, rfl⟩, rfl⟩
      · rintro ⟨w, _, ⟨_, ⟨⟩, hw, rfl⟩, rfl⟩
        rw [hnew] at hw
        cases hw
        exact ⟨rfl, by simp [Machine.on]⟩
    · have hfew := hallowed rfl
      simp at hfew

namespace Exec

theorem binary_eq_ok {op : BinaryOp} {a b : Value} {rest : Operands} {m m' : Machine P} :
    binary op (m.on (b :: a :: rest)) = (.ok (), m') ↔
      ∃ v, m.world.view.binaryNamed op.symbol a b = .ok v ∧ m.on (v :: rest) = m' := by
  have hstack : (m.on (b :: a :: rest)).operands = b :: a :: rest := rfl
  have hview : (m.on (b :: a :: rest)).world.view = m.world.view := rfl
  rw [binary, bind_ok (view_apply _), operate, hstack, hview, Calculator.binary_apply]
  cases m.world.view.binaryNamed op.symbol a b with
  | error e =>
    constructor
    · rintro ⟨⟩
    · rintro ⟨_, ⟨⟩, -⟩
  | ok v =>
    constructor
    · rintro ⟨⟩
      exact ⟨v, rfl, rfl⟩
    · rintro ⟨_, ⟨⟩, rfl⟩
      rfl

end Exec

theorem Evaluator.isolated_operands {E : Evaluator P} {e : Expr} {m m' : Machine P}
    {outcome : Except Halt (Option Value)} (h : E.isolated e m = (outcome, m')) :
    m'.operands = m.operands := by
  rw [isolated, Exec.top_apply] at h
  cases h
  rfl

theorem Program.isolated_binary {prog : Program P} {n : Nat} {e₁ e₂ : Expr} {op : BinaryOp}
    {p : Position} {v : Value} {m m' : Machine P} :
    (prog.evaluator (n + 1)).isolated ⟨.binary e₁ [(op, e₂)], p⟩ m = (.ok (some v), m') ↔
      ∃ a m₁ b, (prog.evaluator n).isolated e₁ m = (.ok (some a), m₁) ∧
        (prog.evaluator n).isolated e₂ m₁ = (.ok (some b), m') ∧
        m'.world.view.binaryNamed op.symbol a b = .ok v := by
  have hform : (prog.evaluator (n + 1)).expr ⟨.binary e₁ [(op, e₂)], p⟩ =
      Exec.located p ((prog.evaluator n).operand e₁ >>= fun _ =>
        (prog.evaluator n).operand e₂ >>= fun _ => Exec.binary op) := by
    change Exec.located p ((prog.evaluator n).operand e₁ >>= fun _ =>
      (prog.evaluator n).operand e₂ >>= fun _ => Exec.binary op >>= fun _ => pure ()) = _
    simp only [bind_pure_unit]
  rw [Evaluator.isolated, hform, Exec.top_eq_ok]
  simp only [Exec.located_eq_ok, Exec.bind_eq_ok]
  constructor
  · rintro ⟨_, ⟨_, _, h₁, _, _, h₂, h₃⟩, hv, rfl⟩
    obtain ⟨a, m₁, ha, rfl⟩ := operand_eq_ok.mp h₁
    obtain ⟨b, m₂, hb, rfl⟩ := operand_eq_ok.mp h₂
    obtain ⟨w, hw, rfl⟩ := Exec.binary_eq_ok.mp h₃
    cases hv
    have hback : m₂.operands = m.operands :=
      (Evaluator.isolated_operands hb).trans (Evaluator.isolated_operands ha)
    refine ⟨a, m₁, b, ha, ?_, hw⟩
    rw [← hback]
    exact hb
  · rintro ⟨a, m₁, b, ha, hb, hv⟩
    have hback : m'.operands = m.operands :=
      (Evaluator.isolated_operands hb).trans (Evaluator.isolated_operands ha)
    refine ⟨m'.on [v], ⟨(), _, operand_eq_ok.mpr ⟨a, m₁, ha, rfl⟩, (), _,
      operand_eq_ok.mpr ⟨b, m', hb, rfl⟩, Exec.binary_eq_ok.mpr ⟨v, hv, rfl⟩⟩, rfl, ?_⟩
    rw [← hback]
    rfl

-- ---------------------------------------------------------------------------
-- A switch between two expressions
-- ---------------------------------------------------------------------------

namespace Evaluator

variable {E : Evaluator P}

theorem value_eq_ok {e : Expr} {what : String} {v : Value} {m m' : Machine P} :
    E.value e what m = (.ok v, m') ↔ E.isolated e m = (.ok (some v), m') := by
  rw [value, Exec.bind_eq_ok]
  constructor
  · rintro ⟨_ | w, m₁, h, hw⟩
    · rw [Exec.located_eq_ok] at hw
      cases hw
    · cases hw
      exact h
  · exact fun h => ⟨some v, m', h, rfl⟩

/-- A switch with one value matches it if it matches the value of the subject on the world that both
have left. -/
theorem firstMatch_single {e₁ e₂ : Expr} {body : List Stmt} {q : Position} {m m' : Machine P} :
    (∃ c, (E.subject (some e₁) >>= fun a => E.firstMatch a [⟨[e₂], body, q⟩]) m =
        (.ok (some c), m')) ↔
      ∃ a m₁ b, E.isolated e₁ m = (.ok (some a), m₁) ∧
        E.isolated e₂ m₁ = (.ok (some b), m') ∧
        caseMatches m'.world.view (some a) b = true := by
  simp only [subject, firstMatch, anyMatches, Exec.bind_eq_ok, value_eq_ok]
  constructor
  · rintro ⟨c, _, m₁, ⟨a, _, ha, ⟨⟩⟩, found, m₂,
      ⟨b, m₃, hb, view, _, ⟨⟩, hfound⟩, hc⟩
    by_cases hmatch : caseMatches m₃.world.view (some a) b = true
    · rw [if_pos hmatch] at hfound
      cases hfound
      cases hc
      exact ⟨a, m₁, b, ha, hb, hmatch⟩
    · rw [if_neg hmatch] at hfound
      cases hfound
      cases hc
  · rintro ⟨a, m₁, b, ha, hb, hmatch⟩
    refine ⟨_, some a, m₁, ⟨a, m₁, ha, rfl⟩, true, m',
      ⟨b, m', hb, _, m', rfl, ?_⟩, rfl⟩
    rw [if_pos hmatch]
    rfl

end Evaluator

/-- Comparing two values, `==` and `!=` agree, on the answer as on the failure, and a value matches
the subject of a switch if `==` is true of the two. So a switch matches the value of an expression
exactly if `==` between the subject and the expression is true, and leaves the same machine behind.
-/
theorem equality_agrees (prog : Program P) (n : Nat) :
    (∀ (view : View) (a b : Value),
      (∀ x, (view.equals a b = .ok x ↔ view.binaryNamed "==" a b = .ok (.bool x)) ∧
        (view.binaryNamed "==" a b = .ok (.bool x) ↔
          view.binaryNamed "!=" a b = .ok (.bool !x))) ∧
      ((∃ x, view.equals a b = .ok x) ∨
        ∃ e, view.equals a b = .error e ∧ view.binaryNamed "==" a b = .error e ∧
          view.binaryNamed "!=" a b = .error e) ∧
      (Evaluator.caseMatches view (some a) b = true ↔
        view.binaryNamed "==" a b = .ok (.bool true))) ∧
    ∀ (e₁ e₂ : Expr) (p q : Position) (body : List Stmt) (m m' : Machine P),
      (∃ c, ((prog.evaluator n).subject (some e₁) >>= fun a =>
          (prog.evaluator n).firstMatch a [⟨[e₂], body, q⟩]) m = (.ok (some c), m')) ↔
        (prog.evaluator (n + 1)).isolated ⟨.binary e₁ [(.eq, e₂)], p⟩ m =
          (.ok (some (.bool true)), m') := by
  refine ⟨fun view a b => ⟨fun x => ⟨View.equals_eq_ok, View.equal_eq_ok⟩, ?_,
    View.caseMatches_iff⟩, fun e₁ e₂ p q body m m' => ?_⟩
  · rw [View.equal_eq_map, View.notEqual_eq_map]
    cases view.equals a b with
    | ok x => exact .inl ⟨x, rfl⟩
    | error e => exact .inr ⟨e, rfl, rfl, rfl⟩
  · rw [Evaluator.firstMatch_single, Program.isolated_binary]
    simp only [View.caseMatches_iff, BinaryOp.symbol]

end HostScript
