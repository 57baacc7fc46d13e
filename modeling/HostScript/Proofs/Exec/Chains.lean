import HostScript.Proofs.Exec.Fuel
import HostScript.Proofs.Exec.Paths
import HostScript.Proofs.Exec.Positions
import HostScript.Proofs.Operator.Equality

/-!
# Chains of operators

A chain `first op₁ e₁ op₂ e₂ …` is a fold over its operands (`Program.isolated_chain`). It
goes as `Evaluator.ChainRuns` says: operands in order, each operator as soon as its right operand is
there, and nothing behind what fails. The tree that nests to the left is the same fold, an operator
to each node, so that both end alike (`Program.chain_folds`).
-/

namespace HostScript

variable {P : Platform} {α β : Type}

-- ---------------------------------------------------------------------------
-- Ends that differ in a position
-- ---------------------------------------------------------------------------

namespace Exec

structure SameEnd (r r' : Except Halt α × Machine P) : Prop where
  machine : r.2 = r'.2
  outcome : r.1.mapError Halt.unlocated = r'.1.mapError Halt.unlocated

namespace SameEnd

variable {r r' r'' : Except Halt α × Machine P}

theorem refl (r : Except Halt α × Machine P) : SameEnd r r := ⟨rfl, rfl⟩

theorem symm (h : SameEnd r r') : SameEnd r' r := ⟨h.machine.symm, h.outcome.symm⟩

theorem trans (h : SameEnd r r') (h' : SameEnd r' r'') : SameEnd r r'' :=
  ⟨h.machine.trans h'.machine, h.outcome.trans h'.outcome⟩

theorem outOfFuel (h : SameEnd r r') (hr : r.1 = .error .outOfFuel) :
    r'.1 = .error .outOfFuel := by
  have ho := h.outcome
  rw [hr] at ho
  rcases hr' : r'.1 with (e | _) | a <;> rw [hr'] at ho <;> cases ho

end SameEnd

/-- A computation ends as another one does, but for where a failure stands, unless it runs
out of fuel. -/
def Refines (x y : Exec P α) : Prop :=
  ∀ m, (x m).1 = .error .outOfFuel ∨ SameEnd (x m) (y m)

namespace Refines

variable {x y z : Exec P α}

theorem refl (x : Exec P α) : Refines x x :=
  fun m => .inr (.refl (x m))

theorem of_approximates (h : Approximates x y) : Refines x y := by
  intro m
  rcases h m with hout | hsame
  · exact .inl hout
  · exact .inr (hsame ▸ .refl _)

theorem of_agree (h : Agree x y) : Refines x y :=
  fun m => .inr ⟨h.machine m, h.outcome m⟩

theorem trans (h : Refines x y) (h' : Refines y z) : Refines x z := by
  intro m
  rcases h m with hout | hxy
  · exact .inl hout
  · rcases h' m with hout | hyz
    · exact .inl (hxy.symm.outOfFuel hout)
    · exact .inr (hxy.trans hyz)

theorem bind {f g : α → Exec P β} (h : Refines x y) (hfg : ∀ a, Refines (f a) (g a)) :
    Refines (x >>= f) (y >>= g) := by
  intro m
  have hm := h m
  rcases hx : x m with ⟨halt | a, m₁⟩ <;> rcases hy : y m with ⟨halt' | a', m₂⟩ <;>
    rw [hx, hy] at hm
  · rw [bind_error hx, bind_error hy]
    rcases hm with hout | ⟨hmachine, hout⟩
    · cases hout
      exact .inl rfl
    · exact .inr ⟨hmachine, congrArg Except.error (Except.error.inj hout)⟩
  · rcases hm with hout | ⟨-, hout⟩
    · cases hout
      exact .inl (congrArg Prod.fst (bind_error hx))
    · cases hout
  · rcases hm with hout | ⟨-, hout⟩ <;> cases hout
  · rcases hm with hout | ⟨hmachine, hout⟩
    · cases hout
    · cases hmachine
      cases hout
      rw [bind_ok hx, bind_ok hy]
      exact hfg a m₁

theorem map (f : α → β) (h : Refines x y) : Refines (f <$> x) (f <$> y) := by
  rw [map_eq_pure_bind, map_eq_pure_bind]
  exact h.bind fun _ => .refl _

end Refines

theorem map_some_eq {x : Exec P α} {m : Machine P} {r : Except Halt α × Machine P} :
    (some <$> x) m = (r.1.map some, r.2) ↔ x m = r := by
  have hmap : (some <$> x) m = ((x m).1.map some, (x m).2) := by
    rw [map_eq_pure_bind, bind_apply]
    rcases x m with ⟨_ | _, _⟩ <;> rfl
  rw [hmap, Prod.ext_iff, Prod.ext_iff]
  refine and_congr_left' ?_
  rcases (x m).1 with _ | _ <;> rcases r.1 with _ | _ <;> simp [Except.map]

theorem Ends.refined {x y : Nat → Exec P α} {m : Machine P} {r : Except Halt α × Machine P}
    (h : Ends x m r) (hxy : ∀ n, ∃ n', Refines (x n) (y n')) :
    ∃ r', Ends y m r' ∧ SameEnd r r' :=
  h.reached (fun hsame => hsame.symm.outOfFuel) fun n => (hxy n).imp fun _ hn => hn m

end Exec

-- ---------------------------------------------------------------------------
-- Operands
-- ---------------------------------------------------------------------------

/-- What puts a value on top of some operands ends as what gives the value, but for the operands
that are left by a failure. -/
inductive Exec.Puts (s : Operands) :
    Except Halt Value × Machine P → Except Halt Unit × Machine P → Prop
  | value (v : Value) (m : Machine P) : Puts s (.ok v, m) (.ok (), m.on (v :: s))
  | halt (halt : Halt) {m m' : Machine P} (h : m.on [] = m'.on []) :
    Puts s (.error halt, m) (.error halt, m')

theorem Machine.on_same {m m₁ m₂ : Machine P} (hoperands : SameOperands m m₁)
    (h : m₁.on [] = m₂.on []) : m₂.on m.operands = m₁ := by
  have hon := congrArg (Machine.on · m.operands) h
  exact hon.symm.trans (by rw [← hoperands]; rfl)

namespace Program

theorem isolated_apply (prog : Program P) (n : Nat) (e : Expr) (m : Machine P) :
    (prog.evaluator n).isolated e m =
      ((prog.evalExpr n e (m.on [])).1.map fun _ => (prog.evalExpr n e (m.on [])).2.operands.head?,
        (prog.evalExpr n e (m.on [])).2.on m.operands) :=
  Exec.top_apply _ m

theorem operand_puts (prog : Program P) (n : Nat) (e : Expr) (m : Machine P) (s : Operands) :
    Exec.Puts s ((prog.evaluator n).value e "operand" m)
      ((prog.evaluator n).operand e (m.on s)) := by
  have hframed := ((framing prog).evalExpr n e (m.on [])).framed
  have happly := prog.isolated_apply n e m
  rcases hrun : prog.evalExpr n e (m.on []) with ⟨halt | ⟨⟩, m₁⟩ <;> rw [hrun] at happly
  · have hover : (prog.evaluator n).expr e (m.on s) = (.error halt, m₁.atop s) :=
      (hframed.elim hrun).1 s
    rw [(Evaluator.Stops.fails happly).value, Evaluator.operand, Exec.operand_error hover]
    exact .halt halt rfl
  · have hover : (prog.evaluator n).expr e (m.on s) = (.ok (), m₁.atop s) :=
      (hframed.elim hrun).1 s
    cases hhead : m₁.operands.head? with
    | none =>
      have hempty : m₁.operands = [] := List.head?_eq_none_iff.mp hhead
      have hnone : (prog.evaluator n).isolated e m = (.ok none, m₁.on m.operands) := by
        rw [happly, hhead]
        rfl
      rw [(Evaluator.Stops.empty hnone).value, Evaluator.operand,
        Exec.operand_empty hover (by simp [Machine.atop, Machine.on, hempty])]
      exact .halt _ rfl
    | some v =>
      have hsome : (prog.evaluator n).isolated e m = (.ok (some v), m₁.on m.operands) := by
        rw [happly, hhead]
        rfl
      rw [Evaluator.value_ok hsome, operand_eq_ok.mpr ⟨v, _, hsome, rfl⟩]
      exact .value v _

end Program

theorem Exec.viewed_operands (p : Position) (f : View → Except Failure α) :
    Leads SameOperands (viewed (P := P) p f) := by
  intro m
  cases h : f m.world.view with
  | ok a =>
    rw [viewed_ok h]
    rfl
  | error e =>
    rw [viewed_error h]
    rfl

namespace Evaluator

variable {E : Evaluator P} {p : Position}

def fold (E : Evaluator P) (p : Position) : Value → List (BinaryOp × Expr) → Exec P Value
  | a, [] => return a
  | a, (op, e) :: rest => do
    let b ← E.value e "operand"
    let v ← Exec.viewed p (·.binaryNamed op.symbol a b)
    E.fold p v rest

def folded (E : Evaluator P) (p : Position) (first : Expr) (rest : List (BinaryOp × Expr)) :
    Exec P Value := do
  E.fold p (← E.value first "operand") rest

theorem fold_append (a : Value) (before rest : List (BinaryOp × Expr)) :
    E.fold p a (before ++ rest) = (do E.fold p (← E.fold p a before) rest) := by
  induction before generalizing a with
  | nil => rfl
  | cons entry before ih => simp [fold, ih]

theorem Approximates.fold {E' : Evaluator P} (h : E.Approximates E') (p : Position) (a : Value)
    (rest : List (BinaryOp × Expr)) : (E.fold p a rest).Approximates (E'.fold p a rest) := by
  induction rest generalizing a with
  | nil => exact .refl _
  | cons entry rest ih => exact (h.value entry.2 "operand").bind fun b => .bind (.refl _) ih

theorem Approximates.folded {E' : Evaluator P} (h : E.Approximates E') (p : Position)
    (first : Expr) (rest : List (BinaryOp × Expr)) :
    (E.folded p first rest).Approximates (E'.folded p first rest) :=
  (h.value first "operand").bind fun a => h.fold p a rest

theorem folded_append (first : Expr) (before rest : List (BinaryOp × Expr)) :
    E.folded p first (before ++ rest) = (do E.fold p (← E.folded p first before) rest) := by
  simp [folded, fold_append]

theorem value_operands (e : Expr) (use : String) : Exec.Leads SameOperands (E.value e use) := by
  intro m
  rcases E.gives_or_stops e use m with ⟨v, m', he⟩ | ⟨halt, m', he⟩
  · rw [value_ok he]
    exact isolated_operands he
  · rw [he.value]
    cases he with
    | fails he => exact isolated_operands he
    | empty he => exact isolated_operands he

theorem fold_operands (p : Position) (a : Value) (rest : List (BinaryOp × Expr)) :
    Exec.Leads SameOperands (E.fold p a rest) := by
  induction rest generalizing a with
  | nil => exact fun _ => rfl
  | cons entry rest ih =>
    exact (value_operands entry.2 "operand").bind fun b => .bind (Exec.viewed_operands p _) ih

theorem folded_operands (p : Position) (first : Expr) (rest : List (BinaryOp × Expr)) :
    Exec.Leads SameOperands (E.folded p first rest) :=
  (value_operands first "operand").bind fun a => fold_operands p a rest

end Evaluator

namespace Exec

theorem Puts.bind {s s' : Operands} {x : Exec P Value} {f : Value → Exec P Value}
    {y g : Exec P Unit} {m m' : Machine P} (h : Puts s (x m) (y m'))
    (hf : ∀ v m₁, Puts s' (f v m₁) (g (m₁.on (v :: s)))) :
    Puts s' ((x >>= f) m) ((y >>= fun _ => g) m') := by
  rcases hx : x m with ⟨halt | v, m₁⟩ <;> rcases hy : y m' with ⟨halt' | ⟨⟩, m₂⟩ <;>
    rw [hx, hy] at h <;> cases h
  · rw [bind_error hx, bind_error hy]
    exact .halt halt ‹_›
  · rw [bind_ok hx, bind_ok hy]
    exact hf v m₁

theorem binary_puts (p : Position) (op : BinaryOp) (a b : Value) (m : Machine P) (s : Operands) :
    Puts s (viewed p (·.binaryNamed op.symbol a b) m)
      (located p (binary op) (m.on (b :: a :: s))) := by
  have hoperate : binary op (m.on (b :: a :: s)) =
      operate (Calculator.binary m.world.view op.symbol) (m.on (b :: a :: s)) :=
    bind_ok (view_apply _)
  have hstack : (m.on (b :: a :: s)).operands = b :: a :: s := rfl
  rw [located, mapFailure_apply, hoperate, operate, hstack, Calculator.binary_apply]
  cases h : m.world.view.binaryNamed op.symbol a b with
  | ok v =>
    rw [viewed_ok h]
    exact .value v m
  | error e =>
    rw [viewed_error h]
    exact .halt _ rfl

end Exec

namespace Program

variable {prog : Program P}

theorem fold_puts (prog : Program P) (n : Nat) (p : Position) (a : Value)
    (rest : List (BinaryOp × Expr)) (m : Machine P) (s : Operands) :
    Exec.Puts s ((prog.evaluator n).fold p a rest m)
      (Exec.located p ((prog.evaluator n).chain rest) (m.on (a :: s))) := by
  induction rest generalizing a m with
  | nil => exact .value a m
  | cons entry rest ih =>
    obtain ⟨op, e⟩ := entry
    have hpositioned : ((prog.evaluator n).operand e).Positioned :=
      ((prog.evaluator_positions n).expr e).operand
    rw [Evaluator.chain, Exec.located_bind, hpositioned.located_eq]
    refine (prog.operand_puts n e m (a :: s)).bind fun b m₁ => ?_
    rw [Exec.located_bind]
    exact (Exec.binary_puts p op a b m₁ s).bind fun v m₂ => ih v m₂

/-- What puts a value on no operands has that value, if it gives the operands back. -/
theorem isolated_of_puts {n : Nat} {e : Expr} {x : Exec P Value}
    (hx : Exec.Leads SameOperands x)
    (h : ∀ m, Exec.Puts [] (x m) (prog.evalExpr n e (m.on []))) :
    (prog.evaluator n).isolated e = some <$> x := by
  funext m
  have hputs := h m
  have hoperands := hx m
  rw [isolated_apply, map_eq_pure_bind]
  rcases hvalue : x m with ⟨halt | v, m₁⟩ <;>
    rcases hrun : prog.evalExpr n e (m.on []) with ⟨halt' | ⟨⟩, m₂⟩ <;>
    rw [hvalue, hrun] at hputs <;> rw [hvalue] at hoperands <;> cases hputs
  · rw [Exec.bind_error hvalue]
    exact congrArg _ (Machine.on_same hoperands ‹_›)
  · rw [Exec.bind_ok hvalue]
    exact congrArg _ (Machine.on_same hoperands rfl)

theorem isolated_chain (prog : Program P) (n : Nat) (first : Expr)
    (rest : List (BinaryOp × Expr)) (p : Position) :
    (prog.evaluator (n + 1)).isolated ⟨.binary first rest, p⟩ =
      some <$> (prog.evaluator n).folded p first rest := by
  refine isolated_of_puts ((prog.evaluator n).folded_operands p first rest) fun m => ?_
  have hpositioned : ((prog.evaluator n).operand first).Positioned :=
    ((prog.evaluator_positions n).expr first).operand
  change Exec.Puts [] _ (Exec.located p ((prog.evaluator n).operand first >>= fun _ =>
    (prog.evaluator n).chain rest) (m.on []))
  rw [Exec.located_bind, hpositioned.located_eq]
  exact (prog.operand_puts n first m []).bind fun a m₁ => prog.fold_puts n p a rest m₁ []

end Program

-- ---------------------------------------------------------------------------
-- How a chain goes
-- ---------------------------------------------------------------------------

namespace Evaluator

variable {E : Evaluator P} {p : Position} {a : Value} {first : Expr}
  {rest : List (BinaryOp × Expr)} {m : Machine P} {r : Except Halt Value × Machine P}

inductive FoldRuns (E : Evaluator P) (p : Position) :
    Value → List (BinaryOp × Expr) → Machine P → Except Halt Value × Machine P → Prop
  | done (a : Value) (m : Machine P) : FoldRuns E p a [] m (.ok a, m)
  | operandStops {a : Value} {op : BinaryOp} {e : Expr} {rest : List (BinaryOp × Expr)}
      {m m' : Machine P} {halt : Halt} :
    E.Stops e "operand" m halt m' → FoldRuns E p a ((op, e) :: rest) m (.error halt, m')
  | operatorFails {a b : Value} {op : BinaryOp} {e : Expr} {rest : List (BinaryOp × Expr)}
      {m m' : Machine P} {failure : Failure} :
    E.isolated e m = (.ok (some b), m') →
    m'.world.view.binaryNamed op.symbol a b = .error failure →
      FoldRuns E p a ((op, e) :: rest) m (.error (.failed (failure.locate p)), m')
  | applied {a b v : Value} {op : BinaryOp} {e : Expr} {rest : List (BinaryOp × Expr)}
      {m m₁ : Machine P} {r : Except Halt Value × Machine P} :
    E.isolated e m = (.ok (some b), m₁) → m₁.world.view.binaryNamed op.symbol a b = .ok v →
    FoldRuns E p v rest m₁ r → FoldRuns E p a ((op, e) :: rest) m r

inductive ChainRuns (E : Evaluator P) (p : Position) (first : Expr)
    (rest : List (BinaryOp × Expr)) (m : Machine P) : Except Halt Value × Machine P → Prop
  | stops {halt : Halt} {m' : Machine P} :
    E.Stops first "operand" m halt m' → ChainRuns E p first rest m (.error halt, m')
  | folds {a : Value} {m₁ : Machine P} {r : Except Halt Value × Machine P} :
    E.isolated first m = (.ok (some a), m₁) → E.FoldRuns p a rest m₁ r →
      ChainRuns E p first rest m r

theorem FoldRuns.fold (h : E.FoldRuns p a rest m r) : E.fold p a rest m = r := by
  induction h with
  | done => rfl
  | operandStops he => rw [Evaluator.fold, Exec.bind_error he.value]
  | operatorFails he hop =>
    rw [Evaluator.fold, Exec.bind_ok (value_ok he), Exec.bind_error (Exec.viewed_error hop)]
  | applied he hop _ ih =>
    rw [Evaluator.fold, Exec.bind_ok (value_ok he), Exec.bind_ok (Exec.viewed_ok hop), ih]

theorem foldRuns (E : Evaluator P) (p : Position) (a : Value) (rest : List (BinaryOp × Expr))
    (m : Machine P) : E.FoldRuns p a rest m (E.fold p a rest m) := by
  suffices h : ∃ r, E.FoldRuns p a rest m r by
    obtain ⟨r, hr⟩ := h
    rwa [hr.fold]
  induction rest generalizing a m with
  | nil => exact ⟨_, .done a m⟩
  | cons entry rest ih =>
    obtain ⟨op, e⟩ := entry
    rcases E.gives_or_stops e "operand" m with ⟨b, m₁, he⟩ | ⟨halt, m', he⟩
    · cases hop : m₁.world.view.binaryNamed op.symbol a b with
      | error failure => exact ⟨_, .operatorFails he hop⟩
      | ok v =>
        obtain ⟨r, hr⟩ := ih v m₁
        exact ⟨r, .applied he hop hr⟩
    · exact ⟨_, .operandStops he⟩

theorem chainRuns_iff : E.ChainRuns p first rest m r ↔ E.folded p first rest m = r := by
  constructor
  · intro h
    cases h with
    | stops he => rw [folded, Exec.bind_error he.value]
    | folds he hr => rw [folded, Exec.bind_ok (value_ok he), hr.fold]
  · rintro rfl
    rcases E.gives_or_stops first "operand" m with ⟨a, m₁, he⟩ | ⟨halt, m', he⟩
    · rw [folded, Exec.bind_ok (value_ok he)]
      exact .folds he (E.foldRuns p a rest m₁)
    · rw [folded, Exec.bind_error he.value]
      exact .stops he

end Evaluator

-- ---------------------------------------------------------------------------
-- The tree that nests to the left
-- ---------------------------------------------------------------------------

/-- The trees of a chain in which each operator has all that comes before it as its left operand,
wherever they stand. -/
inductive Expr.LeftNested (first : Expr) : List (BinaryOp × Expr) → Expr → Prop
  | first : LeftNested first [] first
  | step {rest : List (BinaryOp × Expr)} {left : Expr} (op : BinaryOp) (e : Expr) (q : Position) :
    LeftNested first rest left →
      LeftNested first (rest ++ [(op, e)]) ⟨.binary left [(op, e)], q⟩

theorem Exec.viewed_agrees (p q : Position) (f : View → Except Failure α) :
    Agree (P := P) (viewed p f) (viewed q f) := by
  have hp := Agree.located (P := P) p (do ofExcept (f (← view)))
  have hq := Agree.located (P := P) q (do ofExcept (f (← view)))
  exact ⟨fun m => (hp.machine m).trans (hq.machine m).symm,
    fun m => (hp.outcome m).trans (hq.outcome m).symm⟩

theorem Evaluator.fold_agrees (E : Evaluator P) (p q : Position) (a : Value)
    (rest : List (BinaryOp × Expr)) : (E.fold p a rest).Agree (E.fold q a rest) := by
  induction rest generalizing a with
  | nil => exact .refl _
  | cons entry rest ih =>
    exact .bind (.refl _) fun b => .bind (Exec.viewed_agrees p q _) ih

namespace Program

variable {prog : Program P} {first tree : Expr} {rest : List (BinaryOp × Expr)}

theorem value_chain (prog : Program P) (n : Nat) (first : Expr) (rest : List (BinaryOp × Expr))
    (p : Position) (use : String) :
    (prog.evaluator (n + 1)).value ⟨.binary first rest, p⟩ use =
      (prog.evaluator n).folded p first rest := by
  rw [Evaluator.value, isolated_chain]
  simp

/-- With a step more for each operator, the tree gets as far as the chain. -/
theorem folded_refines_tree (prog : Program P) (n : Nat) (p : Position)
    (h : first.LeftNested rest tree) :
    ((prog.evaluator n).folded p first rest).Refines
      ((prog.evaluator (n + rest.length)).value tree "operand") := by
  induction h with
  | first =>
    simp only [Evaluator.folded, Evaluator.fold, bind_pure]
    exact .refl _
  | @step rest left op e q h ih =>
    have hmono := prog.evaluator_mono (Nat.le_add_right n rest.length)
    rw [Evaluator.folded_append, List.length_append, List.length_singleton, ← Nat.add_assoc,
      value_chain]
    exact ih.bind fun a => (Exec.Refines.of_approximates (hmono.fold p a _)).trans
      (.of_agree (Evaluator.fold_agrees _ p q a _))

theorem tree_refines_folded (prog : Program P) (n : Nat) (p : Position)
    (h : first.LeftNested rest tree) :
    ((prog.evaluator n).value tree "operand").Refines
      ((prog.evaluator n).folded p first rest) := by
  induction h generalizing n with
  | first =>
    simp only [Evaluator.folded, Evaluator.fold, bind_pure]
    exact .refl _
  | @step rest left op e q h ih =>
    cases n with
    | zero => exact fun m => .inl rfl
    | succ n =>
      have hmono := prog.evaluator_mono (Nat.le_succ n)
      rw [value_chain]
      refine .trans ?_ (.of_approximates (hmono.folded p first _))
      rw [Evaluator.folded_append]
      exact (ih n).bind fun a => .of_agree (Evaluator.fold_agrees _ q p a _)

theorem isolated_eq_value (prog : Program P) (n : Nat) (first : Expr)
    (rest : List (BinaryOp × Expr)) (p : Position) :
    (prog.evaluator n).isolated ⟨.binary first rest, p⟩ =
      some <$> (prog.evaluator n).value ⟨.binary first rest, p⟩ "operand" := by
  cases n with
  | zero => rfl
  | succ n => rw [value_chain, isolated_chain]

/-- A chain evaluates its operands in order, each of them once, and applies each operator to what it
has so far as soon as its right operand has a value, whatever operators these are; what fails is the
last thing that happens. If it has an operator, it ends as the tree does that nests to the left:
with the same value or failure, which may stand elsewhere, and on the same machine. -/
theorem chain_folds (prog : Program P) (first : Expr) (rest : List (BinaryOp × Expr))
    (p : Position) (m : Machine P) :
    (∀ n r,
      (prog.evaluator (n + 1)).isolated ⟨.binary first rest, p⟩ m = (r.1.map some, r.2) ↔
        (prog.evaluator n).ChainRuns p first rest m r) ∧
    ∀ tree, first.LeftNested rest tree → rest ≠ [] →
      (∀ r, Exec.Ends (fun n => (prog.evaluator n).isolated ⟨.binary first rest, p⟩) m r →
        ∃ r', Exec.Ends (fun n => (prog.evaluator n).isolated tree) m r' ∧
          Exec.SameEnd r r') ∧
      ∀ r', Exec.Ends (fun n => (prog.evaluator n).isolated tree) m r' →
        ∃ r, Exec.Ends (fun n => (prog.evaluator n).isolated ⟨.binary first rest, p⟩) m r ∧
          Exec.SameEnd r' r := by
  refine ⟨fun n r => ?_, fun tree htree hrest => ?_⟩
  · rw [isolated_chain, Evaluator.chainRuns_iff, Exec.map_some_eq]
  · -- Both are chains, so that a value is all that can come of them.
    have hvalue (n : Nat) : (prog.evaluator n).isolated tree =
        some <$> (prog.evaluator n).value tree "operand" := by
      cases htree with
      | first => exact absurd rfl hrest
      | step => exact prog.isolated_eq_value n _ _ _
    refine ⟨fun r hr => hr.refined fun n => ?_,
      fun r' hr => hr.refined fun n => ⟨n + 1, ?_⟩⟩
    · cases n with
      | zero => exact ⟨0, fun _ => .inl rfl⟩
      | succ n =>
        refine ⟨n + rest.length, ?_⟩
        rw [isolated_chain, hvalue]
        exact (prog.folded_refines_tree n p htree).map some
    · rw [isolated_chain, hvalue]
      exact (prog.tree_refines_folded n p htree).map some

end Program

namespace Workbench

/-- `false || true`, to come behind an operand and `&&`. -/
def mixed : List (BinaryOp × Expr) :=
  [(.and, ⟨.bool false, here⟩), (.or, ⟨.bool true, here⟩)]

theorem mixed_folds :
    ∃ r, Exec.Ends (fun n => (bare.evaluator n).isolated
        ⟨.binary ⟨.binary ⟨.bool true, here⟩ [(.and, ⟨.bool false, here⟩)], here⟩
          [(.or, ⟨.bool true, here⟩)], here⟩) idle r ∧
      Exec.SameEnd (.ok (some (.bool true)), idle) r := by
  have hnested : Expr.LeftNested ⟨.bool true, here⟩ mixed
      ⟨.binary ⟨.binary ⟨.bool true, here⟩ [(.and, ⟨.bool false, here⟩)], here⟩
        [(.or, ⟨.bool true, here⟩)], here⟩ :=
    .step _ _ _ (.step _ _ _ .first)
  have hends : Exec.Ends (fun n => (bare.evaluator n).isolated
      ⟨.binary ⟨.bool true, here⟩ mixed, here⟩) idle (.ok (some (.bool true)), idle) :=
    ⟨nofun, 2, rfl⟩
  have halike := (Program.chain_folds bare ⟨.bool true, here⟩ mixed here idle).2
  exact (halike _ hnested nofun).1 _ hends

end Workbench

end HostScript
