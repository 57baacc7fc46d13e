import HostScript.Proofs.Exec.Computation

/-!
# How much fuel a run takes

A run that does not use up its fuel is the same run with more of it (`Program.evaluator_mono`). So
how a computation ends, if it ends at all, is one thing (`Exec.Ends`), however much fuel it is given
beyond what it needs.
-/

namespace HostScript

variable {P : Platform} {α β : Type}

-- ---------------------------------------------------------------------------
-- Computations
-- ---------------------------------------------------------------------------

namespace Exec

/-- A computation goes as another one does, unless it runs out of fuel. -/
def Approximates (x y : Exec P α) : Prop :=
  ∀ m, (x m).1 = .error .outOfFuel ∨ y m = x m

theorem withScope_same {x y : Exec P α} {m : Machine P}
    (h : (x m.enterBlock).1 = .error .outOfFuel ∨ y m.enterBlock = x m.enterBlock) :
    (withScope x m).1 = .error .outOfFuel ∨ withScope y m = withScope x m := by
  rw [withScope_apply, withScope_apply]
  rcases h with hout | hxy
  · exact .inl hout
  · right
    rw [hxy]

namespace Approximates

variable {x y z : Exec P α}

theorem elim {m m' : Machine P} {outcome : Except Halt α} (h : Approximates x y)
    (hx : x m = (outcome, m')) : outcome = .error .outOfFuel ∨ y m = (outcome, m') := by
  have hm := h m
  rwa [hx] at hm

theorem refl (x : Exec P α) : Approximates x x :=
  fun _ => .inr rfl

theorem trans (h : Approximates x y) (h' : Approximates y z) : Approximates x z := by
  intro m
  rcases h m with hout | hxy
  · exact .inl hout
  · rcases h' m with hout | hyz
    · exact .inl (hxy ▸ hout)
    · exact .inr (hyz.trans hxy)

theorem outOfFuel : Approximates (throw .outOfFuel) y :=
  fun _ => .inl rfl

theorem bind {f g : α → Exec P β} (h : Approximates x y)
    (hfg : ∀ a, Approximates (f a) (g a)) :
    Approximates (x >>= f) (y >>= g) := by
  intro m
  rcases hx : x m with ⟨halt | a, m'⟩ <;> rcases h.elim hx with hout | hy
  · cases hout
    exact .inl (congrArg Prod.fst (bind_error hx))
  · exact .inr ((bind_error hy).trans (bind_error hx).symm)
  · cases hout
  · rw [bind_ok hx, bind_ok hy]
    exact hfg a m'

theorem mapFailure (f : Machine P → Failure → Failure) (h : Approximates x y) :
    Approximates (x.mapFailure f) (y.mapFailure f) := by
  intro m
  rw [mapFailure_apply, mapFailure_apply]
  rcases h m with hout | hxy
  · left
    rw [hout]
    rfl
  · right
    rw [hxy]

theorem located (p : Position) (h : Approximates x y) :
    Approximates (x.located p) (y.located p) :=
  h.mapFailure _

theorem recover {f g : Failure → Exec P α} (h : Approximates x y)
    (hfg : ∀ e, Approximates (f e) (g e)) : Approximates (x.recover f) (y.recover g) := by
  intro m
  rcases hx : x m with ⟨(e | _) | a, m'⟩
  · rcases h.elim hx with hout | hy
    · cases hout
    · rw [recover_failed hx, recover_failed hy]
      exact hfg e m'
  · exact .inl (congrArg Prod.fst (recover_outOfFuel hx))
  · rcases h.elim hx with hout | hy
    · cases hout
    · exact .inr ((recover_ok hy).trans (recover_ok hx).symm)

theorem finish {x y cleanup cleanup' : Exec P Signal} (h : Approximates x y)
    (hcleanup : Approximates cleanup cleanup') :
    Approximates (x.finish cleanup) (y.finish cleanup') := by
  intro m
  rcases hx : x m with ⟨outcome, m'⟩
  by_cases hout : outcome = .error .outOfFuel
  · subst hout
    exact .inl (congrArg Prod.fst (finish_outOfFuel hx))
  · have hy := (h.elim hx).resolve_left hout
    rw [finish_apply hx hout, finish_apply hy hout]
    rcases hcleanup m' with hc | hc
    · left
      rw [hc]
      rfl
    · right
      rw [hc]

theorem andThen (y' : Exec P Unit) (h : Approximates x y) :
    Approximates (x.andThen y') (y.andThen y') := by
  intro m
  rw [andThen_apply, andThen_apply]
  rcases h m with hout | hxy
  · left
    rw [hout]
    rfl
  · right
    rw [hxy]

theorem withScope (h : Approximates x y) : Approximates (withScope x) (withScope y) :=
  fun m => withScope_same (h m.enterBlock)

theorem withFunction (f : Declaration) (site : Option Position) (h : Approximates x y) :
    Approximates (withFunction f site x) (withFunction f site y) := by
  intro m
  cases hc : m.calls.push ⟨f.name, site⟩ with
  | error e => exact .inr ((withFunction_refused hc).trans (withFunction_refused hc).symm)
  | ok calls =>
    rw [withFunction_entered hc, withFunction_entered hc]
    rcases h (m.enterCall f calls) with hout | hxy
    · exact .inl hout
    · right
      rw [hxy]

theorem top {x y : Exec P Unit} (h : Approximates x y) : Approximates (top x) (top y) := by
  intro m
  rw [top_apply, top_apply]
  rcases h { m with operands := [] } with hout | hxy
  · left
    rw [hout]
    rfl
  · right
    rw [hxy]

theorem operand (p : Position) {x y : Exec P Unit} (h : Approximates x y) :
    Approximates (operand p x) (operand p y) :=
  .bind (.refl _) fun _ => h.bind fun _ => .refl _

theorem holding (prog : Program P) (p : Position) (v : Option Value) {x y : Exec P Signal}
    (h : Approximates x y) : Approximates (holding prog p v x) (holding prog p v y) := by
  refine .bind (.refl _) fun r => ?_
  cases r with
  | some r => exact h.andThen _
  | none => exact h

end Approximates

end Exec

-- ---------------------------------------------------------------------------
-- Evaluators
-- ---------------------------------------------------------------------------

namespace Evaluator

structure Approximates (E E' : Evaluator P) : Prop where
  rounds : E.rounds ≤ E'.rounds
  expr : ∀ e, (E.expr e).Approximates (E'.expr e)
  stmt : ∀ s, (E.stmt s).Approximates (E'.stmt s)

theorem Approximates.refl (E : Evaluator P) : Approximates E E :=
  ⟨Nat.le_refl _, fun e => .refl (E.expr e), fun s => .refl (E.stmt s)⟩

namespace Approximates

variable {E E' : Evaluator P} (h : E.Approximates E') {prog : Program P}
include h

theorem isolated (e : Expr) : (E.isolated e).Approximates (E'.isolated e) :=
  (h.expr e).top

theorem value (e : Expr) (use : String) : (E.value e use).Approximates (E'.value e use) :=
  (h.isolated e).bind fun _ => .refl _

theorem condition (e : Expr) : (E.condition e).Approximates (E'.condition e) :=
  (h.value e "condition").bind fun _ => .refl _

theorem operand (e : Expr) : (E.operand e).Approximates (E'.operand e) :=
  (h.expr e).operand e.pos

theorem discard (e : Option Expr) : (E.discard e).Approximates (E'.discard e) := by
  cases e with
  | none => exact .refl _
  | some e => exact (h.isolated e).bind fun _ => .refl _

theorem stmts (body : List Stmt) : (E.stmts body).Approximates (E'.stmts body) := by
  induction body with
  | nil => exact .refl _
  | cons s rest ih =>
    refine (h.stmt s).bind fun signal => ?_
    cases signal with
    | normal => exact ih
    | _ => exact .refl _

theorem block (body : List Stmt) : (E.block body).Approximates (E'.block body) :=
  (h.stmts body).withScope

-- ---------------------------------------------------------------------------
-- Places and calls
-- ---------------------------------------------------------------------------

theorem follow (v : Value) (accesses : List Access) :
    (E.follow prog v accesses).Approximates (E'.follow prog v accesses) := by
  induction accesses generalizing v with
  | nil => exact .refl _
  | cons access rest ih =>
    cases access with
    | field name => exact .bind (.refl _) ih
    | index e => exact (h.value e "index").bind fun key => .bind (.refl _) ih

theorem read (p : Path) : (E.read prog p).Approximates (E'.read prog p) :=
  .bind (.refl _) fun v => h.follow v p.accesses

theorem place (p : Path) : (E.place prog p).Approximates (E'.place prog p) := by
  unfold Evaluator.place
  cases p.accesses.getLast? with
  | none => exact .refl _
  | some last =>
    refine .bind (.refl _) fun v => (h.follow v _).bind fun container => ?_
    cases last with
    | field name => exact .refl _
    | index e => exact (h.value e "index").bind fun _ => .refl _

theorem assign (target : Path) (op : AssignOp) (e : Expr) :
    (E.assign prog target op e).Approximates (E'.assign prog target op e) := by
  refine (h.value e "assignment").bind fun v => ?_
  cases op with
  | declare => exact .refl _
  | set => exact (h.place target).bind fun _ => .refl _
  | compound op => exact (h.place target).bind fun _ => .refl _

theorem incDec (target : Path) (increment before : Bool) :
    (E.incDec prog target increment before).Approximates
      (E'.incDec prog target increment before) :=
  (h.place target).bind fun _ => .refl _

theorem values (args : List Expr) : (E.values args).Approximates (E'.values args) := by
  induction args with
  | nil => exact .refl _
  | cons e rest ih => exact (h.value e "argument").bind fun _ => ih.bind fun _ => .refl _

theorem arguments (call : Call) :
    (E.arguments prog call).Approximates (E'.arguments prog call) :=
  (h.values call.args).bind fun _ => .refl _

theorem callHost (f : Callable P) (call : Call) :
    (E.callHost prog f call).Approximates (E'.callHost prog f call) :=
  (h.arguments call).bind fun _ => .refl _

theorem body (f : Declaration) (args : List Value) :
    (E.body f args).Approximates (E'.body f args) :=
  .bind (.refl _) fun _ => ((h.stmts f.body).mapFailure _).bind fun _ => .refl _

theorem callScript (f : Declaration) (args : List Value) (site : Option Position) :
    (E.callScript f args site).Approximates (E'.callScript f args site) := by
  unfold Evaluator.callScript
  split
  · exact (h.body f args).withFunction f site
  · exact .refl _

theorem call (call : Call) : (E.call prog call).Approximates (E'.call prog call) := by
  refine .bind (.refl _) fun callee => ?_
  rcases callee with _ | f | f
  · exact .refl _
  · exact h.callHost f call
  · exact (h.arguments call).bind fun args => h.callScript f args _

-- ---------------------------------------------------------------------------
-- Expressions
-- ---------------------------------------------------------------------------

theorem chain (rest : List (BinaryOp × Expr)) : (E.chain rest).Approximates (E'.chain rest) := by
  induction rest with
  | nil => exact .refl _
  | cons entry rest ih => exact (h.operand entry.2).bind fun _ => .bind (.refl _) fun _ => ih

theorem exprForm (form : ExprForm) :
    (E.exprForm prog form).Approximates (E'.exprForm prog form) := by
  cases form with
  | int | float | str | bool | null => exact .refl _
  | paren inner => exact h.expr inner
  | path path => exact (h.read path).bind fun _ => .refl _
  | unary op operand => exact (h.operand operand).bind fun _ => .refl _
  | binary first rest => exact (h.operand first).bind fun _ => h.chain rest
  | ternary cond yes no =>
    refine (h.condition cond).bind fun b => ?_
    split
    · exact h.expr yes
    · exact h.expr no
  | assign target op value => exact (h.assign target op value).bind fun _ => .refl _
  | incDec target increment before =>
    exact (h.incDec target increment before).bind fun _ => .refl _
  | call call => exact (h.call call).bind fun _ => .refl _
  | keyValue key value => exact (h.value value "key/value").bind fun _ => .refl _

-- ---------------------------------------------------------------------------
-- Selections and loops
-- ---------------------------------------------------------------------------

theorem conditional (cond : Expr) (yes : List Stmt) (otherwise : Option Stmt) :
    (E.conditional cond yes otherwise).Approximates (E'.conditional cond yes otherwise) := by
  refine (h.condition cond).bind fun b => ?_
  split
  · exact h.block yes
  · cases otherwise with
    | some s => exact h.stmt s
    | none => exact .refl _

theorem anyMatches (subject : Option Value) (values : List Expr) :
    (E.anyMatches subject values).Approximates (E'.anyMatches subject values) := by
  induction values with
  | nil => exact .refl _
  | cons e rest ih =>
    refine (h.value e "case").bind fun v => .bind (.refl _) fun view => ?_
    split
    · exact .refl _
    · exact ih

theorem firstMatch (subject : Option Value) (cases : List Case) :
    (E.firstMatch subject cases).Approximates (E'.firstMatch subject cases) := by
  induction cases with
  | nil => exact .refl _
  | cons c rest ih =>
    refine (h.anyMatches subject c.values).bind fun found => ?_
    split
    · exact .refl _
    · exact ih

theorem switch (subject : Option Expr) (cases : List Case) (default : Option (List Stmt)) :
    (E.switch subject cases default).Approximates (E'.switch subject cases default) := by
  refine .bind ?_ fun subject => (h.firstMatch subject cases).bind fun found => ?_
  · cases subject with
    | none => exact .refl _
    | some e => exact (h.value e "switch").bind fun _ => .refl _
  · cases found with
    | some c => exact (h.block c.body).located c.pos
    | none =>
      cases default with
      | some body => exact h.block body
      | none => exact .refl _

theorem holds (wanted : Bool) (cond : Option Expr) :
    (E.holds wanted cond).Approximates (E'.holds wanted cond) := by
  cases cond with
  | none => exact .refl _
  | some cond => exact (h.condition cond).bind fun _ => .refl _

theorem goRound (loop : Loop) {n n' : Nat} (hn : n ≤ n') :
    (E.goRound loop n).Approximates (E'.goRound loop n') := by
  induction n generalizing n' with
  | zero => exact .outOfFuel
  | succ n ih =>
    obtain ⟨n', rfl⟩ := Nat.exists_eq_add_one_of_ne_zero (Nat.ne_zero_of_lt hn)
    have hrest : Exec.Approximates
        (do
          E.discard loop.step
          if ← E.holds loop.wanted loop.post then E.goRound loop n else return .normal)
        (do
          E'.discard loop.step
          if ← E'.holds loop.wanted loop.post then E'.goRound loop n' else return .normal) := by
      refine (h.discard loop.step).bind fun _ => (h.holds loop.wanted loop.post).bind fun b => ?_
      split
      · exact ih (Nat.le_of_succ_le_succ hn)
      · exact .refl _
    refine (h.holds loop.wanted loop.pre).bind fun b => ?_
    split
    · refine (h.block loop.body).bind fun signal => ?_
      cases signal with
      | brk | ret v => exact .refl _
      | normal | cont => exact hrest
    · exact .refl _

theorem loop (loop : Loop) : (E.loop loop).Approximates (E'.loop loop) :=
  ((h.discard loop.init).bind fun _ => h.goRound loop h.rounds).withScope

theorem walk (range : Range) {n n' : Nat} (hn : n ≤ n') (cursor : Cursor) :
    (E.walk prog range n cursor).Approximates (E'.walk prog range n' cursor) := by
  induction n generalizing n' cursor with
  | zero => exact .outOfFuel
  | succ n ih =>
    obtain ⟨n', rfl⟩ := Nat.exists_eq_add_one_of_ne_zero (Nat.ne_zero_of_lt hn)
    refine .bind (.refl _) fun next => ?_
    rcases next with _ | ⟨⟨key, v⟩, cursor⟩
    · exact .refl _
    · refine .bind (.refl _) fun _ => .bind (.refl _) fun _ =>
        (h.block range.body).bind fun signal => ?_
      cases signal with
      | brk | ret v => exact .refl _
      | normal | cont => exact ih (Nat.le_of_succ_le_succ hn) cursor

theorem range (key value : Option String) (declare : Bool) (source : Expr) (body : List Stmt) :
    (E.range prog key value declare source body).Approximates
      (E'.range prog key value declare source body) := by
  refine (h.value source "range").bind fun v => .bind (.refl _) fun cursor => .withScope ?_
  cases declare with
  | true => exact .bind (.refl _) fun _ => .bind (.refl _) fun _ => h.walk _ h.rounds cursor
  | false => exact h.walk _ h.rounds cursor

-- ---------------------------------------------------------------------------
-- Resources and failures
-- ---------------------------------------------------------------------------

theorem nested {x y : Exec P Signal} (hxy : x.Approximates y) (resources : List Expr) :
    (E.nested prog x resources).Approximates (E'.nested prog y resources) := by
  induction resources with
  | nil => exact hxy
  | cons e rest ih => exact (h.isolated e).bind fun v => ih.holding prog e.pos v

theorem withResources (resources : List Expr) (body : List Stmt) :
    (E.withResources prog resources body).Approximates (E'.withResources prog resources body) := by
  rw [withResources_eq_nested, withResources_eq_nested]
  exact h.nested (h.block body) resources

theorem handle (clause : Handler) (e : Failure) :
    (E.handle clause e).Approximates (E'.handle clause e) :=
  .withScope (.bind (.refl _) fun _ => h.stmts clause.body)

theorem guarded {x y : Exec P Signal} (hxy : x.Approximates y) (handler : Option Handler) :
    (E.guarded x handler).Approximates (E'.guarded y handler) := by
  cases handler with
  | none => exact hxy
  | some clause => exact hxy.recover (h.handle clause)

theorem tryBlock (resources : List Expr) (body : List Stmt) (handler : Option Handler)
    (cleanup : Option (List Stmt)) :
    (E.tryBlock prog resources body handler cleanup).Approximates
      (E'.tryBlock prog resources body handler cleanup) := by
  have hbody : (E.withResources prog resources body).Approximates
      (E'.withResources prog resources body) := h.withResources resources body
  have hhandled := h.guarded hbody.withScope handler
  cases cleanup with
  | none => exact hhandled
  | some cleanup => exact hhandled.finish (h.block cleanup)

theorem stmtForm (form : StmtForm) :
    (E.stmtForm prog form).Approximates (E'.stmtForm prog form) := by
  cases form with
  | block body => exact h.block body
  | expr e => exact (h.isolated e).bind fun _ => .refl _
  | ite cond yes otherwise => exact h.conditional cond yes otherwise
  | forLoop | whileLoop | doWhile | repeatUntil => exact h.loop _
  | forRange key value declare source body => exact h.range key value declare source body
  | ret value =>
    cases value with
    | none => exact .refl _
    | some e => exact (h.value e "return").bind fun _ => .refl _
  | brk | cont | empty => exact .refl _
  | switch subject cases default => exact h.switch subject cases default
  | tryBlock resources body handler cleanup => exact h.tryBlock resources body handler cleanup

end Approximates

end Evaluator

-- ---------------------------------------------------------------------------
-- Programs
-- ---------------------------------------------------------------------------

/-- More fuel makes no other run of one that has enough. -/
theorem Program.evaluator_mono (prog : Program P) {n n' : Nat} (hn : n ≤ n') :
    (prog.evaluator n).Approximates (prog.evaluator n') := by
  induction n generalizing n' with
  | zero => exact ⟨Nat.zero_le n', fun _ => .outOfFuel, fun _ => .outOfFuel⟩
  | succ n ih =>
    obtain ⟨n', rfl⟩ := Nat.exists_eq_add_one_of_ne_zero (Nat.ne_zero_of_lt hn)
    have h := ih (Nat.le_of_succ_le_succ hn)
    exact ⟨hn, fun e => (h.exprForm e.form).located e.pos,
      fun s => (h.stmtForm s.form).located s.pos⟩

namespace Exec

/-- With enough fuel a computation ends like this, and not because it has run out. -/
def Ends (x : Nat → Exec P α) (m : Machine P) (r : Except Halt α × Machine P) : Prop :=
  r.1 ≠ .error .outOfFuel ∧ ∃ fuel, x fuel m = r

def Ascends (x : Nat → Exec P α) : Prop :=
  ∀ {n n' : Nat}, n ≤ n' → (x n).Approximates (x n')

variable {x : Nat → Exec P α} {m : Machine P} {r r' : Except Halt α × Machine P}

theorem Ends.enough (hx : Ascends x) (h : Ends x m r) :
    ∃ fuel, ∀ n, fuel ≤ n → x n m = r := by
  obtain ⟨hout, fuel, hfuel⟩ := h
  refine ⟨fuel, fun n hn => ?_⟩
  rcases hx hn m with h | h
  · exact absurd (hfuel ▸ h) hout
  · exact h.trans hfuel

theorem Ends.unique (hx : Ascends x) (h : Ends x m r) (h' : Ends x m r') : r = r' := by
  obtain ⟨fuel, hfuel⟩ := h.enough hx
  obtain ⟨fuel', hfuel'⟩ := h'.enough hx
  exact (hfuel _ (Nat.le_max_left fuel fuel')).symm.trans (hfuel' _ (Nat.le_max_right fuel fuel'))

/-- What ends with some fuel ends alike where more fuel can be given, if what runs out of fuel is
alike only to what does. -/
theorem Ends.reached {y : Nat → Exec P β}
    {R : Except Halt α × Machine P → Except Halt β × Machine P → Prop} (h : Ends x m r)
    (hout : ∀ {r r'}, R r r' → r'.1 = .error .outOfFuel → r.1 = .error .outOfFuel)
    (hxy : ∀ n, ∃ n', (x n m).1 = .error .outOfFuel ∨ R (x n m) (y n' m)) :
    ∃ r', Ends y m r' ∧ R r r' := by
  obtain ⟨hr, n, rfl⟩ := h
  obtain ⟨n', hn⟩ := hxy n
  have hsame := hn.resolve_left hr
  exact ⟨y n' m, ⟨fun hy => hr (hout hsame hy), n', rfl⟩, hsame⟩

theorem Ends.same {y : Nat → Exec P α} (h : Ends x m r)
    (hxy : ∀ n, ∃ n', (x n m).1 = .error .outOfFuel ∨ y n' m = x n m) : Ends y m r := by
  obtain ⟨r', hends, hsame⟩ :=
    h.reached (R := fun r r' => r' = r) (fun hr hout => hr ▸ hout) hxy
  exact hsame ▸ hends

end Exec

/-- However much fuel a statement is given, it ends in one way. -/
theorem Program.execStmt_ends_once (prog : Program P) (s : Stmt) {m : Machine P}
    {r r' : Except Halt Signal × Machine P} (h : Exec.Ends (prog.execStmt · s) m r)
    (h' : Exec.Ends (prog.execStmt · s) m r') : r = r' :=
  h.unique (fun hn => (prog.evaluator_mono hn).stmt s) h'

end HostScript
