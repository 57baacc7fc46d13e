import HostScript.Proofs.Exec.Confinement
import HostScript.Workbench.Scripts

/-!
# Blocks leave no names behind

A block, a loop and a `try` statement run each of their parts in a scope that they push and pop.
What runs there binds names only in that scope, so that afterwards every scope binds the names that
it bound before, and what is visible from it is the same (`execStmt_keeps_names`). The body of a
loop is such a block inside the scope of the loop: the step and the conditions go on from scopes
that have nothing of the body in them.
-/

namespace HostScript

variable {P : Platform} {α : Type}

namespace Scopes

/-- The same scopes, each of which binds the same names, perhaps to other values. -/
structure SameNames (s s' : Scopes) : Prop where
  shape : SameShape s s'
  names : ∀ h name, (s'.bindings h).has name = (s.bindings h).has name

namespace SameNames

variable {s s' s'' : Scopes}

theorem refl (s : Scopes) : SameNames s s :=
  ⟨.refl s, fun _ _ => rfl⟩

theorem trans (hs : SameNames s s') (hs' : SameNames s' s'') : SameNames s s'' :=
  ⟨hs.shape.trans hs'.shape, fun h name => (hs'.names h name).trans (hs.names h name)⟩

theorem of_block (hc : Confined s.push s') : SameNames s s'.pop := by
  obtain ⟨hshape, hnames, -⟩ := Confined.of_pushBelow s.current_lt hc
  exact ⟨hshape, hnames⟩

theorem visible (hs : SameNames s s') (h : Handle) (name : String) :
    (s'.lookupFrom h name).isSome = (s.lookupFrom h name).isSome := by
  simp only [isSome_lookupFrom, binder?, hs.shape.chain, hs.names]

end SameNames

end Scopes

def Machine.SameNames (m m' : Machine P) : Prop :=
  m.scopes.SameNames m'.scopes

instance : IsPreorder (Machine P) Machine.SameNames where
  refl m := .refl m.scopes
  trans _ _ _ := Scopes.SameNames.trans

theorem Exec.withScope_keeps_names {x : Exec P α} (h : Leads Machine.Confined x) :
    Leads Machine.SameNames (withScope x) :=
  fun m => Scopes.SameNames.of_block (h m.enterBlock)

-- ---------------------------------------------------------------------------
-- Loops
-- ---------------------------------------------------------------------------

def StmtForm.loop? : StmtForm → Option Loop
  | .forLoop init cond step body => some ⟨init, cond, body, step, none, true⟩
  | .whileLoop cond body => some ⟨none, some cond, body, none, none, true⟩
  | .doWhile body cond => some ⟨none, none, body, none, some cond, true⟩
  | .repeatUntil body cond => some ⟨none, none, body, none, some cond, false⟩
  | _ => none

/-- Blocks, loops and `try` statements: all that they run they run in scopes of their own. -/
def StmtForm.Encloses : StmtForm → Prop
  | .block _ | .tryBlock .. => True
  | form => form.loop?.isSome

theorem StmtForm.loop?_around {form : StmtForm} {loop : Loop} (h : form.loop? = some loop) :
    Regime.Around form.sites loop := by
  cases form <;> cases h <;> constructor <;> intro site hsite <;>
    simp_all [StmtForm.sites, optionalSites]

namespace Evaluator

variable {prog : Program P} {E : Evaluator P}

theorem stmtForm_loop {form : StmtForm} {loop : Loop} (h : form.loop? = some loop) :
    E.stmtForm prog form = E.loop loop := by
  cases form <;> cases h <;> rfl

def goOn (E : Evaluator P) (loop : Loop) (n : Nat) : Exec P Signal := do
  E.discard loop.step
  if ← E.holds loop.wanted loop.post then E.goRound loop n else return .normal

theorem goRound_goes_on {loop : Loop} {n : Nat} {m m₁ m₂ : Machine P} {signal : Signal}
    (hpre : E.holds loop.wanted loop.pre m = (.ok true, m₁))
    (hbody : E.block loop.body m₁ = (.ok signal, m₂))
    (hsignal : signal = .normal ∨ signal = .cont) :
    E.goRound loop (n + 1) m = E.goOn loop n m₂ := by
  rw [goRound, Exec.bind_ok hpre, if_pos rfl, Exec.bind_ok hbody]
  rcases hsignal with rfl | rfl <;> rfl

-- ---------------------------------------------------------------------------
-- Statements
-- ---------------------------------------------------------------------------

variable (hE : (confined_conserved prog).discipline.Parts E)
include hE

theorem block_keeps_names (body : List Stmt) : Exec.Leads Machine.SameNames (E.block body) :=
  Exec.withScope_keeps_names
    ((confined_conserved prog).discipline.regime.stmts hE (List.Subset.refl (stmtSites body)))

theorem loop_keeps_names {region : List Site} {loop : Loop} (h : Regime.Around region loop) :
    Exec.Leads Machine.SameNames (E.loop loop) := by
  let R := (confined_conserved prog).discipline.regime
  exact Exec.withScope_keeps_names (R.bind (R.discard hE h.init) fun _ => R.goRound hE h E.rounds)

theorem handle_keeps_names (clause : Handler) (e : Failure) :
    Exec.Leads Machine.SameNames (E.handle clause e) := by
  let D := (confined_conserved prog).discipline
  refine Exec.withScope_keeps_names (D.bind (D.define clause.name _) fun _ => ?_)
  exact D.regime.stmts hE (List.Subset.refl (stmtSites clause.body))

theorem tryBlock_keeps_names (resources : List Expr) (body : List Stmt) (handler : Option Handler)
    (cleanup : Option (List Stmt)) :
    Exec.Leads Machine.SameNames (E.tryBlock prog resources body handler cleanup) := by
  have hbody : Exec.Leads Machine.Confined (E.withResources prog resources body) :=
    (confined_conserved prog).discipline.regime.withResources hE
      (List.subset_append_left _ (stmtSites body))
      (List.subset_append_right (exprSites resources) _)
  -- Resources are set up in the scope of the body; the handler and the cleanup have scopes of their
  -- own.
  have hhandled : Exec.Leads Machine.SameNames
      (E.guarded (Exec.withScope (E.withResources prog resources body)) handler) := by
    cases handler with
    | none => exact Exec.withScope_keeps_names hbody
    | some clause =>
      exact (Exec.withScope_keeps_names hbody).recover (handle_keeps_names hE clause)
  cases cleanup with
  | none => exact hhandled
  | some cleanup => exact hhandled.finish (block_keeps_names hE cleanup)

theorem stmtForm_keeps_names {form : StmtForm} (h : form.Encloses) :
    Exec.Leads Machine.SameNames (E.stmtForm prog form) := by
  cases hloop : form.loop? with
  | some loop =>
    rw [stmtForm_loop hloop]
    exact loop_keeps_names hE (StmtForm.loop?_around hloop)
  | none =>
    cases form with
    | block body => exact block_keeps_names hE body
    | tryBlock resources body handler cleanup =>
      exact tryBlock_keeps_names hE resources body handler cleanup
    | _ => simp [StmtForm.Encloses, StmtForm.loop?] at h hloop

end Evaluator

theorem Program.execStmt_leads_names (prog : Program P) (fuel : Nat) {s : Stmt}
    (h : s.form.Encloses) : Exec.Leads Machine.SameNames (prog.execStmt fuel s) := by
  cases fuel with
  | zero => exact fun m => .refl m.scopes
  | succ n =>
    exact .mapFailure
      (Evaluator.stmtForm_keeps_names ((confined_conserved prog).discipline.parts n) h)

/-- Whatever a block, a loop or a `try` statement runs and however it ends, the scopes are the
ones that there were, each binds the names that it bound, and from each the same names are
visible. The body of a loop does as much within a round: what comes after it goes on with the
names that it began with. -/
theorem execStmt_keeps_names (prog : Program P) (fuel : Nat) (s : Stmt) (hs : s.form.Encloses)
    (m : Machine P) :
    m.scopes.SameNames (prog.execStmt fuel s m).2.scopes ∧
      (∀ h name, ((prog.execStmt fuel s m).2.scopes.lookupFrom h name).isSome =
        (m.scopes.lookupFrom h name).isSome) ∧
      ∀ loop, s.form.loop? = some loop → ∀ n m₀ m₁ m₂ signal,
        (prog.evaluator n).holds loop.wanted loop.pre m₀ = (.ok true, m₁) →
        (prog.evaluator n).block loop.body m₁ = (.ok signal, m₂) →
          m₁.scopes.SameNames m₂.scopes ∧
          (∀ h name, (m₂.scopes.lookupFrom h name).isSome =
            (m₁.scopes.lookupFrom h name).isSome) ∧
          (signal = .normal ∨ signal = .cont → ∀ rounds,
            (prog.evaluator n).goRound loop (rounds + 1) m₀ =
              (prog.evaluator n).goOn loop rounds m₂) := by
  have h : m.scopes.SameNames _ := prog.execStmt_leads_names fuel hs m
  refine ⟨h, h.visible, fun loop _ n m₀ m₁ m₂ signal hpre hbody => ?_⟩
  have hkept :=
    Evaluator.block_keeps_names ((confined_conserved prog).discipline.parts n) loop.body m₁
  rw [hbody] at hkept
  exact ⟨hkept, Scopes.SameNames.visible hkept,
    fun hsignal rounds => Evaluator.goRound_goes_on hpre hbody hsignal⟩

namespace Workbench

def declaring : List Stmt :=
  [⟨.expr ⟨.assign ⟨[⟨"x", []⟩]⟩ .declare ⟨.int 1, here⟩, here⟩, here⟩]

/-- The statement `do { x := 1 } while (false)`. -/
def declaringOnce : Stmt :=
  ⟨.doWhile declaring ⟨.bool false, here⟩, here⟩

/-- The body has bound its variable when it ends, but neither the condition nor what follows the
loop sees it. -/
theorem declaringOnce_keeps_names :
    declaringOnce.form.Encloses ∧
      ((bare.evaluator 4).stmts declaring idle.enterBlock).2.scopes.lookup "x" = some (.int 1) ∧
      (((bare.evaluator 4).block declaring idle).2.scopes.lookup "x").isSome = false ∧
      ((bare.execStmt 5 declaringOnce idle).2.scopes.lookup "x").isSome = false := by
  obtain ⟨hsame, hvisible, hround⟩ := execStmt_keeps_names bare 5 declaringOnce rfl idle
  have hbody : (bare.evaluator 4).block declaring idle =
      (.ok .normal, ((bare.evaluator 4).block declaring idle).2) := by rfl
  obtain ⟨hinside, hseen, -⟩ := hround _ rfl 4 idle idle _ _ rfl hbody
  refine ⟨rfl, by rfl, ?_, ?_⟩
  · rw [Scopes.lookup, hinside.shape.current, hseen]
    rfl
  · rw [Scopes.lookup, hsame.shape.current, hvisible]
    rfl

end Workbench

end HostScript
