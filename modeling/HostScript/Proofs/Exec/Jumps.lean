import HostScript.Proofs.Exec.Computation
import HostScript.Proofs.Names.Functions
import HostScript.Workbench.Scripts

/-!
# Jumps end in loops

The check counts the loops around a jump; at run time a jump is how a statement ends, up to the loop
that takes it. The two agree: a statement that passes the check with no loop around it does not end
with a jump, whatever its handlers and its cleanup do (`placed_never_jumps`). So a host never gets
one, and a function that a session has been set up from never ends with one.
-/

namespace HostScript

variable {P : Platform} {α : Type}

def Signal.IsJump : Signal → Prop
  | .brk | .cont => True
  | .normal | .ret _ => False

theorem Signal.not_jump {signal : Signal} (h : ¬ signal.IsJump) :
    signal = .normal ∨ ∃ v, signal = .ret v := by
  cases signal with
  | normal => exact .inl rfl
  | ret v => exact .inr ⟨v, rfl⟩
  | brk => exact absurd trivial h
  | cont => exact absurd trivial h

/-- Ends with a jump only if there is a loop around it. -/
def JumpsWithin (loops : Nat) (x : Exec P Signal) : Prop :=
  ∀ m signal, (x m).1 = .ok signal → signal.IsJump → 0 < loops

namespace JumpsWithin

variable {loops : Nat} {x y : Exec P Signal}

theorem pure {signal : Signal} (h : signal.IsJump → 0 < loops) :
    JumpsWithin loops (Pure.pure signal : Exec P Signal) := by
  rintro m _ ⟨⟩
  exact h

theorem throw (halt : Halt) : JumpsWithin loops (throw halt : Exec P Signal) :=
  fun _ _ => nofun

theorem bind {x : Exec P α} {f : α → Exec P Signal}
    (hf : ∀ a m m', x m = (.ok a, m') → JumpsWithin loops (f a)) :
    JumpsWithin loops (x >>= f) := by
  intro m signal h
  rcases Exec.bind_cases x f m with ⟨halt, m', hm, hb⟩ | ⟨a, m', hm, hb⟩ <;> rw [hb] at h
  · cases h
  · exact hf a m m' hm m' signal h

theorem mapFailure {f : Machine P → Failure → Failure} (hx : JumpsWithin loops x) :
    JumpsWithin loops (x.mapFailure f) := by
  intro m signal h
  rw [Exec.mapFailure_apply] at h
  exact hx m signal (Exec.changed_eq_ok.mp h)

theorem withScope (hx : JumpsWithin loops x) : JumpsWithin loops (Exec.withScope x) :=
  fun m => hx m.enterBlock

theorem recover {handler : Failure → Exec P Signal} (hx : JumpsWithin loops x)
    (hh : ∀ e, JumpsWithin loops (handler e)) : JumpsWithin loops (x.recover handler) := by
  intro m signal h
  have hx := hx m signal
  rcases hm : x m with ⟨(e | _) | a, m'⟩ <;> rw [hm] at hx
  · rw [Exec.recover_failed hm] at h
    exact hh e m' signal h
  · rw [Exec.recover_outOfFuel hm] at h
    exact hx h
  · rw [Exec.recover_ok hm] at h
    exact hx h

theorem finish (hx : JumpsWithin loops x) (hy : JumpsWithin loops y) :
    JumpsWithin loops (x.finish y) := by
  intro m signal h
  have hx := hx m signal
  rcases hm : x m with ⟨outcome, m'⟩
  rw [hm] at hx
  by_cases ho : outcome = .error .outOfFuel
  · subst ho
    rw [Exec.finish_outOfFuel hm] at h
    exact hx h
  · rw [Exec.finish_apply hm ho] at h
    have hy := hy m' signal
    rcases hcleanup : (y m').1 with halt | (_ | _ | _ | v) <;> rw [hcleanup] at h hy
    · exact hy h
    · exact hx h
    · exact hy h
    · exact hy h
    · exact hy h

theorem andThen {y : Exec P Unit} (hx : JumpsWithin loops x) : JumpsWithin loops (x.andThen y) := by
  intro m signal h
  rw [Exec.andThen_apply] at h
  exact hx m signal (Exec.firstFailure_eq_ok h)

theorem ends {m : Machine P} {signal : Signal} (hx : JumpsWithin 0 x) (h : (x m).1 = .ok signal) :
    signal = .normal ∨ ∃ v, signal = .ret v :=
  Signal.not_jump fun hjump => Nat.lt_irrefl 0 (hx m signal h hjump)

end JumpsWithin

theorem misplacedCase?_mem {loops : Nat} {cases : List Case} {c : Case}
    (h : misplacedCase? loops cases = none) (hc : c ∈ cases) :
    misplacedIn? loops c.body = none := by
  induction cases with
  | nil => cases hc
  | cons c' rest ih =>
    obtain ⟨values, body, pos⟩ := c'
    obtain ⟨hfirst, hrest⟩ := Option.or_eq_none_iff.mp h
    rcases List.mem_cons.mp hc with rfl | hc
    · exact hfirst
    · exact ih hrest hc

namespace Evaluator

variable {E : Evaluator P} {prog : Program P} {loops : Nat}

def KeepsJumps (E : Evaluator P) : Prop :=
  ∀ s loops, s.misplaced? loops = none → JumpsWithin loops (E.stmt s)

-- ---------------------------------------------------------------------------
-- Loops
-- ---------------------------------------------------------------------------

theorem goRound_jumps (loop : Loop) (n : Nat) : JumpsWithin loops (E.goRound loop n) := by
  induction n with
  | zero => exact .throw .outOfFuel
  | succ n ih =>
    have hrest : JumpsWithin loops (do
        E.discard loop.step
        if ← E.holds loop.wanted loop.post then E.goRound loop n else return .normal) := by
      refine .bind fun _ _ _ _ => .bind fun b _ _ _ => ?_
      cases b with
      | true => exact ih
      | false => exact .pure False.elim
    refine .bind fun b _ _ _ => ?_
    cases b with
    | false => exact .pure False.elim
    | true =>
      -- The two jumps of the body end here: one ends the loop, one goes on with it.
      refine .bind fun signal _ _ _ => ?_
      cases signal with
      | brk => exact .pure False.elim
      | ret v => exact .pure False.elim
      | normal => exact hrest
      | cont => exact hrest

theorem loop_jumps (loop : Loop) : JumpsWithin loops (E.loop loop) :=
  .withScope (.bind fun _ _ _ _ => goRound_jumps loop E.rounds)

theorem walk_jumps (range : Range) (n : Nat) (cursor : Cursor) :
    JumpsWithin loops (E.walk prog range n cursor) := by
  induction n generalizing cursor with
  | zero => exact .throw .outOfFuel
  | succ n ih =>
    refine .bind fun next _ _ _ => ?_
    rcases next with _ | ⟨⟨key, v⟩, cursor⟩
    · exact .pure False.elim
    · refine .bind fun _ _ _ _ => .bind fun _ _ _ _ => .bind fun signal _ _ _ => ?_
      cases signal with
      | brk => exact .pure False.elim
      | ret v => exact .pure False.elim
      | normal => exact ih cursor
      | cont => exact ih cursor

theorem range_jumps (key value : Option String) (declare : Bool) (source : Expr)
    (body : List Stmt) : JumpsWithin loops (E.range prog key value declare source body) := by
  refine .bind fun v _ _ _ => .bind fun cursor _ _ _ => .withScope ?_
  cases declare with
  | true => exact .bind fun _ _ _ _ => .bind fun _ _ _ _ => walk_jumps _ _ _
  | false => exact walk_jumps _ _ _

-- ---------------------------------------------------------------------------
-- Other statements
-- ---------------------------------------------------------------------------

section
variable (hE : E.KeepsJumps)
include hE

theorem stmts_jumps {body : List Stmt} (h : misplacedIn? loops body = none) :
    JumpsWithin loops (E.stmts body) := by
  induction body with
  | nil => exact .pure False.elim
  | cons s rest ih =>
    obtain ⟨hs, hrest⟩ := Option.or_eq_none_iff.mp h
    refine .bind fun signal m m' hm => ?_
    have hsignal := hE s loops hs m signal (congrArg Prod.fst hm)
    cases signal with
    | normal => exact ih hrest
    | brk | cont | ret v => exact .pure hsignal

theorem block_jumps {body : List Stmt} (h : misplacedIn? loops body = none) :
    JumpsWithin loops (E.block body) :=
  .withScope (stmts_jumps hE h)

theorem conditional_jumps {cond : Expr} {yes : List Stmt} {otherwise : Option Stmt}
    (hyes : misplacedIn? loops yes = none) (hno : misplacedOtherwise? loops otherwise = none) :
    JumpsWithin loops (E.conditional cond yes otherwise) := by
  refine .bind fun b _ _ _ => ?_
  cases b with
  | true => exact block_jumps hE hyes
  | false =>
    cases otherwise with
    | none => exact .pure False.elim
    | some s => exact hE s loops hno

omit hE in
theorem firstMatch_mem {subject : Option Value} {cases : List Case} {c : Case} {m m' : Machine P}
    (h : E.firstMatch subject cases m = (.ok (some c), m')) : c ∈ cases := by
  induction cases generalizing m with
  | nil => cases h
  | cons c' rest ih =>
    rcases Exec.bind_cases _ _ m with ⟨halt, m₁, hm, hb⟩ | ⟨b, m₁, hm, hb⟩ <;>
      rw [firstMatch, hb] at h
    · cases h
    · cases b with
      | true =>
        cases h
        exact List.mem_cons_self
      | false => exact List.mem_cons_of_mem c' (ih h)

theorem switch_jumps {subject : Option Expr} {cases : List Case} {default : Option (List Stmt)}
    (hcases : misplacedCase? loops cases = none) (hdefault : misplacedBody? loops default = none) :
    JumpsWithin loops (E.switch subject cases default) := by
  refine .bind fun subject _ _ _ => .bind fun found m m' hm => ?_
  cases found with
  | some c => exact .mapFailure (block_jumps hE (misplacedCase?_mem hcases (firstMatch_mem hm)))
  | none =>
    cases default with
    | none => exact .pure False.elim
    | some body => exact block_jumps hE hdefault

theorem withResources_jumps {resources : List Expr} {body : List Stmt}
    (h : misplacedIn? loops body = none) :
    JumpsWithin loops (E.withResources prog resources body) := by
  refine .bind fun (created, setUp) _ _ _ => .andThen ?_
  cases setUp with
  | error halt => exact .throw halt
  | ok a => exact block_jumps hE h

theorem guarded_jumps {attempted : Exec P Signal} {handler : Option Handler}
    (h : JumpsWithin loops attempted) (hhandler : misplacedHandler? loops handler = none) :
    JumpsWithin loops (E.guarded attempted handler) := by
  cases handler with
  | none => exact h
  | some clause =>
    obtain ⟨name, body⟩ := clause
    exact h.recover fun e => .withScope (.bind fun _ _ _ _ => stmts_jumps hE hhandler)

theorem tryBlock_jumps {resources : List Expr} {body : List Stmt} {handler : Option Handler}
    {cleanup : Option (List Stmt)} (hbody : misplacedIn? loops body = none)
    (hhandler : misplacedHandler? loops handler = none)
    (hcleanup : misplacedBody? loops cleanup = none) :
    JumpsWithin loops (E.tryBlock prog resources body handler cleanup) := by
  have hattempted : JumpsWithin loops (Exec.withScope (E.withResources prog resources body)) :=
    .withScope (withResources_jumps hE hbody)
  have hhandled := guarded_jumps hE hattempted hhandler
  cases cleanup with
  | none => exact hhandled
  | some cleanup => exact hhandled.finish (block_jumps hE hcleanup)

theorem stmtForm_jumps {form : StmtForm} {pos : Position}
    (h : form.misplaced? loops pos = none) : JumpsWithin loops (E.stmtForm prog form) := by
  cases form with
  | block body => exact block_jumps hE h
  | expr e => exact .bind fun _ _ _ _ => .pure False.elim
  | ite cond yes otherwise =>
    obtain ⟨hyes, hno⟩ := Option.or_eq_none_iff.mp h
    exact conditional_jumps hE hyes hno
  | forLoop | whileLoop | doWhile | repeatUntil => exact loop_jumps _
  | forRange => exact range_jumps _ _ _ _ _
  | ret value =>
    cases value with
    | none => exact .pure False.elim
    | some e => exact .bind fun v _ _ _ => .pure False.elim
  | brk | cont =>
    refine .pure fun _ => Nat.pos_of_ne_zero fun hzero => ?_
    rw [StmtForm.misplaced?, if_pos hzero] at h
    cases h
  | switch subject cases default =>
    obtain ⟨hcases, hdefault⟩ := Option.or_eq_none_iff.mp h
    exact switch_jumps hE hcases hdefault
  | tryBlock resources body handler cleanup =>
    obtain ⟨hfirst, hcleanup⟩ := Option.or_eq_none_iff.mp h
    obtain ⟨hbody, hhandler⟩ := Option.or_eq_none_iff.mp hfirst
    exact tryBlock_jumps hE hbody hhandler hcleanup
  | empty => exact .pure False.elim

end

end Evaluator

theorem Program.evaluator_keepsJumps (prog : Program P) (n : Nat) :
    (prog.evaluator n).KeepsJumps := by
  induction n with
  | zero => exact fun s loops _ => .throw .outOfFuel
  | succ n ih =>
    intro s loops h
    obtain ⟨form, pos⟩ := s
    exact .mapFailure (Evaluator.stmtForm_jumps ih h)

theorem Program.execute_jumps (prog : Program P) (n : Nat) (s : Stmt) :
    JumpsWithin 0 (prog.execute n s) := by
  cases h : s.misplaced? 0 with
  | none => exact .bind fun _ _ _ _ => prog.evaluator_keepsJumps n s 0 h
  | some e =>
    intro m signal he
    rw [Program.execute, Stmt.checkPlacement, h] at he
    cases he

-- ---------------------------------------------------------------------------
-- Functions
-- ---------------------------------------------------------------------------

theorem Declaration.checked_iff {f : Declaration} :
    f.checkPlacement = .ok () ↔ misplacedIn? 0 f.body = none := by
  unfold checkPlacement
  cases misplacedIn? 0 f.body <;> simp

def Functions.Checked (table : Functions) : Prop :=
  table.Holds fun f => misplacedIn? 0 f.body = none

theorem Functions.Checked.lookup {table : Functions} {unit name : String} {f : Declaration}
    (h : table.Checked) (hf : table.lookup? unit name = some f) : misplacedIn? 0 f.body = none :=
  (Holds.lookup h hf).2

theorem Session.build_checked {host : Host P} {setup : Setup P} {world : World P} {s : Session P}
    (h : Session.build host setup world = .ok s) : s.program.functions.Checked :=
  Session.build_holds h fun _ _ _ _ hchecked => Declaration.checked_iff.mp hchecked

-- ---------------------------------------------------------------------------
-- Runs
-- ---------------------------------------------------------------------------

/-- A statement ends with a jump only if there is a loop around it. So a host that executes one does
not see a jump, nor does a call of a function that passes the check, such as every function that a
call in a session can find. -/
theorem placed_never_jumps (prog : Program P) (fuel : Nat) (m : Machine P) (signal : Signal) :
    (∀ s loops, s.misplaced? loops = none → (prog.execStmt fuel s m).1 = .ok signal →
        signal = .brk ∨ signal = .cont → 0 < loops) ∧
      (∀ s, (prog.execute fuel s m).1 = .ok signal →
        signal = .normal ∨ ∃ v, signal = .ret v) ∧
      (∀ f : Declaration, f.checkPlacement = .ok () →
        (Exec.traced ((prog.evaluator fuel).stmts f.body) m).1 = .ok signal →
          signal = .normal ∨ ∃ v, signal = .ret v) ∧
      ∀ host setup world session, Session.build host setup world = .ok session →
        ∀ unit name f, session.program.functions.lookup? unit name = some f →
          (Exec.traced ((session.program.evaluator fuel).stmts f.body) m).1 = .ok signal →
            signal = .normal ∨ ∃ v, signal = .ret v := by
  refine ⟨fun s loops hs he hjump => ?_, fun s he => ?_, fun f hf he => ?_,
    fun host setup world session hbuild unit name f hf he => ?_⟩
  · refine prog.evaluator_keepsJumps fuel s loops hs m signal he ?_
    rcases hjump with rfl | rfl <;> trivial
  · exact (prog.execute_jumps fuel s).ends he
  · refine JumpsWithin.ends (.mapFailure ?_) he
    exact Evaluator.stmts_jumps (prog.evaluator_keepsJumps fuel) (Declaration.checked_iff.mp hf)
  · refine JumpsWithin.ends (.mapFailure ?_) he
    exact Evaluator.stmts_jumps (session.program.evaluator_keepsJumps fuel)
      ((Session.build_checked hbuild).lookup hf)

namespace Workbench

def finallyBreak : Stmt :=
  ⟨.tryBlock [] [] none (some [⟨.brk, here⟩]), here⟩

def leaving : Declaration :=
  ⟨"main", [], [⟨.whileLoop ⟨.bool true, here⟩ [finallyBreak], here⟩,
    ⟨.ret (some ⟨.int 1, here⟩), here⟩], here⟩

def leavingSession : Session platform :=
  ⟨⟨host, ⟨[("main", leaving)]⟩, .empty⟩,
    Session.start ⟨[⟨[leaving]⟩], .empty, none, []⟩ world⟩

/-- The cleanup ends with the jump, the loop around it takes the jump, and the function returns. -/
theorem leaving_returns :
    (leavingSession.program.execStmt 3 finallyBreak leavingSession.machine).1 = .ok .brk ∧
      finallyBreak.misplaced? 1 = none ∧ 0 < 1 ∧
      Session.build host ⟨[⟨[leaving]⟩], .empty, none, []⟩ world = .ok leavingSession ∧
      (Exec.traced ((leavingSession.program.evaluator 4).stmts leaving.body)
        leavingSession.machine).1 = .ok (.ret (.int 1)) ∧
      (Signal.ret (.int 1) = .normal ∨ ∃ v, Signal.ret (.int 1) = .ret v) := by
  have hbrk :
      (leavingSession.program.execStmt 3 finallyBreak leavingSession.machine).1 = .ok .brk := by
    rfl
  have hplaced : finallyBreak.misplaced? 1 = none := by rfl
  have hbuild : Session.build host ⟨[⟨[leaving]⟩], .empty, none, []⟩ world =
      .ok leavingSession := by
    rfl
  have hret : (Exec.traced ((leavingSession.program.evaluator 4).stmts leaving.body)
      leavingSession.machine).1 = .ok (.ret (.int 1)) := by rfl
  have hlookup : leavingSession.program.functions.lookup? "main" "main" = some leaving := by rfl
  obtain ⟨hjump, -⟩ := placed_never_jumps leavingSession.program 3 leavingSession.machine .brk
  obtain ⟨-, -, -, hends⟩ :=
    placed_never_jumps leavingSession.program 4 leavingSession.machine (.ret (.int 1))
  exact ⟨hbrk, hplaced, hjump finallyBreak 1 hplaced hbrk (.inl rfl), hbuild, hret,
    hends _ _ _ _ hbuild _ _ _ hlookup hret⟩

end Workbench

end HostScript
