import HostScript.Proofs.Exec.Computation

/-!
# Where failures stand

Whatever fails in an expression or a statement stands somewhere when it leaves it: a position is
attached on the way out, unless a part has attached one before.
-/

namespace HostScript

variable {P : Platform} {α β : Type}

namespace Exec

def Positioned (x : Exec P α) : Prop :=
  ∀ m e, (x m).1 = .error (.failed e) → e.position.isSome

namespace Positioned

variable {x : Exec P α}

theorem located (p : Position) (x : Exec P α) : Positioned (x.located p) := by
  intro m e h
  obtain ⟨e', -, rfl⟩ := mapFailure_eq_failed.mp h
  simp [Failure.locate]

theorem pure (a : α) : Positioned (Pure.pure a : Exec P α) :=
  fun _ _ => nofun

theorem outOfFuel : Positioned (throw .outOfFuel : Exec P α) :=
  fun _ _ => nofun

theorem bind {f : α → Exec P β} (hx : Positioned x) (hf : ∀ a, Positioned (f a)) :
    Positioned (x >>= f) := by
  intro m e h
  rcases bind_cases x f m with ⟨halt, m', hm, hb⟩ | ⟨a, m', hm, hb⟩ <;> rw [hb] at h
  · cases h
    exact hx m e (by rw [hm])
  · exact hf a m' e h

theorem located_eq (hx : Positioned x) (p : Position) : x.located p = x := by
  funext m
  rw [Exec.located, mapFailure_apply]
  rcases h : x m with ⟨(⟨cause, position, backtrace⟩ | _) | a, m'⟩
  · obtain ⟨q, rfl⟩ := Option.isSome_iff_exists.mp (hx m _ (by rw [h]))
    rfl
  · rfl
  · rfl

theorem withScope (hx : Positioned x) : Positioned (Exec.withScope x) :=
  fun m => hx m.enterBlock

theorem operand {p : Position} {x : Exec P Unit} (hx : Positioned x) :
    Positioned (Exec.operand p x) := by
  refine .bind (fun _ _ => nofun) fun before => hx.bind fun _ =>
    .bind (fun _ _ => nofun) fun m => ?_
  split
  · exact .located p _
  · exact .pure ()

theorem top {x : Exec P Unit} (hx : Positioned x) : Positioned (Exec.top x) :=
  fun m e h => hx { m with operands := [] } e (top_eq_error.mp h)

end Positioned

end Exec

namespace Evaluator

variable {E : Evaluator P}

structure Positions (E : Evaluator P) : Prop where
  expr : ∀ e, (E.expr e).Positioned
  stmt : ∀ s, (E.stmt s).Positioned

theorem stmts_positioned (hE : E.Positions) (body : List Stmt) : (E.stmts body).Positioned := by
  induction body with
  | nil => exact .pure _
  | cons s rest ih =>
    refine (hE.stmt s).bind fun signal => ?_
    cases signal with
    | normal => exact ih
    | _ => exact .pure _

theorem block_positioned (hE : E.Positions) (body : List Stmt) : (E.block body).Positioned :=
  (stmts_positioned hE body).withScope

theorem value_positioned (hE : E.Positions) (e : Expr) (use : String) :
    (E.value e use).Positioned := by
  refine (hE.expr e).top.bind fun v => ?_
  cases v with
  | some v => exact .pure v
  | none => exact .located e.pos _

theorem condition_positioned (hE : E.Positions) (e : Expr) : (E.condition e).Positioned :=
  (value_positioned hE e "condition").bind fun _ => .located e.pos _

theorem discard_positioned (hE : E.Positions) (e : Option Expr) : (E.discard e).Positioned := by
  cases e with
  | none => exact .pure ()
  | some e => exact (hE.expr e).top.bind fun _ => .pure ()

theorem holds_positioned (hE : E.Positions) (wanted : Bool) (cond : Option Expr) :
    (E.holds wanted cond).Positioned := by
  cases cond with
  | none => exact .pure true
  | some cond => exact (condition_positioned hE cond).bind fun _ => .pure _

theorem goRound_positioned (hE : E.Positions) (loop : Loop) (n : Nat) :
    (E.goRound loop n).Positioned := by
  induction n with
  | zero => exact .outOfFuel
  | succ n ih =>
    have hrest : Exec.Positioned (do
        E.discard loop.step
        if ← E.holds loop.wanted loop.post then E.goRound loop n else return .normal) := by
      refine (discard_positioned hE loop.step).bind fun _ => ?_
      refine (holds_positioned hE loop.wanted loop.post).bind fun b => ?_
      split
      · exact ih
      · exact .pure _
    refine (holds_positioned hE loop.wanted loop.pre).bind fun b => ?_
    split
    · refine (block_positioned hE loop.body).bind fun signal => ?_
      cases signal with
      | brk | ret v => exact .pure _
      | normal | cont => exact hrest
    · exact .pure _

theorem loop_positioned (hE : E.Positions) (loop : Loop) : (E.loop loop).Positioned :=
  ((discard_positioned hE loop.init).bind fun _ => goRound_positioned hE loop E.rounds).withScope

end Evaluator

theorem Program.evaluator_positions (prog : Program P) (n : Nat) :
    (prog.evaluator n).Positions := by
  cases n with
  | zero => exact ⟨fun _ => .outOfFuel, fun _ => .outOfFuel⟩
  | succ n => exact ⟨fun e => .located e.pos _, fun s => .located s.pos _⟩

end HostScript
