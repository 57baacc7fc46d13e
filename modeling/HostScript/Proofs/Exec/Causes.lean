import HostScript.Exec.Session
import HostScript.Proofs.Calculator.Basic

/-!
# Causes of failures

Two causes tell of a wrong use of the calculator: operands that are not there, and an operator that
it does not know. Nothing that a run looks up, converts or computes fails with one of them, unless
it asks an object: coercions, operators by symbol, the start of a range, and access by key and to
elements. None of these says where it fails, or in which calls: that is up to the constructs that
they are parts of.
-/

namespace HostScript

variable {P : Platform} {α β : Type}

/-- Too few operands, or an operator that does not exist. -/
def Cause.IsMisuse : Cause → Prop
  | .emptyStack | .undefinedOperation _ => True
  | _ => False

structure Failure.Bare (e : Failure) : Prop where
  position : e.position = none
  backtrace : e.backtrace = none

theorem Failure.Bare.of (cause : Cause) : (Failure.of cause).Bare := ⟨rfl, rfl⟩

theorem Failure.Bare.eq {e : Failure} (h : e.Bare) : e = .of e.cause := by
  obtain ⟨cause, position, backtrace⟩ := e
  obtain ⟨rfl, rfl⟩ := h
  rfl

structure Failure.Plain (e : Failure) : Prop extends e.Bare where
  cause : ¬ e.cause.IsMisuse

theorem Failure.Plain.of {cause : Cause} (h : ¬ cause.IsMisuse) : (Failure.of cause).Plain :=
  ⟨.of cause, h⟩

def Ordinary (r : Except Failure α) : Prop :=
  ∀ e, r = .error e → e.Plain

namespace Ordinary

theorem ok (a : α) : Ordinary (.ok a : Except Failure α) := fun _ => nofun

theorem error {e : Failure} (h : e.Plain) : Ordinary (.error e : Except Failure α) := by
  rintro _ ⟨⟩
  exact h

theorem fails {cause : Cause} (h : ¬ cause.IsMisuse) :
    Ordinary (.error (.of cause) : Except Failure α) :=
  .error (.of h)

theorem bind {x : Except Failure α} {f : α → Except Failure β} (hx : Ordinary x)
    (hf : ∀ a, Ordinary (f a)) : Ordinary (x >>= f) := by
  cases x with
  | error e => exact error (hx e rfl)
  | ok a => exact hf a

theorem map {x : Except Failure α} {f : α → β} (hx : Ordinary x) : Ordinary (x.map f) := by
  cases x with
  | error e => exact error (hx e rfl)
  | ok a => exact ok _

theorem elim {o : Option α} {cause : Cause} (h : ¬ cause.IsMisuse) :
    Ordinary (o.elim (.error (.of cause)) .ok : Except Failure α) := by
  cases o with
  | none => exact fails h
  | some a => exact ok a

end Ordinary

-- ---------------------------------------------------------------------------
-- Coercions and operators
-- ---------------------------------------------------------------------------

namespace View

theorem asInt_ordinary (view : View) (v : Value) : Ordinary (view.asInt v) :=
  .elim (fun h => h)

theorem asFloat_ordinary (view : View) (v : Value) : Ordinary (view.asFloat v) :=
  .elim (fun h => h)

theorem asString_ordinary (view : View) (v : Value) : Ordinary (view.asString v) :=
  .elim (fun h => h)

theorem asBool_ordinary (view : View) (v : Value) : Ordinary (view.asBool v) :=
  .elim (fun h => h)

theorem unify_ordinary (view : View) (a b : Value) : Ordinary (view.unify a b) := by
  unfold unify
  dsimp only
  split
  · exact .ok _
  · exact .bind (view.asFloat_ordinary _) fun _ => .ok _
  · exact .bind (view.asInt_ordinary _) fun _ => .ok _
  · exact .bind (view.asString_ordinary _) fun _ => .ok _
  · exact .bind (view.asBool_ordinary _) fun _ => .ok _
  · exact .fails (fun h => h)

end View

theorem shiftLeft_ordinary (a amount : Int64) : Ordinary (shiftLeft a amount) := by
  unfold shiftLeft
  split
  · exact .fails (fun h => h)
  · exact .ok _

theorem shiftRight_ordinary (a amount : Int64) : Ordinary (shiftRight a amount) := by
  unfold shiftRight
  split
  · exact .fails (fun h => h)
  · exact .ok _

theorem quotient_ordinary (a b : Int64) : Ordinary (quotient a b) := by
  unfold quotient
  split
  · exact .fails (fun h => h)
  · exact .ok _

theorem modulo_ordinary (a b : Int64) : Ordinary (modulo a b) := by
  unfold modulo
  split
  · exact .fails (fun h => h)
  · exact .ok _

theorem BinaryOp.onInts_ordinary (op : BinaryOp) (a b : Int64) : Ordinary (op.onInts a b) := by
  cases op with
  | div => exact (quotient_ordinary a b).map
  | mod => exact (modulo_ordinary a b).map
  | shl => exact (shiftLeft_ordinary a b).map
  | shr => exact (shiftRight_ordinary a b).map
  | _ => exact .ok _

theorem BinaryOp.onUnified_ordinary (op : BinaryOp) (a b : Value) :
    Ordinary (op.onUnified a b) := by
  unfold onUnified
  split
  case h_2 => exact op.onInts_ordinary _ _
  all_goals exact .ok _

theorem BinaryOp.ofSymbol?_symbol (op : BinaryOp) : ofSymbol? op.symbol = some op := by
  cases op <;> decide

theorem UnaryOp.ofSymbol?_symbol (op : UnaryOp) : ofSymbol? op.symbol = some op := by
  cases op <;> decide

theorem View.unaryNamed_ordinary (view : View) (op : UnaryOp) (v : Value) :
    Ordinary (view.unaryNamed op.symbol v) := by
  rw [unaryNamed, op.ofSymbol?_symbol]
  exact .elim (fun h => h)

theorem View.binaryNamed_ordinary (view : View) (op : BinaryOp) (a b : Value) :
    Ordinary (view.binaryNamed op.symbol a b) := by
  rw [binaryNamed, op.ofSymbol?_symbol]
  refine .bind (view.unify_ordinary a b) fun (x, y) => ?_
  refine .bind (op.onUnified_ordinary x y) fun answer => ?_
  cases answer with
  | none => exact .fails (fun h => h)
  | some v => exact .ok v

theorem Calculator.unary_bare {view : View} {op : UnaryOp} {operands : Operands} {e : Failure}
    (h : (unary view op.symbol operands).1 = .error e) : e.Bare := by
  cases operands with
  | nil =>
    cases h
    exact .of _
  | cons v rest =>
    rw [unary_apply] at h
    cases hv : view.unaryNamed op.symbol v <;> rw [hv] at h <;> cases h
    exact (view.unaryNamed_ordinary op v _ hv).toBare

theorem Calculator.binary_bare {view : View} {op : BinaryOp} {operands : Operands} {e : Failure}
    (h : (binary view op.symbol operands).1 = .error e) : e.Bare := by
  match operands with
  | [] | [_] =>
    cases h
    exact .of _
  | b :: a :: rest =>
    rw [binary_apply] at h
    cases hv : view.binaryNamed op.symbol a b <;> rw [hv] at h <;> cases h
    exact (view.binaryNamed_ordinary op a b _ hv).toBare

-- ---------------------------------------------------------------------------
-- Objects
-- ---------------------------------------------------------------------------

theorem Cursor.start_ordinary (H : Host P) (w : World P) (v : Value) :
    Ordinary (Cursor.start H w v) := by
  induction v with
  | int n => exact .ok _
  | str s => exact .ok _
  | pair key v ih => exact ih
  | ref r =>
    unfold start
    split
    · exact .ok _
    · exact .ok _
    · exact .ok _
    · exact .fails (fun h => h)
  | _ => exact .fails (fun h => h)

theorem placeIn_ordinary (size : Nat) (index : Int64) : Ordinary (placeIn size index) := by
  unfold placeIn
  dsimp only
  split
  · exact .ok _
  · exact .fails (fun h => h)

theorem Calculator.between_ordinary (view : View) (v low high : Value) (operands : Operands) :
    Ordinary (between view v low high operands).1 := by
  rw [between_apply]
  refine .bind (view.binaryNamed_ordinary .gtEq v low) fun above => ?_
  refine .bind (view.binaryNamed_ordinary .ltEq v high) fun below => ?_
  exact .bind (view.binaryNamed_ordinary .and above below) fun inside => view.asBool_ordinary inside

end HostScript
