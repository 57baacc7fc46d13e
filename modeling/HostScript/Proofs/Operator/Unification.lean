import HostScript.Proofs.Exec.Causes
import HostScript.Proofs.Value.Scalars
import HostScript.Workbench.Basic

/-!
# Operands of operators

An operator sees of its operands the scalars that they stand for, and no more: it does the same with
these in their place, failures included (`operators_see_scalars`). Before a binary operator looks
itself up, its operands are brought to two values of one kind, so one of the four tables always has
a row for them.
-/

namespace HostScript

variable {P : Platform}

namespace Value

def kind? : Value → Option Kind
  | .int _ => some .int
  | .float _ => some .float
  | .bool _ => some .bool
  | .str _ => some .str
  | _ => none

/-- The kind that two scalars are brought to: that of the left one, but an int that meets
a float widens. -/
def commonKind? (a b : Value) : Option Kind :=
  if a.kind? = some .int ∧ b.kind? = some .float then some .float else a.kind?

variable {v y : Value} {k : Kind}

theorem kind?_ne_any (v : Value) : v.kind? ≠ some .any := by
  cases v <;> nofun

theorem toKind?_self (h : v.kind? = some k) : v.toKind? k = some v := by
  cases v <;> cases h <;> rfl

theorem kind?_of_toKind? (hk : k ≠ .any) (h : v.toKind? k = some y) : y.kind? = some k := by
  cases k with
  | any => exact absurd rfl hk
  | _ =>
    obtain ⟨_, -, rfl⟩ := Option.map_eq_some_iff.mp h
    rfl

end Value

/-- The operator by the tables of the four kinds, and anything else on values that no table has a
row for. -/
def BinaryOp.onAlike (op : BinaryOp)
    (otherwise : Value → Value → Except Failure (Option Value)) :
    Value → Value → Except Failure (Option Value)
  | .float a, .float b => .ok (op.onFloats a b)
  | .int a, .int b => op.onInts a b
  | .str a, .str b => .ok (op.onStrings a b)
  | .bool a, .bool b => .ok (op.onBools a b)
  | a, b => otherwise a b

theorem BinaryOp.onAlike_eq {x y : Value} {k : Kind} (hx : x.kind? = some k)
    (hy : y.kind? = some k) (op : BinaryOp)
    (otherwise : Value → Value → Except Failure (Option Value)) :
    op.onAlike otherwise x y = op.onUnified x y := by
  cases x <;> cases hx <;> cases y <;> cases hy <;> rfl

namespace View

variable {view : View} {a b x y v : Value} {k : Kind}

-- ---------------------------------------------------------------------------
-- What operands are brought to
-- ---------------------------------------------------------------------------

theorem scalar_of_kind? (view : View) (h : v.kind? = some k) : view.scalar v = v := by
  refine scalarWithin_itself ?_ ?_ view.size
  all_goals cases v <;> first | rfl | cases h

theorem unify_widens (ha : (view.scalar a).kind? = some .int)
    (hb : (view.scalar b).kind? = some .float) :
    ∃ n z, view.scalar a = .int n ∧ view.scalar b = .float z ∧
      view.unify a b = .ok (.float (Numeral.floatOfInt n), .float z) := by
  cases hva : view.scalar a <;> rw [hva] at ha <;> cases ha
  cases hvb : view.scalar b <;> rw [hvb] at hb <;> cases hb
  exact ⟨_, _, rfl, rfl, by simp only [unify, hva, hvb]⟩

/-- Unless an int meets a float, the left operand stays and the right one becomes of its kind. -/
theorem unify_of_kind? (hk : (view.scalar a).kind? = some k)
    (hno : ¬ ((view.scalar a).kind? = some .int ∧ (view.scalar b).kind? = some .float)) :
    view.unify a b =
      ((view.scalar (view.scalar b)).toKind? k).elim
        (.error (view.conversionFailure (view.scalar b) k)) fun y => .ok (view.scalar a, y) := by
  have hbrought {α : Type} (o : Option α) (e : Failure) (v : Value) (f : α → Value) :
      (do let n ← o.elim (.error e) .ok; return (v, f n)) =
        (o.map f).elim (.error e) fun y => (.ok (v, y) : Except Failure (Value × Value)) := by
    cases o <;> rfl
  have hkind {v : Value} (ha : view.scalar a = v) : v.kind? = some k := ha ▸ hk
  unfold unify asFloat asInt asString asBool
  dsimp only
  split
  next ha hb => exact absurd ⟨by rw [ha]; rfl, by rw [hb]; rfl⟩ hno
  next ha =>
    cases hkind ha
    exact hbrought _ _ _ _
  next ha _ =>
    cases hkind ha
    exact hbrought _ _ _ _
  next ha =>
    cases hkind ha
    exact hbrought _ _ _ _
  next ha =>
    cases hkind ha
    exact hbrought _ _ _ _
  next hfloat hint hstr hbool _ =>
    cases ha : view.scalar a <;> cases hkind ha
    · exact absurd ha (hbool _)
    · exact absurd ha (hint _)
    · exact absurd ha (hfloat _)
    · exact absurd ha (hstr _)

theorem unify_of_no_kind (hk : (view.scalar a).kind? = none) (b : Value) :
    view.unify a b = .error (.of (.unsupportedConversion (view.valueType (view.scalar a))
      (view.valueType (view.scalar b)))) := by
  unfold unify
  dsimp only
  cases ha : view.scalar a <;> rw [ha] at hk <;> first | rfl | cases hk

theorem unify_kinds (h : view.unify a b = .ok (x, y)) :
    ∃ k, (view.scalar a).commonKind? (view.scalar b) = some k ∧ x.kind? = some k ∧
      y.kind? = some k := by
  by_cases hwide : (view.scalar a).kind? = some .int ∧ (view.scalar b).kind? = some .float
  · obtain ⟨n, z, -, -, hunify⟩ := unify_widens hwide.1 hwide.2
    cases hunify.symm.trans h
    exact ⟨.float, if_pos hwide, rfl, rfl⟩
  · cases hk : (view.scalar a).kind? with
    | none =>
      rw [unify_of_no_kind hk] at h
      cases h
    | some k =>
      rw [unify_of_kind? hk hwide] at h
      cases hy : (view.scalar (view.scalar b)).toKind? k with
      | none =>
        rw [hy] at h
        cases h
      | some y' =>
        rw [hy] at h
        cases h
        have hany : k ≠ .any := by
          rintro rfl
          exact Value.kind?_ne_any _ hk
        exact ⟨k, (if_neg hwide).trans hk, hk, Value.kind?_of_toKind? hany hy⟩

theorem unify_alike (view : View) (hx : x.kind? = some k) (hy : y.kind? = some k) :
    view.unify x y = .ok (x, y) := by
  have hsx := view.scalar_of_kind? hx
  have hsy := view.scalar_of_kind? hy
  have hno : ¬ ((view.scalar x).kind? = some .int ∧ (view.scalar y).kind? = some .float) := by
    rw [hsx, hsy, hx, hy]
    rintro ⟨⟨⟩, ⟨⟩⟩
  rw [unify_of_kind? (hsx.symm ▸ hx) hno, hsx, hsy, hsy, Value.toKind?_self hy]
  rfl

-- ---------------------------------------------------------------------------
-- Scalars in place of what stands for them
-- ---------------------------------------------------------------------------

theorem unify_scalar (ha : view.scalar (view.scalar a) = view.scalar a)
    (hb : view.scalar (view.scalar b) = view.scalar b) :
    view.unify (view.scalar a) (view.scalar b) = view.unify a b := by
  simp only [unify, ha, hb]

theorem equals_scalar (ha : view.scalar (view.scalar a) = view.scalar a)
    (hb : view.scalar (view.scalar b) = view.scalar b) :
    view.equals (view.scalar a) (view.scalar b) = view.equals a b := by
  simp only [equals, unify_scalar ha hb]

theorem unaryNamed_scalar (ha : view.scalar (view.scalar a) = view.scalar a) (name : String) :
    view.unaryNamed name (view.scalar a) = view.unaryNamed name a := by
  simp only [unaryNamed, applyUnary, ha]

theorem binaryNamed_scalar (ha : view.scalar (view.scalar a) = view.scalar a)
    (hb : view.scalar (view.scalar b) = view.scalar b) (name : String) :
    view.binaryNamed name (view.scalar a) (view.scalar b) = view.binaryNamed name a b := by
  simp only [binaryNamed, applyBinary, unify_scalar ha hb, ha, hb]

-- ---------------------------------------------------------------------------
-- Binary operators on what operands are brought to
-- ---------------------------------------------------------------------------

theorem binaryNamed_symbol (view : View) (op : BinaryOp) (a b : Value) :
    view.binaryNamed op.symbol a b = view.applyBinary op a b := by
  rw [binaryNamed, op.ofSymbol?_symbol]

theorem applyBinary_error {e : Failure} (h : view.unify a b = .error e) (op : BinaryOp) :
    view.applyBinary op a b = .error e := by
  rw [applyBinary, h]
  rfl

theorem applyBinary_ok {op : BinaryOp} (h : view.unify a b = .ok (x, y))
    (hop : op.onUnified x y = .ok (some v)) : view.applyBinary op a b = .ok v := by
  rw [applyBinary, h]
  change (op.onUnified x y >>= _) = _
  rw [hop]
  rfl

theorem binaryNamed_ok (op : BinaryOp) (h : view.unify a b = .ok (x, y))
    (hop : op.onUnified x y = .ok (some v)) : view.binaryNamed op.symbol a b = .ok v :=
  (view.binaryNamed_symbol op a b).trans (applyBinary_ok h hop)

end View

/-- Operators see of values the scalars that they stand for. A scalar stands for itself and is not
named. Operands that can be brought to one kind are, and stay as they are if they are brought to it
once more; on them an operator is what a table makes of it, whatever it would do on operands that no
table knows. -/
theorem operators_see_scalars (w : World P) {a b : Value} (ha : w.view.Settles a)
    (hb : w.view.Settles b) :
    (w.view.scalar (w.view.scalar a) = w.view.scalar a ∧
      ∀ key inner, w.view.scalar a ≠ .pair key inner) ∧
    (∀ name, w.view.unaryNamed name (w.view.scalar a) = w.view.unaryNamed name a) ∧
    (∀ name, w.view.binaryNamed name (w.view.scalar a) (w.view.scalar b) =
      w.view.binaryNamed name a b) ∧
    w.view.unify (w.view.scalar a) (w.view.scalar b) = w.view.unify a b ∧
    w.view.equals (w.view.scalar a) (w.view.scalar b) = w.view.equals a b ∧
    ∀ x y, w.view.unify a b = .ok (x, y) →
      (∃ k, (w.view.scalar a).commonKind? (w.view.scalar b) = some k ∧ x.kind? = some k ∧
        y.kind? = some k) ∧
      w.view.unify x y = .ok (x, y) ∧
      ∀ (op : BinaryOp) otherwise, op.onUnified x y = op.onAlike otherwise x y := by
  have hsa := World.scalar_scalar ha
  have hsb := World.scalar_scalar hb
  refine ⟨⟨hsa, w.view.scalar_ne_pair a⟩, View.unaryNamed_scalar hsa,
    View.binaryNamed_scalar hsa hsb, View.unify_scalar hsa hsb, View.equals_scalar hsa hsb,
    fun x y h => ?_⟩
  obtain ⟨k, hcommon, hx, hy⟩ := View.unify_kinds h
  exact ⟨⟨k, hcommon, hx, hy⟩, w.view.unify_alike hx hy,
    fun op otherwise => (op.onAlike_eq hx hy otherwise).symm⟩

namespace Workbench

def boxed : World platform :=
  ⟨#[.foreign (.point 3 4), .foreign (.box (.pair "inner" (.ref 0)))], []⟩

/-- What does not become a number fails alike for the named box and for the sum of the point. -/
theorem boxedPoint_seen : boxed.view.Settles (.pair "outer" (.ref 1)) ∧
    boxed.view.Settles (.str "six") ∧
    boxed.view.binaryNamed "*" (.int 7) (.str "six") =
      boxed.view.binaryNamed "*" (.pair "outer" (.ref 1)) (.str "six") := by
  have hbox : boxed.view.Settles (.pair "outer" (.ref 1)) :=
    ⟨_, _, .named (.through rfl (.named (.through rfl (.itself rfl rfl))))⟩
  have hsix : boxed.view.Settles (.str "six") := ⟨_, _, .itself rfl rfl⟩
  obtain ⟨-, -, hbinary, -⟩ := operators_see_scalars boxed hbox hsix
  exact ⟨hbox, hsix, hbinary "*"⟩

end Workbench

end HostScript
