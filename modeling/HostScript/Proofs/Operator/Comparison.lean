import HostScript.Proofs.Numeral.Order
import HostScript.Proofs.Operator.Unification

/-!
# Comparisons

The six comparisons are written out for each kind, and floats compare up to the tolerance. Together
they are those of one ordering, or of none if a float is no number (`comparisons_coherent`). Only
infinity is an exception: it does not equal itself.
-/

namespace HostScript

structure Comparisons where
  eq : Bool
  notEq : Bool
  lt : Bool
  ltEq : Bool
  gt : Bool
  gtEq : Bool

namespace Comparisons

structure Coherent (c : Comparisons) : Prop where
  notEq_iff : c.notEq = !c.eq
  ltEq_iff : c.ltEq = (c.lt || c.eq)
  gtEq_iff : c.gtEq = (c.gt || c.eq)
  not_lt_eq : ¬ (c.lt = true ∧ c.eq = true)
  not_gt_eq : ¬ (c.gt = true ∧ c.eq = true)
  not_lt_gt : ¬ (c.lt = true ∧ c.gt = true)

def Total (c : Comparisons) : Prop :=
  c.lt = true ∨ c.eq = true ∨ c.gt = true

def of (o : Option Ordering) : Comparisons where
  eq := o == some .eq
  notEq := o != some .eq
  lt := o == some .lt
  ltEq := o == some .lt || o == some .eq
  gt := o == some .gt
  gtEq := o == some .gt || o == some .eq

theorem of_coherent (o : Option Ordering) : (of o).Coherent := by
  rcases o with _ | (_ | _ | _) <;> constructor <;> decide

theorem of_total (o : Ordering) : (of (some o)).Total := by
  cases o
  · exact .inl rfl
  · exact .inr (.inl rfl)
  · exact .inr (.inr rfl)

-- ---------------------------------------------------------------------------
-- The answers for each kind
-- ---------------------------------------------------------------------------

section Linear

variable {α : Type} [LT α] [LE α] [DecidableLT α] [DecidableEq α] [Std.LawfulOrderLT α]

theorem compareOfLessAndEq_self (a : α) : compareOfLessAndEq a a = .eq := by
  rw [compareOfLessAndEq, if_neg Std.lt_irrefl, if_pos rfl]

variable [Std.IsLinearOrder α]

/-- On a linear order `≤` may be asked as the failure of `>`. -/
theorem of_linear (a b : α) :
    of (some (compareOfLessAndEq a b)) =
      ⟨decide (a = b), !decide (a = b), decide (a < b), !decide (b < a), decide (b < a),
        !decide (a < b)⟩ := by
  have hasymm {a b : α} (h : a < b) : ¬ b < a := Std.not_lt.mpr (Std.le_of_lt h)
  have hne {a b : α} (h : a < b) : a ≠ b := by
    rintro rfl
    exact Std.lt_irrefl h
  rcases Std.lt_trichotomy a b with h | rfl | h
  · simp [of, compareOfLessAndEq, h, hasymm h, hne h]
  · simp [of, compareOfLessAndEq, Std.lt_irrefl]
  · simp [of, compareOfLessAndEq, h, hasymm h, (hne h).symm]

end Linear

def ofInts (m n : Int64) : Comparisons :=
  ⟨m == n, m != n, m < n, m ≤ n, n < m, n ≤ m⟩

def ofStrings (s t : String) : Comparisons :=
  ⟨s == t, s != t, s < t, !decide (t < s), t < s, !decide (s < t)⟩

def ofFloats (x y : Float) : Comparisons :=
  ⟨nearlyEqual x y, !nearlyEqual x y, !nearlyEqual x y && x < y, nearlyEqual x y || x ≤ y,
    !nearlyEqual x y && y < x, nearlyEqual x y || y ≤ x⟩

theorem ofInts_eq (m n : Int64) : ofInts m n = of (some (compareOfLessAndEq m n)) := by
  rw [of_linear, ofInts]
  simp only [← Std.not_lt, decide_not]
  rfl

theorem ofStrings_eq (s t : String) : ofStrings s t = of (some (compareOfLessAndEq s t)) := by
  rw [of_linear, ofStrings]
  rfl

theorem ofFloats_near {x y : Float} (h : nearlyEqual x y = true) :
    ofFloats x y = of (some .eq) := by
  rw [ofFloats, h]
  rfl

theorem ofFloats_apart {x y : Float} (h : nearlyEqual x y = false)
    (hno : ¬ (x.isInf = true ∧ (x == y) = true)) : ofFloats x y = of (Numeral.order? x y) := by
  -- What compares as equal is near, since it is not infinite.
  have hne : Numeral.order? x y ≠ some .eq := by
    intro heq
    have hbeq := Numeral.beq_iff.mpr heq
    have hfinite : x.isInf = false := Bool.eq_false_iff.mpr fun hinf => hno ⟨hinf, hbeq⟩
    cases h.symm.trans (Numeral.nearlyEqual_of_beq hbeq hfinite)
  rw [ofFloats, h]
  simp only [Numeral.lt_iff x y, Numeral.le_iff x y, Numeral.gt_iff x y, Numeral.ge_iff x y]
  rcases ho : Numeral.order? x y with _ | (_ | _ | _)
  · rfl
  · rfl
  · exact absurd ho hne
  · rfl

theorem ofFloats_infinity {x y : Float} (hinf : x.isInf = true) (h : (x == y) = true) :
    ofFloats x y = ⟨false, true, false, true, false, true⟩ := by
  rw [ofFloats, Numeral.nearlyEqual_infinity h hinf]
  simp only [Numeral.lt_iff x y, Numeral.le_iff x y, Numeral.gt_iff x y, Numeral.ge_iff x y,
    Numeral.beq_iff.mp h]
  rfl

end Comparisons

namespace Value

def IsNaN : Value → Prop
  | .float x => x.isNaN = true
  | _ => False

def SameInfinity : Value → Value → Prop
  | .float x, .float y => x.isInf = true ∧ (x == y) = true
  | _, _ => False

/-- What the tables say of two values of one kind that has an order. -/
def comparisons? : Value → Value → Option Comparisons
  | .int m, .int n => some (.ofInts m n)
  | .str s, .str t => some (.ofStrings s t)
  | .float x, .float y => some (.ofFloats x y)
  | _, _ => none

variable {x y : Value} {c : Comparisons}

theorem comparisons?_ordered (hc : x.comparisons? y = some c) (hno : ¬ x.SameInfinity y) :
    ∃ o, c = .of o ∧ (o = none → x.IsNaN ∨ y.IsNaN) ∧
      (x = y → ¬ x.IsNaN → o = some .eq) := by
  cases x <;> cases y <;> cases hc
  case int.int m n =>
    refine ⟨_, Comparisons.ofInts_eq m n, nofun, ?_⟩
    rintro ⟨⟩ -
    exact congrArg some (Comparisons.compareOfLessAndEq_self m)
  case float.float x y =>
    cases hnear : nearlyEqual x y with
    | true => exact ⟨_, Comparisons.ofFloats_near hnear, nofun, fun _ _ => rfl⟩
    | false =>
      refine ⟨_, Comparisons.ofFloats_apart hnear hno, Numeral.order?_eq_none.mp, ?_⟩
      rintro ⟨⟩ hnan
      exact Numeral.order?_self (Bool.eq_false_iff.mpr hnan)
  case str.str s t =>
    refine ⟨_, Comparisons.ofStrings_eq s t, nofun, ?_⟩
    rintro ⟨⟩ -
    exact congrArg some (Comparisons.compareOfLessAndEq_self s)

theorem comparisons?_infinity (hc : x.comparisons? y = some c) (hsame : x.SameInfinity y) :
    c = ⟨false, true, false, true, false, true⟩ := by
  cases x <;> cases y <;> cases hc
  case float.float x y => exact Comparisons.ofFloats_infinity hsame.1 hsame.2
  all_goals exact hsame.elim

theorem comparisons?_of_kind? {k : Kind} (hx : x.kind? = some k) (hy : y.kind? = some k)
    (hk : k ≠ .bool) : ∃ c, x.comparisons? y = some c := by
  cases x <;> cases hx <;> cases y <;> cases hy
  · exact absurd rfl hk
  all_goals exact ⟨_, rfl⟩

end Value

namespace View

variable {view : View} {a b x y : Value}

structure Compares (view : View) (a b : Value) (c : Comparisons) : Prop where
  eq : view.binaryNamed "==" a b = .ok (.bool c.eq)
  notEq : view.binaryNamed "!=" a b = .ok (.bool c.notEq)
  lt : view.binaryNamed "<" a b = .ok (.bool c.lt)
  ltEq : view.binaryNamed "<=" a b = .ok (.bool c.ltEq)
  gt : view.binaryNamed ">" a b = .ok (.bool c.gt)
  gtEq : view.binaryNamed ">=" a b = .ok (.bool c.gtEq)

theorem compares (h : view.unify a b = .ok (x, y)) {c : Comparisons}
    (hc : x.comparisons? y = some c) : view.Compares a b c := by
  cases x <;> cases y <;> cases hc
  all_goals
    exact ⟨binaryNamed_ok .eq h rfl, binaryNamed_ok .notEq h rfl, binaryNamed_ok .lt h rfl,
      binaryNamed_ok .ltEq h rfl, binaryNamed_ok .gt h rfl, binaryNamed_ok .gtEq h rfl⟩

theorem unify_self (h : view.unify a a = .ok (x, y)) : x = y := by
  have hno : ¬ ((view.scalar a).kind? = some .int ∧ (view.scalar a).kind? = some .float) := by
    rintro ⟨hint, hfloat⟩
    cases hint.symm.trans hfloat
  cases hk : (view.scalar a).kind? with
  | none =>
    rw [unify_of_no_kind hk] at h
    cases h
  | some k =>
    rw [unify_of_kind? hk hno, view.scalar_of_kind? hk, Value.toKind?_self hk] at h
    cases h
    rfl

end View

/-- Operands that become ints, strings or floats compare as an ordering says: the answers are
coherent, and place one value before, at or after the other unless one is no number, so that each
equals itself. Only infinity and itself have other answers: neither is less, greater or equal, but
`<=` and `>=` hold. -/
theorem comparisons_coherent {view : View} {a b x y : Value} (h : view.unify a b = .ok (x, y))
    (hk : x.kind? ≠ some .bool) :
    ∃ c, view.Compares a b c ∧
      (¬ x.SameInfinity y →
        c.Coherent ∧ (¬ x.IsNaN → ¬ y.IsNaN → c.Total) ∧
          (a = b → ¬ x.IsNaN → c.eq = true)) ∧
      (x.SameInfinity y → c = ⟨false, true, false, true, false, true⟩) := by
  obtain ⟨k, -, hx, hy⟩ := View.unify_kinds h
  obtain ⟨c, hc⟩ := Value.comparisons?_of_kind? hx hy fun hbool => hk (hbool ▸ hx)
  refine ⟨c, View.compares h hc, fun hno => ?_, Value.comparisons?_infinity hc⟩
  obtain ⟨o, rfl, hnone, hself⟩ := Value.comparisons?_ordered hc hno
  refine ⟨Comparisons.of_coherent o, fun hxnan hynan => ?_, ?_⟩
  · cases o with
    | none => exact absurd (hnone rfl) (not_or.mpr ⟨hxnan, hynan⟩)
    | some o => exact Comparisons.of_total o
  · rintro rfl hnan
    rw [hself (View.unify_self h) hnan]
    rfl

namespace Workbench

/-- An int that meets a float is compared as one. -/
theorem oneAndHalf_coherent :
    boxed.view.unify (.int 1) (.float 1.5) = .ok (.float (Numeral.floatOfInt 1), .float 1.5) ∧
    (Value.float (Numeral.floatOfInt 1)).kind? ≠ some .bool ∧
    ∃ c, boxed.view.Compares (.int 1) (.float 1.5) c ∧ c.Coherent := by
  have hunify : boxed.view.unify (.int 1) (.float 1.5) =
      .ok (.float (Numeral.floatOfInt 1), .float 1.5) := rfl
  have hkind : (Value.float (Numeral.floatOfInt 1)).kind? ≠ some .bool := nofun
  obtain ⟨c, hc, hcoherent, -⟩ := comparisons_coherent hunify hkind
  have hfinite : ¬ (Value.float (Numeral.floatOfInt 1)).SameInfinity (.float 1.5) := by
    rintro ⟨hinf, -⟩
    revert hinf
    decide
  exact ⟨hunify, hkind, c, hc, (hcoherent hfinite).1⟩

/-- Infinity, which is a number, is not equal to itself, nor less, but less or equal. -/
theorem infinity_incoherent :
    ¬ (Value.float (1.0 / 0.0)).IsNaN ∧
    ∃ c, boxed.view.Compares (.float (1.0 / 0.0)) (.float (1.0 / 0.0)) c ∧
      c.eq = false ∧ c.lt = false ∧ c.ltEq = true ∧ ¬ c.Coherent ∧ ¬ c.Total := by
  have hnan : ¬ (1.0 / 0.0 : Float).isNaN = true := by decide
  have hanswers : Comparisons.ofFloats (1.0 / 0.0) (1.0 / 0.0) =
      ⟨false, true, false, true, false, true⟩ :=
    Comparisons.ofFloats_infinity (by decide) (by decide)
  have hunify : boxed.view.unify (.float (1.0 / 0.0)) (.float (1.0 / 0.0)) =
      .ok (.float (1.0 / 0.0), .float (1.0 / 0.0)) := rfl
  refine ⟨hnan, _, View.compares hunify (congrArg some hanswers), rfl, rfl, rfl,
    fun h => ?_, ?_⟩
  · cases h.ltEq_iff
  · rintro (h | h | h) <;> cases h

end Workbench

end HostScript
