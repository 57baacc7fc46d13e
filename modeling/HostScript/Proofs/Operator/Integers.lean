import HostScript.Proofs.Operator.Unification
import Mathlib.Data.Rat.Floor

/-!
# Integer arithmetic

Ints have sixty-four bits, and what does not fit wraps around. Each operator is told by what it does
on the integers that the operands stand for (`ints_compute`). The only failures are a division by
zero, a shift by a negative amount, and the two operators that ints do not have.
-/

namespace HostScript

variable {a b : Int64}

-- ---------------------------------------------------------------------------
-- Division
-- ---------------------------------------------------------------------------

namespace Numeral

theorem div_eq (a b : Int64) : a / b = .ofInt (a.toInt.tdiv b.toInt) := by
  rw [← Int64.toInt_inj, Int64.toInt_div, Int64.toInt_ofInt]

theorem abs_mod_lt (hb : b ≠ 0) : |(a % b).toInt| < |b.toInt| := by
  have hb : b.toInt ≠ 0 := fun h => hb (Int64.toInt_inj.mp h)
  rw [Int64.toInt_mod, Int.abs_eq_natAbs, Int.abs_eq_natAbs, Int.natAbs_tmod]
  exact_mod_cast Nat.mod_lt _ (Int.natAbs_pos.mpr hb)

theorem sign_mod (a b : Int64) : a % b = 0 ∨ (a % b).toInt.sign = a.toInt.sign := by
  rw [← Int64.toInt_inj, Int64.toInt_mod, Int.sign_tmod]
  by_cases hdvd : b.toInt ∣ a.toInt
  · exact .inl (Int.tmod_eq_zero_of_dvd hdvd)
  · exact .inr (if_neg hdvd)

/-- The quotient and the remainder make up the dividend, also where the quotient does not fit. -/
theorem div_mul_add_mod (a b : Int64) :
    Int64.ofInt ((a / b).toInt * b.toInt + (a % b).toInt) = a := by
  calc Int64.ofInt ((a / b).toInt * b.toInt + (a % b).toInt)
      = .ofInt (a.toInt.tdiv b.toInt) * .ofInt b.toInt + .ofInt (a.toInt.tmod b.toInt) := by
        rw [Int64.ofInt_add, Int64.ofInt_mul, Int64.ofInt_toInt, div_eq, Int64.toInt_mod]
    _ = .ofInt (a.toInt.tdiv b.toInt * b.toInt + a.toInt.tmod b.toInt) := by
        rw [Int64.ofInt_add, Int64.ofInt_mul]
    _ = a := by rw [Int.tdiv_mul_add_tmod, Int64.ofInt_toInt]

example : quotient Int64.minValue (-1) = .ok Int64.minValue := by rfl

-- ---------------------------------------------------------------------------
-- Shifts
-- ---------------------------------------------------------------------------

theorem toInt_le_of_not_lt (h : ¬ b < a) : a.toInt ≤ b.toInt :=
  Int64.le_iff_toInt_le.mp (Int64.not_lt.mp h)

theorem smod_amount (h0 : 0 ≤ b.toInt) (h : b.toInt < 64) :
    (b.toBitVec.smod 64).toNat = b.toInt.toNat := by
  have hint : (b.toBitVec.smod 64).toInt = b.toInt := by
    rw [BitVec.toInt_smod]
    change b.toInt.fmod 64 = b.toInt
    rw [Int.fmod_eq_emod_of_nonneg _ (by decide), Int.emod_eq_of_lt h0 h]
  have hnat : (b.toBitVec.smod 64).toInt = (b.toBitVec.smod 64).toNat :=
    BitVec.toInt_eq_toNat_of_lt (BitVec.toInt_pos_iff.mp (hint ▸ h0))
  omega

theorem ofInt_mul_pow (a : Int64) (n : Nat) :
    (Int64.ofInt (a.toInt * 2 ^ n)).toBitVec = a.toBitVec <<< n := by
  have hpow : BitVec.ofInt 64 (2 ^ n) = BitVec.twoPow 64 n := by
    rw [← BitVec.toNat_inj, BitVec.toNat_twoPow]
    norm_cast
  have ha : BitVec.ofInt 64 a.toInt = a.toBitVec := BitVec.ofInt_toInt
  rw [Int64.toBitVec_ofInt, BitVec.ofInt_mul, hpow, ha, BitVec.shiftLeft_eq_mul_twoPow]

theorem toInt_shiftRight (a : Int64) (h0 : 0 ≤ b.toInt) (h : b.toInt < 64) :
    (a >>> b).toInt = a.toInt / 2 ^ b.toInt.toNat := by
  change (a >>> b).toBitVec.toInt = a.toBitVec.toInt / _
  rw [Int64.toBitVec_shiftRight, BitVec.sshiftRight', smod_amount h0 h, BitVec.toInt_sshiftRight,
    Int.shiftRight_eq_div_pow]
  norm_cast

theorem div_pow_far (a : Int64) {n : Nat} (h : 63 ≤ n) : a.toInt / 2 ^ n = a.toInt / 2 ^ 63 := by
  have hsign {m : Int} (hm : 2 ^ 63 ≤ m) : a.toInt / m = if a.toInt < 0 then -1 else 0 := by
    have hlow := a.le_toInt
    have hhigh := a.toInt_lt
    split
    · exact Int.ediv_eq_neg_one_of_neg_of_le ‹_› (by omega)
    · exact Int.ediv_eq_zero_of_lt (by omega) (by omega)
  rw [hsign (pow_le_pow_right₀ (by decide) h), hsign (le_refl _)]

end Numeral

theorem shiftLeft_eq (h : ¬ b < 0) :
    shiftLeft a b = .ok (.ofInt (a.toInt * 2 ^ b.toInt.toNat)) := by
  have h0 : 0 ≤ b.toInt := Numeral.toInt_le_of_not_lt h
  rw [shiftLeft, if_neg h]
  congr 1
  rw [← Int64.toBitVec_inj, Numeral.ofInt_mul_pow]
  split
  next hb =>
    rw [Int64.toBitVec_shiftLeft, BitVec.shiftLeft_eq',
      Numeral.smod_amount h0 (Int64.lt_iff_toInt_lt.mp hb)]
  next hb =>
    have hb : 64 ≤ b.toInt := Numeral.toInt_le_of_not_lt hb
    exact (BitVec.shiftLeft_eq_zero (by omega)).symm

theorem shiftRight_eq (a : Int64) (h : ¬ b < 0) :
    ∃ c : Int64, shiftRight a b = .ok c ∧
      c.toInt = ⌊(a.toInt : ℚ) / 2 ^ b.toInt.toNat⌋ := by
  have h0 : 0 ≤ b.toInt := Numeral.toInt_le_of_not_lt h
  have hfloor : ⌊(a.toInt : ℚ) / 2 ^ b.toInt.toNat⌋ = a.toInt / 2 ^ b.toInt.toNat := by
    exact_mod_cast Rat.floor_intCast_div_natCast a.toInt (2 ^ b.toInt.toNat)
  refine ⟨_, if_neg h, ?_⟩
  rw [hfloor]
  split
  next hb =>
    have hb : b.toInt < 63 := Int64.lt_iff_toInt_lt.mp hb
    exact Numeral.toInt_shiftRight a h0 (by omega)
  next hb =>
    have hb : 63 ≤ b.toInt := Numeral.toInt_le_of_not_lt hb
    rw [Numeral.div_pow_far a (by omega : 63 ≤ b.toInt.toNat)]
    exact Numeral.toInt_shiftRight a (by decide) (by decide)

-- ---------------------------------------------------------------------------
-- All operators
-- ---------------------------------------------------------------------------

namespace View

variable {view : View}

theorem binaryNamed_ints (view : View) (op : BinaryOp) (a b : Int64) :
    view.binaryNamed op.symbol (.int a) (.int b) =
      (op.onInts a b).bind fun answer =>
        answer.elim (.error (.of (.unsupportedBinary "int" op.symbol "int"))) .ok := by
  have hunify : view.unify (.int a) (.int b) = .ok (.int a, .int b) := view.unify_alike rfl rfl
  have hscalar (n : Int64) : view.valueType (view.scalar (.int n)) = "int" := by
    rw [view.scalar_of_kind? rfl]
    rfl
  rw [view.binaryNamed_symbol, applyBinary, hunify, hscalar, hscalar]
  change (op.onInts a b >>= _) = _
  rcases op.onInts a b with _ | (_ | _) <;> rfl

theorem ints_ok (op : BinaryOp) {n : Int64} (h : op.onInts a b = .ok (some (.int n))) :
    view.binaryNamed op.symbol (.int a) (.int b) = .ok (.int n) :=
  binaryNamed_ok op (view.unify_alike rfl rfl) h

theorem ints_error (op : BinaryOp) {e : Failure} (h : op.onInts a b = .error e) :
    view.binaryNamed op.symbol (.int a) (.int b) = .error e := by
  rw [binaryNamed_ints, h]
  rfl

theorem ints_defined (view : View) (op : BinaryOp) (a b : Int64) :
    (∃ v, view.binaryNamed op.symbol (.int a) (.int b) = .ok v) ↔
      ¬ (op ∈ [.div, .mod] ∧ b = 0) ∧ ¬ (op ∈ [.shl, .shr] ∧ b < 0) ∧
        op ∉ [.and, .or] := by
  have hanswer : (∃ v, view.binaryNamed op.symbol (.int a) (.int b) = .ok v) ↔
      ∃ v, op.onInts a b = .ok (some v) := by
    rw [binaryNamed_ints]
    rcases op.onInts a b with _ | (_ | _) <;> simp [Except.bind]
  rw [hanswer]
  cases op
  case div => by_cases hb : b = 0 <;> simp [BinaryOp.onInts, quotient, Except.map, hb]
  case mod => by_cases hb : b = 0 <;> simp [BinaryOp.onInts, modulo, Except.map, hb]
  case shl => by_cases hb : b < 0 <;> simp [BinaryOp.onInts, shiftLeft, Except.map, hb]
  case shr => by_cases hb : b < 0 <;> simp [BinaryOp.onInts, shiftRight, Except.map, hb]
  all_goals simp [BinaryOp.onInts]

theorem divide_ints (view : View) (hb : b ≠ 0) :
    ∃ q r : Int64, view.binaryNamed "/" (.int a) (.int b) = .ok (.int q) ∧
      view.binaryNamed "%" (.int a) (.int b) = .ok (.int r) ∧
      q = .ofInt (a.toInt.tdiv b.toInt) ∧ |r.toInt| < |b.toInt| ∧
      (r = 0 ∨ r.toInt.sign = a.toInt.sign) ∧ .ofInt (q.toInt * b.toInt + r.toInt) = a := by
  refine ⟨a / b, a % b, ints_ok .div ?_, ints_ok .mod ?_, Numeral.div_eq a b,
    Numeral.abs_mod_lt hb, Numeral.sign_mod a b, Numeral.div_mul_add_mod a b⟩
  · rw [BinaryOp.onInts, quotient, if_neg hb]
    rfl
  · rw [BinaryOp.onInts, modulo, if_neg hb]
    rfl

theorem shift_ints (view : View) (hb : ¬ b < 0) :
    view.binaryNamed "<<" (.int a) (.int b) = .ok (.int (.ofInt (a.toInt * 2 ^ b.toInt.toNat))) ∧
      ∃ c : Int64, view.binaryNamed ">>" (.int a) (.int b) = .ok (.int c) ∧
        c.toInt = ⌊(a.toInt : ℚ) / 2 ^ b.toInt.toNat⌋ := by
  obtain ⟨c, hc, hfloor⟩ := shiftRight_eq a hb
  refine ⟨ints_ok .shl ?_, c, ints_ok .shr ?_, hfloor⟩
  · rw [BinaryOp.onInts, shiftLeft_eq hb]
    rfl
  · rw [BinaryOp.onInts, hc]
    rfl

theorem mask_ints (view : View) (a b : Int64) :
    ∃ kept cleared : Int64, view.binaryNamed "&" (.int a) (.int b) = .ok (.int kept) ∧
      view.binaryNamed "&^" (.int a) (.int b) = .ok (.int cleared) ∧
      view.binaryNamed "|" (.int kept) (.int cleared) = .ok (.int a) ∧
      view.binaryNamed "&" (.int kept) (.int cleared) = .ok (.int 0) := by
  have hor : (a &&& b) ||| (a &&& ~~~b) = a := by
    rw [← Int64.toBitVec_inj, Int64.toBitVec_or, Int64.toBitVec_and, Int64.toBitVec_and,
      ← BitVec.and_or_distrib_left, Int64.toBitVec_not, BitVec.or_not_self, BitVec.and_allOnes]
  have hand : (a &&& b) &&& (a &&& ~~~b) = 0 :=
    calc (a &&& b) &&& (a &&& ~~~b) = (a &&& a) &&& (b &&& ~~~b) := by
          simp only [Int64.and_assoc, Int64.and_comm b]
      _ = 0 := by rw [Int64.and_not_self, Int64.and_zero]
  exact ⟨a &&& b, a &&& ~~~b, ints_ok .bitAnd rfl, ints_ok .bitClear rfl,
    ints_ok .bitOr (by rw [BinaryOp.onInts, hor]),
    ints_ok .bitAnd (by rw [BinaryOp.onInts, hand])⟩

end View

/-- Sum, difference, product and negation wrap around. Quotient and remainder fail if there is
nothing to divide by; else the quotient is rounded toward zero, the remainder is smaller than the
divisor, with the sign of the dividend, and the two make up the dividend. Shifts fail if the amount
is negative; else they multiply or divide by a power of two, however large, down to a whole number.
What a mask keeps and what it clears make up the whole. No operator that ints have fails otherwise.
-/
theorem ints_compute (view : View) (a b : Int64) :
    (view.binaryNamed "+" (.int a) (.int b) = .ok (.int (.ofInt (a.toInt + b.toInt))) ∧
      view.binaryNamed "-" (.int a) (.int b) = .ok (.int (.ofInt (a.toInt - b.toInt))) ∧
      view.binaryNamed "*" (.int a) (.int b) = .ok (.int (.ofInt (a.toInt * b.toInt))) ∧
      view.unaryNamed "-" (.int a) = .ok (.int (.ofInt (-a.toInt)))) ∧
    (if b = 0 then
      view.binaryNamed "/" (.int a) (.int b) = .error (.of .divisionByZero) ∧
        view.binaryNamed "%" (.int a) (.int b) = .error (.of .moduloByZero)
    else
      ∃ q r : Int64, view.binaryNamed "/" (.int a) (.int b) = .ok (.int q) ∧
        view.binaryNamed "%" (.int a) (.int b) = .ok (.int r) ∧
        q = .ofInt (a.toInt.tdiv b.toInt) ∧ |r.toInt| < |b.toInt| ∧
        (r = 0 ∨ r.toInt.sign = a.toInt.sign) ∧ .ofInt (q.toInt * b.toInt + r.toInt) = a) ∧
    (if b < 0 then
      view.binaryNamed "<<" (.int a) (.int b) = .error (.of (.negativeShift b)) ∧
        view.binaryNamed ">>" (.int a) (.int b) = .error (.of (.negativeShift b))
    else
      view.binaryNamed "<<" (.int a) (.int b) =
          .ok (.int (.ofInt (a.toInt * 2 ^ b.toInt.toNat))) ∧
        ∃ c : Int64, view.binaryNamed ">>" (.int a) (.int b) = .ok (.int c) ∧
          c.toInt = ⌊(a.toInt : ℚ) / 2 ^ b.toInt.toNat⌋) ∧
    (∃ kept cleared : Int64, view.binaryNamed "&" (.int a) (.int b) = .ok (.int kept) ∧
      view.binaryNamed "&^" (.int a) (.int b) = .ok (.int cleared) ∧
      view.binaryNamed "|" (.int kept) (.int cleared) = .ok (.int a) ∧
      view.binaryNamed "&" (.int kept) (.int cleared) = .ok (.int 0)) ∧
    ∀ op : BinaryOp, (∃ v, view.binaryNamed op.symbol (.int a) (.int b) = .ok v) ↔
      ¬ (op ∈ [.div, .mod] ∧ b = 0) ∧ ¬ (op ∈ [.shl, .shr] ∧ b < 0) ∧
        op ∉ [.and, .or] := by
  refine ⟨⟨View.ints_ok .add ?_, View.ints_ok .sub ?_, View.ints_ok .mul ?_, ?_⟩, ?_, ?_,
    view.mask_ints a b, fun op => view.ints_defined op a b⟩
  · rw [Int64.ofInt_add, Int64.ofInt_toInt, Int64.ofInt_toInt, BinaryOp.onInts]
  · rw [Int64.ofInt_sub, Int64.ofInt_toInt, Int64.ofInt_toInt, BinaryOp.onInts]
  · rw [Int64.ofInt_mul, Int64.ofInt_toInt, Int64.ofInt_toInt, BinaryOp.onInts]
  · change view.applyUnary .neg (.int a) = _
    rw [View.applyUnary, view.scalar_of_kind? rfl, Int64.ofInt_neg, Int64.ofInt_toInt]
    rfl
  · split
    next hb => exact ⟨View.ints_error .div (hb ▸ rfl), View.ints_error .mod (hb ▸ rfl)⟩
    next hb => exact view.divide_ints hb
  · split
    next hb =>
      constructor
      · refine View.ints_error .shl ?_
        rw [BinaryOp.onInts, shiftLeft, if_pos hb]
        rfl
      · refine View.ints_error .shr ?_
        rw [BinaryOp.onInts, shiftRight, if_pos hb]
        rfl
    next hb => exact view.shift_ints hb

end HostScript
