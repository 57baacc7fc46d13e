import HostScript.Value.Coercion

/-!
# The order of floats

Two floats compare as less, equal or greater unless one of them is no number (`order?`), and the
bits of both decide which. Equality up to the tolerance takes a difference instead. The two agree on
floats that compare as equal (`nearlyEqual_of_beq`), except on infinity: its difference to itself is
no number (`nearlyEqual_infinity`).
-/

namespace HostScript.Numeral

open Float.Model (UnpackedFloat)

-- ---------------------------------------------------------------------------
-- What the bits stand for
-- ---------------------------------------------------------------------------

section Unpacked

variable {u v : UnpackedFloat}

theorem compare_swap (u v : UnpackedFloat) : v.compare u = (u.compare v).map .swap := by
  have hswap (e d : Int) (m n : Nat) :
      (compare d e).then (compare n m) = ((compare e d).then (compare m n)).swap := by
    rw [Ordering.swap_then, Int.compare_swap, Nat.compare_swap]
  rcases u with ⟨_ | _⟩ | _ | _ | ⟨_ | _, m, e, _⟩ <;>
    rcases v with ⟨_ | _⟩ | _ | _ | ⟨_ | _, n, d, _⟩ <;> try rfl
  · exact congrArg (some ∘ Ordering.swap) (hswap e d m n)
  · exact congrArg some (hswap e d m n)

theorem compare_eq_none : u.compare v = none ↔ u.isNaN = true ∨ v.isNaN = true := by
  rcases u with ⟨_ | _⟩ | _ | _ | ⟨_ | _, _, _, _⟩ <;>
    rcases v with ⟨_ | _⟩ | _ | _ | ⟨_ | _, _, _, _⟩
  all_goals
    constructor
    · rintro ⟨⟩ <;> first | exact .inl rfl | exact .inr rfl
    · rintro (⟨⟨⟩⟩ | ⟨⟨⟩⟩) <;> rfl

theorem same_of_compare (h : u.compare v = some .eq) :
    u = v ∨ ∃ s t, u = .zero s ∧ v = .zero t := by
  have hsame {e d : Int} {m n : Nat} (h : (compare e d).then (compare m n) = .eq) :
      e = d ∧ m = n := by
    rw [Ordering.then_eq_eq, Int.compare_eq_eq, Nat.compare_eq_eq] at h
    exact h
  -- Any other two forms compare as different, or not at all.
  rcases u with ⟨_ | _⟩ | _ | s | ⟨_ | _, m, e, _⟩ <;>
    rcases v with ⟨_ | _⟩ | _ | t | ⟨_ | _, n, d, _⟩ <;> try cases h
  · exact .inl rfl
  · exact .inl rfl
  · exact .inr ⟨s, t, rfl, rfl⟩
  · obtain ⟨rfl, rfl⟩ := hsame (Ordering.swap_eq_eq.mp (Option.some.inj h))
    exact .inl rfl
  · obtain ⟨rfl, rfl⟩ := hsame (Option.some.inj h)
    exact .inl rfl

theorem sub_of_compare (h : u.compare v = some .eq) (hfinite : u.isInf = false) :
    ∃ s, UnpackedFloat.sub .binary64 u v = .zero s := by
  rcases same_of_compare h with rfl | ⟨s, t, rfl, rfl⟩
  · rcases u with _ | _ | ⟨_ | _⟩ | ⟨s, m, e, _⟩
    · cases hfinite
    · cases h
    · exact ⟨_, rfl⟩
    · exact ⟨_, rfl⟩
    · refine ⟨.positive, ?_⟩
      change UnpackedFloat.normalize .binary64 (_ - _) _ _ = _
      rw [Int.sub_self]
      rfl
  · cases s <;> cases t <;> exact ⟨_, rfl⟩

theorem sub_of_infinity (h : u.compare v = some .eq) (hinf : u.isInf = true) :
    UnpackedFloat.sub .binary64 u v = .notANumber := by
  rcases same_of_compare h with rfl | ⟨s, t, rfl, rfl⟩
  · rcases u with ⟨_ | _⟩ | _ | _ | _
    · rfl
    · rfl
    all_goals cases hinf
  · cases hinf

end Unpacked

-- ---------------------------------------------------------------------------
-- How floats compare
-- ---------------------------------------------------------------------------

def order? (x y : Float) : Option Ordering :=
  x.toModel.compare y.toModel

variable {x y : Float}

theorem order?_swap (x y : Float) : order? y x = (order? x y).map .swap :=
  compare_swap _ _

theorem order?_eq_none : order? x y = none ↔ x.isNaN = true ∨ y.isNaN = true :=
  compare_eq_none

theorem order?_self (h : x.isNaN = false) : order? x x = some .eq := by
  have hswap := order?_swap x x
  rcases hx : order? x x with _ | (_ | _ | _)
  · rcases order?_eq_none.mp hx with hnan | hnan <;> cases h.symm.trans hnan
  · rw [hx] at hswap
    cases hswap
  · rfl
  · rw [hx] at hswap
    cases hswap

theorem lt_iff (x y : Float) : x < y ↔ order? x y = some .lt := by
  change decide (x.toModel < y.toModel) = true ↔ _
  rw [decide_eq_true_iff]
  exact beq_iff_eq

theorem gt_iff (x y : Float) : y < x ↔ order? x y = some .gt := by
  rw [lt_iff, order?_swap]
  rcases order? x y with _ | (_ | _ | _) <;> decide

theorem le_iff (x y : Float) : x ≤ y ↔ order? x y = some .lt ∨ order? x y = some .eq := by
  change decide (x.toModel ≤ y.toModel) = true ↔ _
  rw [decide_eq_true_iff]
  change (order? x y).any (·.isLE) = true ↔ _
  rcases order? x y with _ | (_ | _ | _) <;> decide

theorem ge_iff (x y : Float) : y ≤ x ↔ order? x y = some .gt ∨ order? x y = some .eq := by
  rw [le_iff, order?_swap]
  rcases order? x y with _ | (_ | _ | _) <;> decide

theorem beq_iff : (x == y) = true ↔ order? x y = some .eq := by
  change (order? x y == some .eq) = true ↔ _
  exact beq_iff_eq

-- ---------------------------------------------------------------------------
-- Equality up to the tolerance
-- ---------------------------------------------------------------------------

theorem nearlyEqual_of_difference {d : UnpackedFloat}
    (h : UnpackedFloat.sub .binary64 x.toModel.unpack y.toModel.unpack = d) :
    nearlyEqual x y = decide ((Float.ofModel (.pack d)).abs < tolerance) := by
  subst h
  rfl

theorem nearlyEqual_of_beq (h : (x == y) = true) (hfinite : x.isInf = false) :
    nearlyEqual x y = true := by
  obtain ⟨s, hs⟩ := sub_of_compare (beq_iff.mp h) hfinite
  rw [nearlyEqual_of_difference hs]
  cases s <;> decide

theorem nearlyEqual_infinity (h : (x == y) = true) (hinf : x.isInf = true) :
    nearlyEqual x y = false := by
  rw [nearlyEqual_of_difference (sub_of_infinity (beq_iff.mp h) hinf)]
  decide

end HostScript.Numeral
