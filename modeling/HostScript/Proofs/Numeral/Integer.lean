import HostScript.Numeral.Integer
import Mathlib.Algebra.Group.Int.Defs

/-!
# Integers and their text

Which texts write an integer, and which integer each of them writes (`Spells`). The reader takes
exactly these (`int?_eq_some`), within the range of 64 bits (`int64?_eq_some`); what is printed of
an integer is one of the texts that write it (`spells_intText`), so that it is read as that integer.
-/

namespace HostScript.Numeral

/-- One or more ASCII digits, and the number that they count to. -/
def Counts (digits : List Char) (n : Nat) : Prop :=
  digits ≠ [] ∧ (∀ c ∈ digits, c.isDigit) ∧ Nat.ofDigitChars 10 digits 0 = n

/-- The text of an integer: digits after at most one sign. -/
inductive Spells : List Char → Int → Prop
  | plain {digits : List Char} {n : Nat} : Counts digits n → Spells digits n
  | plus {digits : List Char} {n : Nat} : Counts digits n → Spells ('+' :: digits) n
  | minus {digits : List Char} {n : Nat} : Counts digits n → Spells ('-' :: digits) (-n)

-- ---------------------------------------------------------------------------
-- Reading
-- ---------------------------------------------------------------------------

theorem foldlM_digits (cs : List Char) (count : Nat) :
    cs.foldlM (fun n c => (digit? c).map (10 * n + ·)) count =
      if cs.all Char.isDigit then some (Nat.ofDigitChars 10 cs count) else none := by
  induction cs generalizing count with
  | nil => simp
  | cons c cs ih =>
    rw [List.foldlM_cons]
    by_cases hc : c.isDigit
    · have hdigit : digit? c = some (c.toNat - '0'.toNat) := if_pos hc
      rw [hdigit, Nat.ofDigitChars_cons]
      simpa [hc] using ih _
    · have hdigit : digit? c = none := if_neg hc
      simp [hdigit, hc]

theorem nat?_eq_some {cs : List Char} {n : Nat} : nat? cs = some n ↔ Counts cs n := by
  cases cs with
  | nil => simp [nat?, Counts]
  | cons c cs =>
    rw [nat?, foldlM_digits, Option.ite_none_right_eq_some, Option.some.injEq, List.all_eq_true]
    · simp only [Counts, ne_eq, reduceCtorEq, not_false_eq_true, true_and]
    · simp

theorem Counts.head_isDigit {c : Char} {digits : List Char} {n : Nat} (h : Counts (c :: digits) n) :
    c.isDigit :=
  h.2.1 c List.mem_cons_self

theorem int?_eq_some {cs : List Char} {i : Int} : int? cs = some i ↔ Spells cs i := by
  have hsome {cs : List Char} {i : Int} {sign : Int → Int} :
      Option.map sign (do let n ← nat? cs; pure (n : Int)) = some i ↔
        ∃ n, Counts cs n ∧ sign n = i := by
    simp [Option.bind_eq_some_iff, nat?_eq_some]
  constructor
  · intro h
    unfold int? at h
    split at h <;> obtain ⟨n, hn, rfl⟩ := hsome.mp h
    · exact .plus hn
    · exact .minus hn
    · exact .plain hn
  · rintro (hn | hn | hn)
    · unfold int?
      -- A sign is no digit.
      split
      · exact absurd hn.head_isDigit (by decide)
      · exact absurd hn.head_isDigit (by decide)
      · exact hsome.mpr ⟨_, hn, rfl⟩
    · exact hsome.mpr ⟨_, hn, rfl⟩
    · exact hsome.mpr ⟨_, hn, rfl⟩

theorem Spells.unique {cs : List Char} {i j : Int} (hi : Spells cs i) (hj : Spells cs j) : i = j :=
  Option.some.inj ((int?_eq_some.mpr hi).symm.trans (int?_eq_some.mpr hj))

theorem fitsInt64_iff {i : Int} : fitsInt64 i ↔ -2 ^ 63 ≤ i ∧ i < 2 ^ 63 := by
  simp only [fitsInt64, decide_eq_true_eq]
  change -9223372036854775808 ≤ i ∧ i ≤ 9223372036854775807 ↔ _
  omega

theorem int64?_eq_some {s : String} {n : Int64} :
    int64? s = some n ↔ ∃ i, Spells s.toList i ∧ -2 ^ 63 ≤ i ∧ i < 2 ^ 63 ∧
      n.toInt = i := by
  simp only [int64?, Option.map_eq_some_iff, Option.filter_eq_some_iff, int?_eq_some, fitsInt64_iff]
  constructor
  · rintro ⟨i, ⟨hi, hmin, hmax⟩, rfl⟩
    exact ⟨i, hi, hmin, hmax, Int64.toInt_ofInt_of_le hmin hmax⟩
  · rintro ⟨i, hi, hmin, hmax, rfl⟩
    exact ⟨n.toInt, ⟨hi, hmin, hmax⟩, Int64.ofInt_toInt n⟩

-- ---------------------------------------------------------------------------
-- Printing
-- ---------------------------------------------------------------------------

theorem intText_eq_toString (i : Int) : intText i = toString i := by
  cases i <;> rfl

theorem counts_natText (n : Nat) : Counts (natText n).toList n := by
  rw [natText, String.toList_ofList]
  refine ⟨Nat.toDigits_ne_nil, ?_, Nat.ofDigitChars_toDigits (by decide) (by decide)⟩
  intro c hc
  exact Nat.isDigit_of_mem_toDigits (by decide) (by decide) hc

theorem natText_injective : Function.Injective natText := by
  intro m n h
  rw [← (counts_natText m).2.2, h, (counts_natText n).2.2]

theorem spells_intText (i : Int) : Spells (intText i).toList i := by
  cases i with
  | ofNat n => exact .plain (counts_natText n)
  | negSucc n =>
    have htext : (intText (.negSucc n)).toList = '-' :: (natText (n + 1)).toList := by
      simp [intText]
    rw [htext]
    exact .minus (counts_natText (n + 1))

theorem intText_injective : Function.Injective intText := by
  intro i j h
  exact (spells_intText i).unique (h ▸ spells_intText j)

theorem int64?_intText (n : Int64) : int64? (intText n.toInt) = some n :=
  int64?_eq_some.mpr ⟨n.toInt, spells_intText n.toInt, n.le_toInt, n.toInt_lt, rfl⟩

end HostScript.Numeral
