import HostScript.Failure.Basic
import HostScript.Proofs.Numeral.Integer
import HostScript.Proofs.Text.Separators

/-!
# Positions and their text

The text of a position is read from its end. A number has no colon in it, so the column stands
behind the last colon and the line behind the one before it (`append_number_inj`); all else is the
unit, whatever colons and digits it has. So positions are told apart by their texts, and by the
failures that name them (`positions_told_apart`).
-/

namespace HostScript

open Numeral

theorem colon_not_mem_natText (n : Nat) : ':' ∉ (natText n).toList := by
  intro h
  have hdigit : ':'.isDigit := (counts_natText n).2.1 ':' h
  exact absurd hdigit (by decide)

/-- A number behind a colon can be told, and so can all that stands before the colon. -/
theorem append_number_inj {before before' : String} {n n' : Nat} :
    before ++ ":" ++ natText n = before' ++ ":" ++ natText n' ↔ before = before' ∧ n = n' := by
  constructor
  · intro h
    have hletters : before.toList ++ ':' :: (natText n).toList =
        before'.toList ++ ':' :: (natText n').toList := by
      simpa using congrArg String.toList h
    obtain ⟨hbefore, hnumber⟩ :=
      append_separator_inj (colon_not_mem_natText n) (colon_not_mem_natText n') hletters
    exact ⟨String.toList_injective hbefore, natText_injective (String.toList_injective hnumber)⟩
  · rintro ⟨rfl, rfl⟩
    rfl

theorem Position.text_injective : Function.Injective Position.text := by
  intro p q h
  obtain ⟨hbefore, hcolumn⟩ := append_number_inj.mp h
  obtain ⟨hunit, hline⟩ := append_number_inj.mp hbefore
  cases p
  cases q
  simp_all

-- ---------------------------------------------------------------------------
-- Failures that name a position
-- ---------------------------------------------------------------------------

theorem Cause.duplicateFunction_message_inj {isPrivate : Bool} {name : String} {p q : Position} :
    (duplicateFunction isPrivate name p).message = (duplicateFunction isPrivate name q).message ↔
      p = q :=
  (String.append_right_inj _).trans Position.text_injective.eq_iff

theorem Failure.text_locate_inj {cause : Cause} {p q : Position} :
    ((of cause).locate p).text = ((of cause).locate q).text ↔ p = q := by
  have htext (p : Position) : ((of cause).locate p).text = p.text ++ (": " ++ cause.message) := by
    simp [of, locate, text, message, String.append_assoc]
  rw [htext, htext, String.append_left_inj, Position.text_injective.eq_iff]

/-- Two positions have one text only if they are one position, whatever their units are called. A
report that a function is there already therefore tells where the earlier one stands, and a failure
where it arose. -/
theorem positions_told_apart (p q : Position) :
    (p.text = q.text ↔ p = q) ∧
    (∀ isPrivate name, (Cause.duplicateFunction isPrivate name p).message =
      (Cause.duplicateFunction isPrivate name q).message ↔ p = q) ∧
    ∀ cause, ((Failure.of cause).locate p).text = ((Failure.of cause).locate q).text ↔ p = q :=
  ⟨Position.text_injective.eq_iff, fun _ _ => Cause.duplicateFunction_message_inj,
    fun _ => Failure.text_locate_inj⟩

-- Only failures of one cause are told apart like that: the words of a host can begin as a position
-- does.
example : ((Failure.of (.custom "b:2:3: lost")).locate ⟨"a", 1, 1⟩).text =
    ((Failure.of (.custom "lost")).locate ⟨"a:1:1: b", 2, 3⟩).text := by
  decide

end HostScript
