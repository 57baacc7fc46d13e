import Mathlib.Data.List.Infix

/-!
# The last separator

Parts of a text that are joined by a separator are found again from the end: behind the last
separator there is none, and only one place of a text is like that (`append_separator_inj`). A text
with a separator in it has that place (`exists_last_separator`).
-/

namespace HostScript

variable {α : Type} {mark : α}

/-- What stands behind the last separator, and so what stands before it, can be told. -/
theorem append_separator_inj {before before' behind behind' : List α} (hbehind : mark ∉ behind)
    (hbehind' : mark ∉ behind') (h : before ++ mark :: behind = before' ++ mark :: behind') :
    before = before' ∧ behind = behind' := by
  rcases List.append_eq_append_iff.mp h with ⟨between, rfl, hrest⟩ | ⟨between, rfl, hrest⟩
  · rcases List.cons_eq_append_iff.mp hrest with ⟨rfl, hrest⟩ | ⟨between, rfl, rfl⟩
    · simp_all
    · simp at hbehind
  · rcases List.cons_eq_append_iff.mp hrest with ⟨rfl, hrest⟩ | ⟨between, rfl, rfl⟩
    · simp_all
    · simp at hbehind'

theorem exists_last_separator {letters : List α} (h : mark ∈ letters) :
    ∃ before behind, letters = before ++ mark :: behind ∧ mark ∉ behind := by
  obtain ⟨behind, before, hsplit, hbehind⟩ :=
    List.eq_append_cons_of_mem (List.mem_reverse.mpr h)
  refine ⟨before.reverse, behind.reverse, ?_, by simpa using hbehind⟩
  simpa using congrArg List.reverse hsplit

end HostScript
