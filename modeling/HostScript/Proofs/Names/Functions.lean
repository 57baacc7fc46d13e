import HostScript.Exec.Session
import HostScript.Proofs.Text.Separators

/-!
# What is in a table of functions

A private function stands under a key that tells its unit and its name apart from all others, as
long as names are plain, whatever units are called (`Functions.key_inj`). What a session finds by a
name and a unit is one of the functions that it was set up from, and stands under its own key
(`Functions.Holds`).
-/

namespace HostScript

def IsPlainName (name : String) : Prop :=
  '!' ∉ name.toList

instance : DecidablePred IsPlainName :=
  fun name => inferInstanceAs (Decidable ('!' ∉ name.toList))

namespace Functions

/-- No other plain name finds what stands under the key of a private function, and none does from
another unit. -/
theorem key_inj {unit unit' name name' : String} (hname : IsPlainName name)
    (hname' : IsPlainName name') (hprivate : isPrivateName name')
    (h : key unit name = key unit' name') :
    unit = unit' ∧ name = name' := by
  have hkey' : (key unit' name').toList = '!' :: (unit'.toList ++ '!' :: name'.toList) := by
    simp [key, hprivate]
  by_cases hp : isPrivateName name
  · have hkey : (key unit name).toList = '!' :: (unit.toList ++ '!' :: name.toList) := by
      simp [key, hp]
    have hsame : unit.toList ++ '!' :: name.toList = unit'.toList ++ '!' :: name'.toList :=
      List.tail_eq_of_cons_eq (hkey.symm.trans ((congrArg String.toList h).trans hkey'))
    obtain ⟨hunit, hname⟩ := append_separator_inj hname hname' hsame
    exact ⟨String.toList_injective hunit, String.toList_injective hname⟩
  · -- A name that is looked up as it is would have to contain the mark.
    have hkey : key unit name = name := by simp [key, hp]
    have hmark : '!' ∈ name.toList := by
      rw [← hkey, h, hkey']
      exact List.mem_cons_self
    exact absurd hmark hname

def Holds (Q : Declaration → Prop) (table : Functions) : Prop :=
  ∀ entry ∈ table.entries, entry.1 = key entry.2.pos.unit entry.2.name ∧ Q entry.2

namespace Holds

variable {Q : Declaration → Prop} {table table' : Functions}

theorem empty : empty.Holds Q := nofun

theorem register {f : Declaration} (h : table.Holds Q) (hf : Q f)
    (hr : table.register f = .ok table') : table'.Holds Q := by
  unfold Functions.register at hr
  split at hr
  · cases hr
  · cases hr
    intro entry hentry
    rcases List.mem_append.mp hentry with hentry | hentry
    · exact h entry hentry
    · cases List.mem_singleton.mp hentry
      exact ⟨rfl, hf⟩

theorem load {fs : List Declaration} (h : table.Holds Q)
    (hfs : ∀ f ∈ fs, f.checkPlacement = .ok () → Q f) (hl : table.load fs = .ok table') :
    table'.Holds Q := by
  induction fs generalizing table with
  | nil =>
    cases hl
    exact h
  | cons f fs ih =>
    unfold Functions.load at hl
    cases hc : f.checkPlacement with
    | error e =>
      rw [hc] at hl
      cases hl
    | ok =>
      rw [hc] at hl
      cases hr : table.register f with
      | error e =>
        rw [hr] at hl
        cases hl
      | ok next =>
        rw [hr] at hl
        have hnext := h.register (hfs f List.mem_cons_self hc) hr
        exact ih hnext (fun g hg => hfs g (List.mem_cons_of_mem _ hg)) hl

theorem lookup {unit name : String} {f : Declaration} (h : table.Holds Q)
    (hf : table.lookup? unit name = some f) : key unit name = key f.pos.unit f.name ∧ Q f := by
  obtain ⟨before, after, hentries, -⟩ := List.lookup_eq_some_iff.mp hf
  have hmem : (key unit name, f) ∈ table.entries := by
    rw [hentries]
    exact List.mem_append_right _ List.mem_cons_self
  exact h _ hmem

end Holds

end Functions

theorem Session.build_holds {P : Platform} {host : Host P} {setup : Setup P} {world : World P}
    {s : Session P} {Q : Declaration → Prop} (h : Session.build host setup world = .ok s)
    (hQ : ∀ script ∈ setup.scripts, ∀ f ∈ script.functions,
      f.checkPlacement = .ok () → Q f) :
    s.program.functions.Holds Q := by
  unfold Session.build at h
  cases hl : Functions.empty.load (setup.scripts.flatMap Script.functions) with
  | error e =>
    rw [hl] at h
    cases h
  | ok functions =>
    rw [hl] at h
    cases h
    refine Functions.Holds.empty.load (fun f hf => ?_) hl
    obtain ⟨script, hscript, hf⟩ := List.mem_flatMap.mp hf
    exact hQ script hscript f hf

end HostScript
