import HostScript.Proofs.Names.Functions
import Mathlib.Data.List.Nodup

/-!
# Registering functions

Functions are put into a table one after the other, up to the first whose key is taken. What is then
in the table is told by keys (`Functions.addAll_cases`), and keys of plain names tell what they
should: a public name, or a private one and its unit (`Functions.key_eq_iff`). So it does not matter
in which order functions are registered, neither for whether that succeeds nor for what is found
afterwards (`Functions.addAll_decides`).
-/

namespace HostScript

namespace Declaration

def key (f : Declaration) : String :=
  Functions.key f.pos.unit f.name

/-- Functions that cannot stand in one table: they share a public name, or a private name
and the unit. -/
def Clashes (f g : Declaration) : Prop :=
  f.name = g.name ∧ (f.isPrivate → f.pos.unit = g.pos.unit)

/-- Whether a name that is used in a unit is the name of a function and may be used there. -/
def Answers (f : Declaration) (unit name : String) : Prop :=
  f.name = name ∧ (f.isPrivate → f.pos.unit = unit)

instance (f g : Declaration) : Decidable (f.Clashes g) :=
  inferInstanceAs (Decidable (_ ∧ _))

def duplicates (f previous : Declaration) : Failure :=
  (Failure.of (.duplicateFunction f.isPrivate f.name previous.pos)).locate f.pos

end Declaration

namespace Functions

def add (f : Declaration) : ExceptT Failure (StateM Functions) Unit := fun table =>
  match table.register f with
  | .ok table' => (.ok (), table')
  | .error e => (.error e, table)

def addAll : List Declaration → ExceptT Failure (StateM Functions) Unit
  | [] => return ()
  | f :: rest => do
    add f
    addAll rest

-- ---------------------------------------------------------------------------
-- Keys
-- ---------------------------------------------------------------------------

theorem key_eq_iff {unit unit' name name' : String} (hname : IsPlainName name)
    (hname' : IsPlainName name') :
    key unit name = key unit' name' ↔ name = name' ∧ (isPrivateName name → unit = unit') := by
  constructor
  · intro h
    by_cases hp' : isPrivateName name'
    · obtain ⟨hunit, hsame⟩ := key_inj hname hname' hp' h
      exact ⟨hsame, fun _ => hunit⟩
    · by_cases hp : isPrivateName name
      · obtain ⟨hunit, hsame⟩ := key_inj hname' hname hp h.symm
        exact ⟨hsame.symm, fun _ => hunit.symm⟩
      · have hsame : name = name' := by simpa [key, hp, hp'] using h
        exact ⟨hsame, fun hprivate => absurd hprivate hp⟩
  · rintro ⟨rfl, hunit⟩
    by_cases hp : isPrivateName name
    · rw [hunit hp]
    · simp [key, hp]

theorem isPrivate_of_key {f : Declaration} {unit name : String} (hplain : IsPlainName f.name)
    (hname : ¬ IsPlainName name) (h : f.key = key unit name) : f.isPrivate := by
  by_contra hp
  have hown : f.key = f.name := if_neg hp
  have hmark : '!' ∈ (key unit name).toList := by
    by_cases hprivate : isPrivateName name
    · simp [key, hprivate]
    · simpa [key, hprivate, IsPlainName] using hname
  rw [← h, hown] at hmark
  exact hplain hmark

-- ---------------------------------------------------------------------------
-- What is in a table
-- ---------------------------------------------------------------------------

def Lists (table : Functions) (fs : List Declaration) : Prop :=
  table.entries = fs.map fun f => (f.key, f)

def Distinct (fs : List Declaration) : Prop :=
  (fs.map Declaration.key).Nodup

theorem lookup_find? (fs : List Declaration) (wanted : String) :
    (fs.map fun f => (f.key, f)).lookup wanted = fs.find? fun f => f.key == wanted := by
  induction fs with
  | nil => rfl
  | cons f rest ih =>
    by_cases hf : wanted = f.key
    · simp [hf]
    · simp [List.lookup_cons, beq_eq_false_iff_ne.mpr hf, Ne.symm hf, ih]

section

variable {table table' : Functions} {fs gs before after : List Declaration} {f g : Declaration}
  {unit name : String} {e : Failure}

theorem lookup?_listed (h : table.Lists fs) (unit name : String) :
    table.lookup? unit name = fs.find? fun f => f.key == key unit name := by
  rw [lookup?, Table.get?, h, lookup_find?]

theorem lookup?_distinct (h : table.Lists fs) (hd : Distinct fs) :
    table.lookup? unit name = some f ↔ f ∈ fs ∧ f.key = key unit name := by
  rw [lookup?_listed h]
  constructor
  · intro hf
    exact ⟨List.mem_of_find?_eq_some hf, by simpa using List.find?_some hf⟩
  · rintro ⟨hmem, hkey⟩
    obtain ⟨g, hg⟩ : ∃ g, fs.find? (fun f => f.key == key unit name) = some g :=
      Option.isSome_iff_exists.mp (List.find?_isSome.mpr ⟨f, hmem, by simp [hkey]⟩)
    have hgkey : g.key = key unit name := by simpa using List.find?_some hg
    -- Two functions of one key are one function.
    rw [hg, List.inj_on_of_nodup_map hd (List.mem_of_find?_eq_some hg) hmem (hgkey.trans hkey.symm)]

theorem add_free (h : table.Lists fs) (hfree : ∀ g ∈ fs, g.key ≠ f.key) :
    ∃ table', add f table = (.ok (), table') ∧ table'.Lists (fs ++ [f]) := by
  have hnone : table.lookup? f.pos.unit f.name = none := by
    rw [lookup?_listed h, List.find?_eq_none]
    exact fun g hg hsame => hfree g hg (beq_iff_eq.mp hsame)
  refine ⟨⟨table.entries ++ [(f.key, f)]⟩, ?_, ?_⟩
  · rw [add, register, hnone]
    rfl
  · rw [Lists, h, List.map_append]
    rfl

theorem add_taken (h : table.Lists fs) (htaken : ∃ g ∈ fs, g.key = f.key) :
    ∃ g ∈ fs, g.key = f.key ∧ add f table = (.error (f.duplicates g), table) := by
  obtain ⟨g, hg⟩ : ∃ g, fs.find? (fun g => g.key == f.key) = some g := by
    rw [← Option.isSome_iff_exists, List.find?_isSome]
    simpa using htaken
  refine ⟨g, List.mem_of_find?_eq_some hg, by simpa using List.find?_some hg, ?_⟩
  have hsome : table.lookup? f.pos.unit f.name = some g := (lookup?_listed h _ _).trans hg
  rw [add, register, hsome]
  rfl

-- ---------------------------------------------------------------------------
-- Functions in order
-- ---------------------------------------------------------------------------

theorem addAll_cons_ok (h : add f table = (.ok (), table')) :
    addAll (f :: fs) table = addAll fs table' := by
  simp only [addAll, bind, ExceptT.bind, ExceptT.mk, StateT.bind, h]
  rfl

theorem addAll_cons_error (h : add f table = (.error e, table')) :
    addAll (f :: fs) table = (.error e, table') := by
  simp only [addAll, bind, ExceptT.bind, ExceptT.mk, StateT.bind, h]
  rfl

/-- A function whose key an earlier one has stops the registration, and leaves the table of those
before it; if there is none, the table comes to hold them all. -/
theorem addAll_cases (h : table.Lists fs) (hd : Distinct fs) (gs : List Declaration) :
    (Distinct (fs ++ gs) ∧ ∃ table', addAll gs table = (.ok (), table') ∧
      table'.Lists (fs ++ gs)) ∨
      ∃ before f after g table', gs = before ++ f :: after ∧ g ∈ fs ++ before ∧
        g.key = f.key ∧
        addAll before table = (.ok (), table') ∧
        addAll gs table = (.error (f.duplicates g), table') := by
  induction gs generalizing fs table with
  | nil => exact .inl ⟨by simpa using hd, table, rfl, by simpa using h⟩
  | cons f gs ih =>
    by_cases htaken : ∃ g ∈ fs, g.key = f.key
    · obtain ⟨g, hg, hkey, hadd⟩ := add_taken h htaken
      exact .inr ⟨[], f, gs, g, table, rfl, by simpa using hg, hkey, rfl,
        addAll_cons_error hadd⟩
    · have hfree : ∀ g ∈ fs, g.key ≠ f.key := fun g hg hkey => htaken ⟨g, hg, hkey⟩
      obtain ⟨table₁, hadd, hlists⟩ := add_free h hfree
      have hd₁ : Distinct (fs ++ [f]) := by
        simpa [Distinct, List.nodup_append] using ⟨hd, hfree⟩
      rcases ih hlists hd₁ with ⟨hall, table', hrun, htable'⟩ | hstop
      · exact .inl ⟨by simpa using hall, table', (addAll_cons_ok hadd).trans hrun,
          by simpa using htable'⟩
      · obtain ⟨before, f', after, g, table', rfl, hg, hkey, hbefore, hrun⟩ := hstop
        exact .inr ⟨f :: before, f', after, g, table', rfl, by simpa using hg, hkey,
          (addAll_cons_ok hadd).trans hbefore, (addAll_cons_ok hadd).trans hrun⟩

theorem empty_lists : empty.Lists [] := rfl

theorem addAll_ok_iff : (addAll fs empty).1 = .ok () ↔ Distinct fs := by
  rcases addAll_cases empty_lists List.nodup_nil fs with ⟨hd, table, hrun, -⟩ | hstop
  · simpa [hrun] using hd
  · obtain ⟨before, f, after, g, table, rfl, hg, hkey, -, hrun⟩ := hstop
    have hno : ¬ Distinct (before ++ f :: after) := by
      intro hd
      have hne := (List.nodup_append.mp (by simpa [Distinct] using hd)).2.2
      exact hne g.key (List.mem_map_of_mem hg) f.key List.mem_cons_self hkey
    simpa [hrun] using hno

theorem lookup?_addAll (h : (addAll fs empty).1 = .ok ()) :
    (addAll fs empty).2.lookup? unit name = some f ↔ f ∈ fs ∧ f.key = key unit name := by
  rcases addAll_cases empty_lists List.nodup_nil fs with ⟨hd, table, hrun, hlists⟩ | hstop
  · rw [hrun]
    exact lookup?_distinct hlists hd
  · obtain ⟨before, f, after, g, table, rfl, hg, hkey, -, hrun⟩ := hstop
    rw [hrun] at h
    cases h

theorem load_eq_addAll (hplaced : ∀ f ∈ fs, f.checkPlacement = .ok ()) (table : Functions) :
    table.load fs = (addAll fs table).1.map fun _ => (addAll fs table).2 := by
  induction fs generalizing table with
  | nil => rfl
  | cons f fs ih =>
    have hrest := ih fun g hg => hplaced g (List.mem_cons_of_mem f hg)
    have hstep : table.load (f :: fs) = table.register f >>= fun table' => table'.load fs := by
      rw [load, hplaced f List.mem_cons_self]
      rfl
    rw [hstep]
    cases hr : table.register f with
    | error e =>
      have hadd : add f table = (.error e, table) := by rw [add, hr]
      rw [addAll_cons_error hadd]
      rfl
    | ok table' =>
      have hadd : add f table = (.ok (), table') := by rw [add, hr]
      rw [addAll_cons_ok hadd]
      exact hrest table'

end

-- ---------------------------------------------------------------------------
-- Plain names
-- ---------------------------------------------------------------------------

theorem key_eq_iff_clashes {f g : Declaration} (hf : IsPlainName f.name) (hg : IsPlainName g.name) :
    f.key = g.key ↔ f.Clashes g :=
  key_eq_iff hf hg

theorem distinct_iff {fs : List Declaration} (hplain : ∀ f ∈ fs, IsPlainName f.name) :
    Distinct fs ↔ fs.Pairwise fun f g => ¬ f.Clashes g := by
  rw [Distinct, List.Nodup, List.pairwise_map]
  exact List.Pairwise.iff_of_mem fun hf hg =>
    not_congr (key_eq_iff_clashes (hplain _ hf) (hplain _ hg))

/-- Functions of plain names can be registered, in whatever order, exactly if no two of them share a
public name or a private name and the unit. If they can, a plain name that is used in a unit finds
the function that it names there, if there is one; a name that is not plain finds no public
function, and a private one only by being its key. If they cannot, the failure tells where the
earlier one of two stands, and the table is the one that the functions before the later one make. -/
theorem addAll_decides (fs : List Declaration) (hplain : ∀ f ∈ fs, IsPlainName f.name) :
    let outcome := (addAll fs empty).1
    let table := (addAll fs empty).2
    (outcome = .ok () ↔ fs.Pairwise fun f g => ¬ f.Clashes g) ∧
      (∀ e, outcome = .error e → ∃ before f after g, fs = before ++ f :: after ∧
        g ∈ before ∧
        g.Clashes f ∧ e = f.duplicates g ∧ addAll before empty = (.ok (), table)) ∧
      (outcome = .ok () → ∀ unit name f,
        (IsPlainName name →
          (table.lookup? unit name = some f ↔ f ∈ fs ∧ f.Answers unit name)) ∧
        (¬ IsPlainName name →
          (table.lookup? unit name = some f ↔ f ∈ fs ∧ f.isPrivate ∧
            f.key = key unit name))) ∧
      (∀ gs, fs.Perm gs → ((addAll gs empty).1 = .ok () ↔ outcome = .ok ()) ∧
        (outcome = .ok () → ∀ unit name,
          (addAll gs empty).2.lookup? unit name = table.lookup? unit name)) ∧
      ((∀ f ∈ fs, f.checkPlacement = .ok ()) →
        empty.load fs = outcome.map fun _ => table) := by
  intro outcome table
  refine ⟨addAll_ok_iff.trans (distinct_iff hplain), ?_, ?_, ?_,
    fun hplaced => load_eq_addAll hplaced _⟩
  · intro e he
    rcases addAll_cases empty_lists List.nodup_nil fs with ⟨-, table, hrun, -⟩ | hstop
    · cases (congrArg Prod.fst hrun).symm.trans he
    · obtain ⟨before, f, after, g, table', rfl, hg, hkey, hbefore, hrun⟩ := hstop
      cases (congrArg Prod.fst hrun).symm.trans he
      obtain rfl : table = table' := congrArg Prod.snd hrun
      have hgplain := hplain g (List.mem_append_left _ hg)
      have hfplain := hplain f (List.mem_append_right _ List.mem_cons_self)
      exact ⟨before, f, after, g, rfl, hg,
        (key_eq_iff_clashes hgplain hfplain).mp hkey, rfl, hbefore⟩
  · intro hok unit name f
    rw [lookup?_addAll hok]
    constructor
    · intro hname
      exact and_congr_right fun hf => key_eq_iff (hplain f hf) hname
    · intro hname
      refine and_congr_right fun hf => ⟨fun hkey => ⟨?_, hkey⟩, And.right⟩
      exact isPrivate_of_key (hplain f hf) hname hkey
  · intro gs hperm
    have hsame : (addAll gs empty).1 = .ok () ↔ (addAll fs empty).1 = .ok () := by
      rw [addAll_ok_iff, addAll_ok_iff]
      exact ((hperm.map Declaration.key).nodup_iff).symm
    refine ⟨hsame, fun hok unit name => Option.ext fun f => ?_⟩
    rw [lookup?_addAll hok, lookup?_addAll (hsame.mpr hok), hperm.mem_iff]

def helpers : List Declaration :=
  [⟨"_helper", [], [], ⟨"a", 1, 1⟩⟩, ⟨"_helper", [], [], ⟨"b", 1, 1⟩⟩,
    ⟨"main", [], [], ⟨"b", 5, 1⟩⟩]

/-- They can be registered, and from each unit its own is found. -/
theorem helpers_found : (addAll helpers empty).1 = .ok () ∧
    ((addAll helpers empty).2.lookup? "b" "_helper").map (·.pos) = some ⟨"b", 1, 1⟩ := by
  obtain ⟨hok, -, hfound, -⟩ := addAll_decides helpers (by decide)
  have hall : (addAll helpers empty).1 = .ok () := hok.mpr (by decide)
  refine ⟨hall, ?_⟩
  have hb : (addAll helpers empty).2.lookup? "b" "_helper" =
      some ⟨"_helper", [], [], ⟨"b", 1, 1⟩⟩ :=
    ((hfound hall "b" "_helper" _).1 (by decide)).mpr ⟨by simp [helpers], rfl, fun _ => rfl⟩
  rw [hb]
  rfl

/-- A name that spells the key of a private function finds it from another unit, although it is the
name of no function. -/
theorem spelled_key_found : (∀ f ∈ helpers, IsPlainName f.name) ∧
    (addAll helpers empty).1 = .ok () ∧ (∀ f ∈ helpers, f.name ≠ "!a!_helper") ∧
    ((addAll helpers empty).2.lookup? "b" "!a!_helper").map (·.pos) = some ⟨"a", 1, 1⟩ := by
  refine ⟨by decide, ?_, by decide, ?_⟩ <;> rfl

end Functions

end HostScript
