import HostScript.Object.Signature
import HostScript.Proofs.Operator.Unification

/-!
# Signatures

What a signature admits, and what binding makes of arguments. If there are as many arguments as are
declared, each is turned into the kind declared for it, or the first that cannot be is to blame.
What is bound is admitted, and binding it again leaves it as it is (`bind_decides`).
-/

namespace HostScript

-- ---------------------------------------------------------------------------
-- Values of a kind
-- ---------------------------------------------------------------------------

theorem Value.hasKind_iff {v : Value} {kind : Kind} :
    v.hasKind kind ↔ kind = .any ∨ v.kind? = some kind := by
  cases kind <;> cases v <;> simp [Value.hasKind, Value.kind?]

namespace View

variable {view : View} {v w : Value} {kind : Kind} {index : Nat} {e : Failure}

theorem cast_of_ne_any (h : kind ≠ .any) :
    view.cast v kind index =
      ((view.scalar v).toKind? kind).elim (.error (.of (.cast index (view.text v) kind))) .ok := by
  cases kind with
  | any => exact absurd rfl h
  | _ => rfl

theorem cast_eq_ok :
    view.cast v kind index = .ok w ↔
      (kind = .any ∧ w = v) ∨ (kind ≠ .any ∧ (view.scalar v).toKind? kind = some w) := by
  by_cases hany : kind = .any
  · simp [hany, cast, eq_comm]
  · cases h : (view.scalar v).toKind? kind <;> simp [cast_of_ne_any hany, hany, h]

theorem cast_eq_error (h : view.cast v kind index = .error e) :
    e = .of (.cast index (view.text v) kind) := by
  by_cases hany : kind = .any
  · simp [hany, cast] at h
  · cases hk : (view.scalar v).toKind? kind <;> simp_all [cast_of_ne_any hany]

theorem cast_hasKind (h : view.cast v kind index = .ok w) : w.hasKind kind := by
  rw [Value.hasKind_iff]
  obtain ⟨hany, -⟩ | ⟨hany, hkind⟩ := cast_eq_ok.mp h
  · exact .inl hany
  · exact .inr (Value.kind?_of_toKind? hany hkind)

theorem cast_self (h : v.hasKind kind) : view.cast v kind index = .ok v := by
  rw [cast_eq_ok]
  by_cases hany : kind = .any
  · exact .inl ⟨hany, rfl⟩
  · have hkind : v.kind? = some kind := (Value.hasKind_iff.mp h).resolve_left hany
    exact .inr ⟨hany, by rw [view.scalar_of_kind? hkind, Value.toKind?_self hkind]⟩

end View

namespace Signature

variable {s : Signature} {view : View} {args bound : List Value} {index i : Nat} {v : Value}
  {kind : Kind} {e : Failure}

-- ---------------------------------------------------------------------------
-- What is declared
-- ---------------------------------------------------------------------------

structure Fits (s : Signature) (count : Nat) : Prop where
  enough : s.params.length ≤ count
  exact : s.rest = none → count = s.params.length

/-- The kind is declared for the argument at an index, as that of the parameter there or as that of
all further arguments. -/
inductive Declares (s : Signature) (i : Nat) (kind : Kind) : Prop
  | param (h : s.params[i]? = some kind)
  | rest (hi : s.params.length ≤ i) (h : s.rest = some kind)

theorem takes_iff (count : Nat) : s.takes count ↔ s.Fits count := by
  unfold takes
  constructor
  · intro h
    cases hrest : s.rest with
    | none =>
      have hlength : s.params.length = count := by simpa [hrest] using h
      exact ⟨Nat.le_of_eq hlength, fun _ => hlength.symm⟩
    | some kind => exact ⟨by simpa [hrest] using h, by simp [hrest]⟩
  · rintro ⟨henough, hexact⟩
    cases hrest : s.rest with
    | none => simpa using (hexact hrest).symm
    | some kind => simpa using henough

theorem Fits.declares {count : Nat} (h : s.Fits count) (hi : i < count) :
    s.Declares i kind ↔ s.kindAt i = kind := by
  unfold kindAt
  by_cases hlt : i < s.params.length
  · simp only [List.getElem?_eq_getElem hlt, Option.some_or, Option.getD_some]
    constructor
    · rintro (hparam | ⟨hle, -⟩)
      · simpa [hlt] using hparam
      · omega
    · rintro rfl
      exact .param (List.getElem?_eq_getElem hlt)
  · have hle : s.params.length ≤ i := Nat.le_of_not_lt hlt
    cases hrest : s.rest with
    | none =>
      have := h.exact hrest
      omega
    | some further =>
      simp only [List.getElem?_eq_none hle, Option.none_or, Option.getD_some]
      constructor
      · rintro (hparam | ⟨-, hfurther⟩)
        · simp [List.getElem?_eq_none hle] at hparam
        · simpa [hrest] using hfurther
      · rintro rfl
        exact .rest hle hrest

/-- Arguments as a signature declares them: one for each parameter, more of them only if there may
be more, and each of the kind that is declared for it. -/
structure Admits (s : Signature) (args : List Value) : Prop where
  enough : s.params.length ≤ args.length
  exact : s.rest = none → args.length = s.params.length
  params :
    ∀ (i : Nat) (kind : Kind) (v : Value), s.params[i]? = some kind → args[i]? = some v →
    v.hasKind kind
  rest : ∀ (i : Nat) (kind : Kind) (v : Value), s.params.length ≤ i → s.rest = some kind →
    args[i]? = some v → v.hasKind kind

theorem Admits.fits (h : s.Admits args) : s.Fits args.length :=
  ⟨h.enough, h.exact⟩

theorem admits_iff : s.Admits args ↔
    s.Fits args.length ∧
      ∀ (i : Nat) (v : Value), args[i]? = some v → v.hasKind (s.kindAt i) := by
  constructor
  · intro h
    refine ⟨h.fits, fun i v hv => ?_⟩
    obtain ⟨hi, -⟩ := List.getElem?_eq_some_iff.mp hv
    obtain hparam | ⟨hle, hrest⟩ := (h.fits.declares hi).mpr rfl
    · exact h.params i _ v hparam hv
    · exact h.rest i _ v hle hrest hv
  · rintro ⟨hfits, hkinds⟩
    have hof {i : Nat} {v : Value} {kind : Kind} (hd : s.Declares i kind) (hv : args[i]? = some v) :
        v.hasKind kind := by
      obtain ⟨hi, -⟩ := List.getElem?_eq_some_iff.mp hv
      rw [← (hfits.declares hi).mp hd]
      exact hkinds i v hv
    exact ⟨hfits.enough, hfits.exact, fun i kind v hk => hof (.param hk),
      fun i kind v hi hk => hof (.rest hi hk)⟩

-- ---------------------------------------------------------------------------
-- Binding
-- ---------------------------------------------------------------------------

theorem castFrom_cons_ok :
    s.castFrom view index (v :: args) = .ok bound ↔
      ∃ w rest, view.cast v (s.kindAt index) index = .ok w ∧
        s.castFrom view (index + 1) args = .ok rest ∧ bound = w :: rest := by
  rw [castFrom]
  cases view.cast v (s.kindAt index) index with
  | error e => simp
  | ok w => cases s.castFrom view (index + 1) args <;> simp [Except.map, eq_comm]

theorem castFrom_eq_ok :
    s.castFrom view index args = .ok bound ↔
      bound.length = args.length ∧ ∀ i v, args[i]? = some v →
        ∃ w, bound[i]? = some w ∧ view.cast v (s.kindAt (index + i)) (index + i) = .ok w := by
  induction args generalizing index bound with
  | nil => simp [castFrom, eq_comm]
  | cons arg args ih =>
    simp only [castFrom_cons_ok, ih]
    constructor
    · rintro ⟨w, rest, hw, ⟨hlength, hrest⟩, rfl⟩
      refine ⟨by simp [hlength], fun i v hv => ?_⟩
      cases i with
      | zero => simp_all
      | succ i => simpa [Nat.add_assoc, Nat.add_comm 1] using hrest i v (by simpa using hv)
    · rintro ⟨hlength, hcasts⟩
      cases bound with
      | nil => simp at hlength
      | cons w rest =>
        refine ⟨w, rest, by simpa using hcasts 0 arg,
          ⟨by simpa using hlength, fun i v hv => ?_⟩, rfl⟩
        simpa [Nat.add_assoc, Nat.add_comm 1] using hcasts (i + 1) v (by simpa using hv)

theorem castFrom_eq_error {blamed : Option Nat}
    (h : s.castFrom view index args = .error (blamed, e)) :
    ∃ i v, blamed = some (index + i) ∧ args[i]? = some v ∧
      view.cast v (s.kindAt (index + i)) (index + i) = .error e ∧
      ∀ j < i, ∀ v, args[j]? = some v →
        ∃ w, view.cast v (s.kindAt (index + j)) (index + j) = .ok w := by
  induction args generalizing index with
  | nil => simp [castFrom] at h
  | cons arg args ih =>
    rw [castFrom] at h
    cases hcast : view.cast arg (s.kindAt index) index with
    | error e' =>
      simp only [hcast, Except.error.injEq, Prod.mk.injEq] at h
      obtain ⟨rfl, rfl⟩ := h
      exact ⟨0, arg, rfl, rfl, hcast, by simp⟩
    | ok w =>
      have hrest : s.castFrom view (index + 1) args = .error (blamed, e) := by
        cases hrest : s.castFrom view (index + 1) args <;> simp_all [Except.map]
      -- The further arguments begin one index later.
      obtain ⟨i, v, hblamed, hv, hfails, hbefore⟩ := ih hrest
      have hshift (j : Nat) : index + 1 + j = index + (j + 1) := by omega
      simp only [hshift] at hblamed hfails hbefore
      refine ⟨i + 1, v, hblamed, hv, hfails, fun j hj u hu => ?_⟩
      cases j with
      | zero =>
        cases hu
        exact ⟨w, hcast⟩
      | succ j => exact hbefore j (Nat.lt_of_succ_lt_succ hj) u hu

theorem bind_of_fits (h : s.Fits args.length) : s.bind view args = s.castFrom view 0 args :=
  if_pos ((takes_iff _).mpr h)

theorem bind_of_not_fits (h : ¬ s.Fits args.length) :
    s.bind view args = .error (none, .of (.parameterMismatch s.params.length args.length)) :=
  if_neg fun htakes => h ((takes_iff _).mp htakes)

theorem bind_plain {blamed : Option Nat} (h : s.bind view args = .error (blamed, e)) : e.Plain := by
  by_cases hfits : s.Fits args.length
  · rw [bind_of_fits hfits] at h
    obtain ⟨i, v, -, -, hcast, -⟩ := castFrom_eq_error h
    rw [View.cast_eq_error hcast]
    exact .of fun h => h
  · rw [bind_of_not_fits hfits] at h
    cases h
    exact .of fun h => h

theorem bind_eq_ok :
    s.bind view args = .ok bound ↔
      s.Fits args.length ∧ bound.length = args.length ∧ ∀ i v, args[i]? = some v →
        ∃ w, bound[i]? = some w ∧ view.cast v (s.kindAt i) i = .ok w := by
  by_cases hfits : s.Fits args.length
  · simp [bind_of_fits hfits, castFrom_eq_ok, hfits]
  · simp [bind_of_not_fits hfits, hfits]

theorem bind_admits (h : s.bind view args = .ok bound) : s.Admits bound := by
  obtain ⟨hfits, hlength, hcasts⟩ := bind_eq_ok.mp h
  refine admits_iff.mpr ⟨hlength ▸ hfits, fun i w hw => ?_⟩
  obtain ⟨hi, -⟩ := List.getElem?_eq_some_iff.mp hw
  obtain ⟨w', hw', hcast⟩ := hcasts i _ (List.getElem?_eq_getElem (hlength ▸ hi))
  cases hw.symm.trans hw'
  exact View.cast_hasKind hcast

theorem bind_of_admits (h : s.Admits args) : s.bind view args = .ok args := by
  obtain ⟨hfits, hkinds⟩ := admits_iff.mp h
  exact bind_eq_ok.mpr ⟨hfits, rfl, fun i v hv => ⟨v, hv, View.cast_self (hkinds i v hv)⟩⟩

def Misfits (s : Signature) (view : View) (args : List Value) (i : Nat) : Prop :=
  ∃ v kind e, args[i]? = some v ∧ s.Declares i kind ∧ view.cast v kind i = .error e

theorem Misfits.cast (h : s.Misfits view args i) (hfits : s.Fits args.length)
    (hv : args[i]? = some v) : ∃ e, view.cast v (s.kindAt i) i = .error e := by
  obtain ⟨v', kind, e, hv', hkind, hcast⟩ := h
  obtain ⟨hi, -⟩ := List.getElem?_eq_some_iff.mp hv
  cases hv.symm.trans hv'
  exact ⟨e, (hfits.declares hi).mp hkind ▸ hcast⟩

theorem bind_blames {blamed : Option Nat} (hfits : s.Fits args.length)
    (h : s.bind view args = .error (blamed, e)) :
    ∃ i v kind, blamed = some i ∧ args[i]? = some v ∧ s.Declares i kind ∧
      e = .of (.cast i (view.text v) kind) ∧
      s.Misfits view args i ∧ ∀ j < i, ¬ s.Misfits view args j := by
  rw [bind_of_fits hfits] at h
  obtain ⟨i, v, hblamed, hv, hcast, hbefore⟩ := castFrom_eq_error h
  simp only [Nat.zero_add] at hblamed hcast hbefore
  obtain ⟨hi, -⟩ := List.getElem?_eq_some_iff.mp hv
  have hkind : s.Declares i (s.kindAt i) := (hfits.declares hi).mpr rfl
  refine ⟨i, v, _, hblamed, hv, hkind, View.cast_eq_error hcast,
    ⟨v, _, e, hv, hkind, hcast⟩, ?_⟩
  -- An argument before the one that is blamed has been turned into its kind.
  intro j hj hmisfits
  obtain ⟨u, -, -, hu, -, -⟩ := id hmisfits
  obtain ⟨w, hw⟩ := hbefore j hj u hu
  obtain ⟨e', he'⟩ := hmisfits.cast hfits hu
  simp [hw] at he'

theorem bind_fails_iff (hfits : s.Fits args.length) :
    (∃ blamed e, s.bind view args = .error (blamed, e)) ↔ ∃ i, s.Misfits view args i := by
  constructor
  · rintro ⟨blamed, e, h⟩
    obtain ⟨i, -, -, -, -, -, -, hmisfits, -⟩ := bind_blames hfits h
    exact ⟨i, hmisfits⟩
  · rintro ⟨i, hmisfits⟩
    obtain ⟨v, -, -, hv, -, -⟩ := id hmisfits
    obtain ⟨e, he⟩ := hmisfits.cast hfits hv
    cases h : s.bind view args with
    | error blamed => exact ⟨blamed.1, blamed.2, rfl⟩
    | ok bound =>
      obtain ⟨-, -, hcasts⟩ := bind_eq_ok.mp h
      obtain ⟨w, -, hw⟩ := hcasts i v hv
      simp [he] at hw

/-- Binding blames no argument exactly for a wrong number of them. If their number is right it
fails exactly if there is one that cannot be turned into what is declared for it, and blames the
first of these, also in the words of the failure. Otherwise there is one bound for each, turned
into what is declared for it; binding these again leaves them as they are, whatever has become of
the objects since. -/
theorem bind_decides (s : Signature) (view : View) (args : List Value) :
    (∀ e, s.bind view args = .error (none, e) ↔
      ¬ s.Fits args.length ∧ e = .of (.parameterMismatch s.params.length args.length)) ∧
    (s.Fits args.length →
      ((∃ blamed e, s.bind view args = .error (blamed, e)) ↔ ∃ i, s.Misfits view args i) ∧
      ∀ blamed e, s.bind view args = .error (blamed, e) →
        ∃ i v kind, blamed = some i ∧ args[i]? = some v ∧ s.Declares i kind ∧
          e = .of (.cast i (view.text v) kind) ∧
          s.Misfits view args i ∧ ∀ j < i, ¬ s.Misfits view args j) ∧
    ∀ bound, s.bind view args = .ok bound →
      s.Fits args.length ∧ bound.length = args.length ∧
      (∀ i v, args[i]? = some v →
        ∃ kind w, s.Declares i kind ∧ bound[i]? = some w ∧ view.cast v kind i = .ok w) ∧
      ∀ later : View, s.bind later bound = .ok bound := by
  refine ⟨fun e => ?_, fun hfits => ?_, fun bound h => ?_⟩
  · by_cases hfits : s.Fits args.length
    · simp only [bind_of_fits hfits, hfits, not_true_eq_false, false_and, iff_false]
      intro h
      obtain ⟨i, v, hnone, -⟩ := castFrom_eq_error h
      simp at hnone
    · simp [bind_of_not_fits hfits, hfits, eq_comm]
  · exact ⟨bind_fails_iff hfits, fun blamed e h => bind_blames hfits h⟩
  · obtain ⟨hfits, hlength, hcasts⟩ := bind_eq_ok.mp h
    refine ⟨hfits, hlength, fun i v hv => ?_, fun later => bind_of_admits (bind_admits h)⟩
    obtain ⟨hi, -⟩ := List.getElem?_eq_some_iff.mp hv
    obtain ⟨w, hw, hcast⟩ := hcasts i v hv
    exact ⟨_, w, (hfits.declares hi).mpr rfl, hw, hcast⟩

end Signature

end HostScript
