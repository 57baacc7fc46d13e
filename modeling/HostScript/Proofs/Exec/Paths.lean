import HostScript.Exec.Session
import HostScript.Proofs.Exec.Computation
import HostScript.Proofs.Syntax.Path

/-!
# What a path means

There are three ways to what a path means: a dotted name is looked up part by part, a path is read
from its root to its end, and a place is resolved and then read. The three agree
(`Program.paths_agree`). All that a path does on the way is to evaluate its indices in order, each
of them once (`Evaluator.Evaluates`); if it fails, nothing has happened but that it has evaluated
some of them, and that the failure may have been noted.
-/

namespace HostScript

variable {P : Platform} {α β : Type}

/-- Nothing has changed, but that a failure of an object may have been noted. -/
def Machine.Still (m m' : Machine P) : Prop :=
  m' = m ∨ ∃ e, m' = m.noted (.faulted e)

def Halt.unlocated : Halt → Halt
  | .failed e => .failed { e with position := none }
  | .outOfFuel => .outOfFuel

namespace Exec

variable {prog : Program P} {m : Machine P} {v u : Value} {name : String}

theorem ask_ok {f : World P → Except Failure α} {a : α} (h : f m.world = .ok a) :
    ask f m = (.ok a, m) := by
  rw [ask, act_ok (w := m.world) (by rw [h])]

theorem ask_error {f : World P → Except Failure α} {e : Failure} (h : f m.world = .error e) :
    ask f m = (.error (.failed e), m.noted (.faulted e)) := by
  rw [ask, act_error (w := m.world) (by rw [h])]
  rfl

theorem field_present (h : prog.host.project? m.world v name = some u) :
    field prog v name m = (.ok u, m) := by
  rw [field, bind_ok (world_apply m), h]
  rfl

theorem field_missing (h : prog.host.project? m.world v name = none) :
    field prog v name m = (.error (.failed (Program.noField m.world v name)), m) := by
  rw [field, bind_ok (world_apply m), h]
  rfl

structure Agree (x y : Exec P α) : Prop where
  machine (m : Machine P) : (x m).2 = (y m).2
  outcome (m : Machine P) : (x m).1.mapError Halt.unlocated = (y m).1.mapError Halt.unlocated

namespace Agree

variable {x y : Exec P α}

theorem refl (x : Exec P α) : Agree x x :=
  ⟨fun _ => rfl, fun _ => rfl⟩

theorem located (p : Position) (x : Exec P α) : Agree (x.located p) x where
  machine m := by rw [Exec.located, mapFailure_apply]
  outcome m := by
    rw [Exec.located, mapFailure_apply]
    rcases (x m).1 with (e | _) | a <;> rfl

theorem bind {f g : α → Exec P β} (h : Agree x y) (hfg : ∀ a, Agree (f a) (g a)) :
    Agree (x >>= f) (y >>= g) := by
  have both (m : Machine P) : ((x >>= f) m).2 = ((y >>= g) m).2 ∧
      ((x >>= f) m).1.mapError Halt.unlocated = ((y >>= g) m).1.mapError Halt.unlocated := by
    have hmachine := h.machine m
    have houtcome := h.outcome m
    rcases hx : x m with ⟨halt | a, m₁⟩ <;> rcases hy : y m with ⟨halt' | a', m₂⟩ <;>
      rw [hx, hy] at hmachine houtcome <;> cases hmachine <;>
      simp only [Except.mapError, reduceCtorEq, Except.error.injEq, Except.ok.injEq] at houtcome
    · rw [bind_error hx, bind_error hy]
      exact ⟨rfl, congrArg Except.error houtcome⟩
    · subst houtcome
      rw [bind_ok hx, bind_ok hy]
      exact ⟨(hfg a).machine m₁, (hfg a).outcome m₁⟩
  exact ⟨fun m => (both m).1, fun m => (both m).2⟩

end Agree

end Exec

-- ---------------------------------------------------------------------------
-- Evaluating in order
-- ---------------------------------------------------------------------------

namespace Evaluator

variable {E : Evaluator P}

def inOrder (E : Evaluator P) : List (Expr × String) → Exec P Unit
  | [] => return ()
  | (e, use) :: rest => do
    let _ ← E.value e use
    E.inOrder rest

theorem inOrder_append_ok {es rest : List (Expr × String)} {m m' : Machine P}
    (h : E.inOrder es m = (.ok (), m')) : E.inOrder (es ++ rest) m = E.inOrder rest m' := by
  induction es generalizing m with
  | nil =>
    cases h
    rfl
  | cons e es ih =>
    rcases Exec.bind_cases (E.value e.1 e.2) (fun _ => E.inOrder es) m with
      ⟨halt, m₁, -, hstop⟩ | ⟨v, m₁, hv, hgo⟩
    · cases hstop.symm.trans h
    · exact (Exec.bind_ok hv).trans (ih (hgo.symm.trans h))

/-- Expressions are evaluated in order up to one that gives no value; or some are that all do, and
then nothing happens. -/
def CutShort (E : Evaluator P) (es : List (Expr × String)) (m m' : Machine P) : Prop :=
  ∃ used, used <+: es ∧
    ((∃ halt, E.inOrder used m = (.error halt, m')) ∨
      ∃ k, E.inOrder used m = (.ok (), k) ∧ k.Still m')

theorem CutShort.still {es : List (Expr × String)} {m m' : Machine P} (h : m.Still m') :
    E.CutShort es m m' :=
  ⟨[], List.nil_prefix, .inr ⟨m, rfl, h⟩⟩

theorem CutShort.append_right {es : List (Expr × String)} {m m' : Machine P}
    (h : E.CutShort es m m') (rest : List (Expr × String)) : E.CutShort (es ++ rest) m m' := by
  obtain ⟨used, hused, h⟩ := h
  exact ⟨used, hused.trans (List.prefix_append _ _), h⟩

theorem CutShort.after {es rest : List (Expr × String)} {m k m' : Machine P}
    (hes : E.inOrder es m = (.ok (), k)) (h : E.CutShort rest k m') :
    E.CutShort (es ++ rest) m m' := by
  obtain ⟨used, hused, h⟩ := h
  refine ⟨es ++ used, (List.prefix_append_right_inj es).mpr hused, ?_⟩
  rwa [inOrder_append_ok hes]

/-- What a computation does is to evaluate these expressions in order, each of them once. If it does
not end well, it has come to any of them. -/
structure Evaluates (E : Evaluator P) (es : List (Expr × String)) (x : Exec P α) : Prop where
  ok {m m' : Machine P} {a : α} (h : x m = (.ok a, m')) : E.inOrder es m = (.ok (), m')
  error {m m' : Machine P} {halt : Halt} (h : x m = (.error halt, m')) : E.CutShort es m m'

namespace Evaluates

variable {es es' : List (Expr × String)} {x : Exec P α}

theorem unchanged (h : ∀ m, (x m).2 = m) : E.Evaluates [] x where
  ok {m m' a} hx := by
    obtain rfl : m' = m := by simpa [hx] using h m
    rfl
  error {m m' halt} hx := by
    obtain rfl : m' = m := by simpa [hx] using h m
    exact .still (.inl rfl)

theorem pure (a : α) : E.Evaluates [] (Pure.pure a : Exec P α) :=
  unchanged fun _ => rfl

theorem value (e : Expr) (use : String) : E.Evaluates [(e, use)] (E.value e use) where
  ok h := Exec.bind_ok h
  error h := ⟨[(e, use)], List.prefix_rfl, .inl ⟨_, Exec.bind_error h⟩⟩

theorem bind {f : α → Exec P β} (hx : E.Evaluates es x) (hf : ∀ a, E.Evaluates es' (f a)) :
    E.Evaluates (es ++ es') (x >>= f) where
  ok {m m' b} h := by
    rcases Exec.bind_cases x f m with ⟨halt, m₁, -, hstop⟩ | ⟨a, m₁, ha, hgo⟩
    · cases hstop.symm.trans h
    · rw [inOrder_append_ok (hx.ok ha)]
      exact (hf a).ok (hgo.symm.trans h)
  error {m m' halt} h := by
    rcases Exec.bind_cases x f m with ⟨halt', m₁, he, hstop⟩ | ⟨a, m₁, ha, hgo⟩
    · obtain rfl : m₁ = m' := congrArg Prod.snd (hstop.symm.trans h)
      exact (hx.error he).append_right es'
    · exact ((hf a).error (hgo.symm.trans h)).after (hx.ok ha)

theorem bind_nil {f : α → Exec P β} (hx : E.Evaluates es x) (hf : ∀ a, E.Evaluates [] (f a)) :
    E.Evaluates es (x >>= f) := by
  rw [← List.append_nil es]
  exact hx.bind hf

theorem stop (es : List (Expr × String)) (halt : Halt) :
    E.Evaluates es (throw halt : Exec P α) where
  ok h := by cases h
  error {m m' _} h := by
    cases h
    exact .still (.inl rfl)

theorem ofExcept (result : Except Failure α) : E.Evaluates [] (Exec.ofExcept result) :=
  unchanged fun _ => by cases result <;> rfl

theorem mapFailure {f : Machine P → Failure → Failure} (hx : E.Evaluates es x) :
    E.Evaluates es (x.mapFailure f) where
  ok {m m' a} h := by
    rw [Exec.mapFailure_apply] at h
    obtain ⟨hout, hm⟩ := Prod.ext_iff.mp h
    exact hx.ok (Prod.ext (Exec.changed_eq_ok.mp hout) hm)
  error {m m' halt} h := by
    rw [Exec.mapFailure_apply] at h
    obtain ⟨hout, rfl⟩ := Prod.ext_iff.mp h
    rcases hx' : x m with ⟨halt' | a, m'⟩
    · exact hx.error hx'
    · rw [hx'] at hout
      cases hout

theorem ask (f : World P → Except Failure α) : E.Evaluates [] (Exec.ask f) where
  ok {m m' a} h := by
    cases hf : f m.world with
    | ok b =>
      cases (Exec.ask_ok hf).symm.trans h
      rfl
    | error e => cases (Exec.ask_error hf).symm.trans h
  error {m m' halt} h := by
    cases hf : f m.world with
    | ok b => cases (Exec.ask_ok hf).symm.trans h
    | error e =>
      cases (Exec.ask_error hf).symm.trans h
      exact .still (.inr ⟨e, rfl⟩)

theorem root (prog : Program P) (name : String) : E.Evaluates [] (Exec.root prog name) := by
  refine unchanged fun m => ?_
  cases hv : prog.resolveRoot? m name with
  | some v => rw [Exec.root_bound hv]
  | none => rw [Exec.root_unbound hv]

theorem field (prog : Program P) (v : Value) (name : String) :
    E.Evaluates [] (Exec.field prog v name) := by
  refine unchanged fun m => ?_
  cases hv : prog.host.project? m.world v name with
  | some u => rw [Exec.field_present hv]
  | none => rw [Exec.field_missing hv]

end Evaluates

end Evaluator

-- ---------------------------------------------------------------------------
-- Paths
-- ---------------------------------------------------------------------------

def Access.use? : Access → Option (Expr × String)
  | .field _ => none
  | .index e => some (e, "index")

@[simp] theorem Access.use?_field (name : String) : (Access.field name).use? = none := rfl
@[simp] theorem Access.use?_index (e : Expr) : (Access.index e).use? = some (e, "index") := rfl

def Path.indices (p : Path) : List Expr :=
  p.segments.flatMap Segment.index

def Path.uses (p : Path) : List (Expr × String) :=
  p.indices.map (·, "index")

theorem Path.uses_eq (p : Path) : p.uses = p.accesses.filterMap Access.use? := by
  have hindex (es : List Expr) :
      (es.map Access.index).filterMap Access.use? = es.map (·, "index") := by
    simp [List.filterMap_map, Function.comp_def]
  have hrest (segments : List Segment) :
      (segments.flatMap fun s => Access.field s.name :: s.index.map .index).filterMap Access.use? =
        (segments.flatMap Segment.index).map (·, "index") := by
    induction segments with
    | nil => rfl
    | cons s rest ih => simp [List.filterMap_cons, hindex, ih]
  unfold Path.uses Path.indices Path.accesses
  cases p.segments with
  | nil => rfl
  | cons first rest => simp [hindex, hrest]

theorem Path.uses_of_isSimple {p : Path} (h : p.isSimple) : p.uses = [] := by
  unfold isSimple at h
  split at h
  · simp_all [uses, indices]
  · cases h

namespace Evaluator

variable {E : Evaluator P} {prog : Program P}

def readPlace (E : Evaluator P) (prog : Program P) (p : Path) : Exec P Value := do
  (← E.place prog p).read prog

def lastPlace (E : Evaluator P) (container : Value) : Access → Exec P Place
  | .field name => return .field container name
  | .index e => return .index container (← E.value e "index")

theorem Evaluates.follow (v : Value) (accesses : List Access) :
    E.Evaluates (accesses.filterMap Access.use?) (E.follow prog v accesses) := by
  induction accesses generalizing v with
  | nil => exact .pure v
  | cons access rest ih =>
    cases access with
    | field name => exact (Evaluates.field prog v name).bind ih
    | index e =>
      exact (Evaluates.value e "index").bind fun key =>
        ((Evaluates.ask _).mapFailure).bind ih

theorem Evaluates.read (p : Path) : E.Evaluates p.uses (E.read prog p) := by
  rw [Path.uses_eq]
  exact (Evaluates.root prog p.root).bind fun v => .follow v p.accesses

theorem Evaluates.lastPlace (container : Value) (access : Access) :
    E.Evaluates access.use?.toList (E.lastPlace container access) := by
  cases access with
  | field name => exact .pure _
  | index e => exact (Evaluates.value e "index").bind fun key => .pure _

theorem Evaluates.reading (place : Place) : E.Evaluates [] (place.read prog) := by
  cases place with
  | binding name => exact .root prog name
  | field container name => exact .field prog container name
  | index container key => exact .ask (prog.host.index · container key)

theorem place_binding {p : Path} (h : p.accesses = []) :
    E.place prog p = return .binding p.root := by
  rw [place, h]
  rfl

theorem place_last {p : Path} {leading : List Access} {last : Access}
    (h : p.accesses = leading ++ [last]) :
    E.place prog p = (do
      let container ← E.follow prog (← Exec.root prog p.root) leading
      E.lastPlace container last) := by
  rw [place, h, List.getLast?_concat, List.dropLast_concat]
  rfl

theorem follow_append (v : Value) (leading rest : List Access) :
    E.follow prog v (leading ++ rest) = (do
      let container ← E.follow prog v leading
      E.follow prog container rest) := by
  induction leading generalizing v with
  | nil => simp [follow]
  | cons access leading ih => cases access <;> simp [follow, ih]

theorem read_last {p : Path} {leading : List Access} {last : Access}
    (h : p.accesses = leading ++ [last]) :
    E.read prog p = (do
      let container ← E.follow prog (← Exec.root prog p.root) leading
      E.follow prog container [last]) := by
  simp [read, h, follow_append]

theorem Evaluates.place (p : Path) : E.Evaluates p.uses (E.place prog p) := by
  rw [Path.uses_eq]
  rcases List.eq_nil_or_concat' p.accesses with h | ⟨leading, last, h⟩
  · rw [place_binding h, h]
    exact .pure _
  · rw [place_last h, h, List.filterMap_append]
    have hlast : [last].filterMap Access.use? = last.use?.toList := by
      cases last <;> rfl
    rw [hlast]
    exact (Evaluates.root prog p.root).bind fun v =>
      (Evaluates.follow v leading).bind fun container => .lastPlace container last

theorem Evaluates.readPlace (p : Path) : E.Evaluates p.uses (E.readPlace prog p) :=
  (Evaluates.place p).bind_nil .reading

theorem readPlace_binding {p : Path} (h : p.accesses = []) :
    E.readPlace prog p = E.read prog p := by
  rw [readPlace, place_binding h, read, h]
  simp only [follow, bind_pure, pure_bind]
  rfl

theorem lastPlace_field_read (container : Value) (name : String) :
    (do (← E.lastPlace container (.field name)).read prog) =
      E.follow prog container [.field name] := by
  simp only [lastPlace, pure_bind, follow, bind_pure]
  rfl

theorem lastPlace_read (container : Value) (last : Access) :
    Exec.Agree (E.follow prog container [last])
      (do (← E.lastPlace container last).read prog) := by
  cases last with
  | field name =>
    rw [lastPlace_field_read]
    exact .refl _
  | index e =>
    simp only [follow, lastPlace, bind_assoc, pure_bind, bind_pure]
    exact .bind (.refl _) fun key => .located _ _

theorem read_agree_readPlace (p : Path) : Exec.Agree (E.read prog p) (E.readPlace prog p) := by
  rcases List.eq_nil_or_concat' p.accesses with h | ⟨leading, last, h⟩
  · rw [readPlace_binding h]
    exact .refl _
  · rw [readPlace, place_last h, read_last h]
    simp only [bind_assoc]
    exact .bind (.refl _) fun v => .bind (.refl _) fun container => lastPlace_read container last

-- ---------------------------------------------------------------------------
-- Dotted names
-- ---------------------------------------------------------------------------

theorem follow_fields_present {fields : List String} {v u : Value} {m : Machine P}
    (h : prog.projectAll? m.world v fields = some u) :
    E.follow prog v (fields.map .field) m = (.ok u, m) := by
  induction fields generalizing v with
  | nil =>
    cases h
    rfl
  | cons name fields ih =>
    obtain ⟨next, hnext, hrest⟩ := Option.bind_eq_some_iff.mp h
    exact (Exec.bind_ok (Exec.field_present hnext)).trans (ih hrest)

theorem follow_fields_missing {before after : List String} {name : String} {v u : Value}
    {m : Machine P} (hbefore : prog.projectAll? m.world v before = some u)
    (hname : prog.host.project? m.world u name = none) :
    E.follow prog v ((before ++ name :: after).map .field) m =
      (.error (.failed (Program.noField m.world u name)), m) := by
  rw [List.map_append, follow_append, Exec.bind_ok (follow_fields_present hbefore)]
  exact Exec.bind_error (Exec.field_missing hname)

theorem readPlace_eq_read {p : Path} {fields : List String} (h : p.accesses = fields.map .field) :
    E.readPlace prog p = E.read prog p := by
  rcases List.eq_nil_or_concat' fields with rfl | ⟨leading, last, rfl⟩
  · exact readPlace_binding h
  · rw [List.map_append] at h
    rw [readPlace, place_last h, read_last h]
    simp only [bind_assoc, lastPlace_field_read]

end Evaluator

theorem Path.root_ofDotted {name root : String} {fields : List String}
    (h : dottedParts name = root :: fields) : (Path.ofDotted name).root = root := by
  rw [Path.root, Path.ofDotted, h]
  rfl

theorem Path.accesses_ofDotted {name root : String} {fields : List String}
    (h : dottedParts name = root :: fields) :
    (Path.ofDotted name).accesses = fields.map .field := by
  rw [Path.accesses, Path.ofDotted, h]
  simp [Segment.named, List.map_eq_flatMap, List.flatMap_assoc]

namespace Program

/-- Why a dotted name means nothing: its first part is not bound, or what the parts before one of
the others mean has no field of that name. -/
inductive Misses (prog : Program P) (m : Machine P) (name : String) : Cause → Prop
  | root {root : String} {fields : List String} (hname : dottedParts name = root :: fields)
      (hroot : prog.resolveRoot? m root = none) : Misses prog m name (.undefinedVariable root)
  | field {root part : String} {before after : List String} {u v : Value}
      (hname : dottedParts name = root :: (before ++ part :: after))
      (hroot : prog.resolveRoot? m root = some u)
      (hbefore : prog.projectAll? m.world u before = some v)
      (hpart : prog.host.project? m.world v part = none) :
      Misses prog m name (.noField (m.world.view.valueType v) part)

theorem projectAll?_eq_none {prog : Program P} {w : World P} {v : Value} {fields : List String}
    (h : prog.projectAll? w v fields = none) :
    ∃ before part after u, fields = before ++ part :: after ∧
      prog.projectAll? w v before = some u ∧ prog.host.project? w u part = none := by
  induction fields generalizing v with
  | nil => cases h
  | cons name fields ih =>
    cases hnext : prog.host.project? w v name with
    | none => exact ⟨[], name, fields, v, rfl, rfl, hnext⟩
    | some next =>
      rw [projectAll?, hnext] at h
      obtain ⟨before, part, after, u, rfl, hbefore, hpart⟩ := ih h
      refine ⟨name :: before, part, after, u, rfl, ?_, hpart⟩
      rw [projectAll?, hnext]
      exact hbefore

theorem exists_misses {prog : Program P} {m : Machine P} {name : String}
    (h : prog.resolve? m name = none) : ∃ cause, prog.Misses m name cause := by
  cases hparts : dottedParts name with
  | nil => exact absurd hparts (dottedParts_ne_nil name)
  | cons root fields =>
    cases hroot : prog.resolveRoot? m root with
    | none => exact ⟨_, .root hparts hroot⟩
    | some u =>
      simp only [resolve?, hparts, hroot, Option.bind_some] at h
      obtain ⟨before, part, after, v, rfl, hbefore, hpart⟩ := projectAll?_eq_none h
      exact ⟨_, .field hparts hroot hbefore hpart⟩

theorem Misses.on {prog : Program P} {m : Machine P} {name : String} {cause : Cause}
    (h : prog.Misses m name cause) (operands : Operands) :
    prog.Misses { m with operands } name cause := by
  cases h with
  | root hname hroot => exact .root hname hroot
  | field hname hroot hbefore hpart => exact .field hname hroot hbefore hpart

theorem readPlace_ofDotted (prog : Program P) (E : Evaluator P) (name : String) :
    E.readPlace prog (.ofDotted name) = E.read prog (.ofDotted name) := by
  cases hparts : dottedParts name with
  | nil => exact absurd hparts (dottedParts_ne_nil name)
  | cons root fields => exact Evaluator.readPlace_eq_read (Path.accesses_ofDotted hparts)

theorem read_resolved (prog : Program P) (E : Evaluator P) {m : Machine P} {name : String}
    {v : Value} (h : prog.resolve? m name = some v) :
    E.read prog (.ofDotted name) m = (.ok v, m) := by
  cases hparts : dottedParts name with
  | nil => exact absurd hparts (dottedParts_ne_nil name)
  | cons root fields =>
    rw [resolve?, hparts] at h
    obtain ⟨u, hroot, hfields⟩ := Option.bind_eq_some_iff.mp h
    rw [Evaluator.read, Path.accesses_ofDotted hparts, Path.root_ofDotted hparts,
      Exec.bind_ok (Exec.root_bound hroot)]
    exact Evaluator.follow_fields_present hfields

theorem read_missed (prog : Program P) (E : Evaluator P) {m : Machine P} {name : String}
    {cause : Cause} (h : prog.Misses m name cause) :
    E.read prog (.ofDotted name) m = (.error (.failed (.of cause)), m) := by
  cases h with
  | root hname hroot =>
    rw [Evaluator.read, Path.root_ofDotted hname]
    exact Exec.bind_error (Exec.root_unbound hroot)
  | field hname hroot hbefore hpart =>
    rw [Evaluator.read, Path.accesses_ofDotted hname, Path.root_ofDotted hname,
      Exec.bind_ok (Exec.root_bound hroot)]
    exact Evaluator.follow_fields_missing hbefore hpart

theorem evaluate_path (prog : Program P) (n : Nat) (p : Path) (pos : Position) {m : Machine P}
    {outcome : Except Halt Value}
    (h : (prog.evaluator n).read prog p { m with operands := [] } =
      (outcome, { m with operands := [] })) :
    prog.evaluate (n + 1) ⟨.path p, pos⟩ m =
      (Exec.changed (·.locate pos) (outcome.map some), m) := by
  have hexpr : (prog.evaluator (n + 1)).expr ⟨.path p, pos⟩ =
      Exec.located pos (do Exec.push (← (prog.evaluator n).read prog p)) := rfl
  rw [evaluate, Evaluator.isolated, Exec.top_apply, hexpr, Exec.located, Exec.mapFailure_apply]
  cases outcome with
  | ok v =>
    rw [Exec.bind_ok h]
    rfl
  | error halt =>
    rw [Exec.bind_error h]
    cases halt <;> rfl

/-- The three ways to what a path means agree: what a dotted name means is what evaluating it as a
path gives, and what the place that it leads to holds, and where it means nothing both fail because
of what it misses; reading any path and reading the place that it leads to evaluate the same
indices, each of them once and in order, and end alike. -/
theorem paths_agree (prog : Program P) :
    (∀ name n pos m,
      (∀ v, prog.resolve? m name = some v ↔
        (prog.evaluate (n + 1) ⟨.path (.ofDotted name), pos⟩ m).1 = .ok (some v)) ∧
      (∀ v, prog.resolve? m name = some v ↔
        ((prog.evaluator n).readPlace prog (.ofDotted name) m).1 = .ok v) ∧
      (prog.resolve? m name = none → ∃ cause, prog.Misses m name cause ∧
        (prog.evaluate (n + 1) ⟨.path (.ofDotted name), pos⟩ m).1 =
          .error (.failed ((Failure.of cause).locate pos)) ∧
        ((prog.evaluator n).readPlace prog (.ofDotted name) m).1 =
          .error (.failed (.of cause))) ∧
      (prog.evaluate (n + 1) ⟨.path (.ofDotted name), pos⟩ m).2 = m ∧
      ((prog.evaluator n).readPlace prog (.ofDotted name) m).2 = m) ∧
    ∀ (E : Evaluator P) (p : Path),
      E.Evaluates p.uses (E.read prog p) ∧ E.Evaluates p.uses (E.readPlace prog p) ∧
        Exec.Agree (E.read prog p) (E.readPlace prog p) := by
  refine ⟨fun name n pos m => ?_,
    fun E p => ⟨.read p, .readPlace p, E.read_agree_readPlace p⟩⟩
  rw [readPlace_ofDotted]
  -- The path is evaluated on an empty stack of operands, on which what a name means does not
  -- depend.
  cases h : prog.resolve? m name with
  | some v =>
    rw [prog.evaluate_path n _ pos (prog.read_resolved _ (m := { m with operands := [] }) h),
      prog.read_resolved _ h]
    simp [Exec.changed, Except.map]
  | none =>
    obtain ⟨cause, hmisses⟩ := exists_misses h
    rw [prog.evaluate_path n _ pos (prog.read_missed _ (hmisses.on [])), prog.read_missed _ hmisses]
    refine ⟨?_, ?_, fun _ => ⟨cause, hmisses, rfl, rfl⟩, rfl, rfl⟩ <;>
      simp [Exec.changed, Except.map]

end Program

end HostScript
