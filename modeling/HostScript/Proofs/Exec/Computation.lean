import HostScript.Exec.Statement
import Mathlib.Order.Defs.Unbundled

/-!
# Laws of computations

What a computation makes of a machine, for each way of putting computations together. The resources
of a `try` statement nest: setting up several and closing them in reverse order is setting up the
first one around all that has to do with the others (`withResources_eq_nested`).
-/

namespace HostScript

variable {P : Platform} {α β : Type}

namespace Exec

-- ---------------------------------------------------------------------------
-- Sequences
-- ---------------------------------------------------------------------------

theorem world_apply (m : Machine P) : (world : Exec P (World P)) m = (.ok m.world, m) := rfl

theorem get_apply (m : Machine P) : (get : Exec P (Machine P)) m = (.ok m, m) := rfl

theorem bind_apply (x : Exec P α) (f : α → Exec P β) (m : Machine P) :
    (x >>= f) m = match x m with
      | (.ok a, m) => f a m
      | (.error halt, m) => (.error halt, m) := by
  simp only [bind, ExceptT.bind, ExceptT.mk, StateT.bind]
  rcases x m with ⟨_ | _, _⟩ <;> rfl

theorem bind_ok {x : Exec P α} {f : α → Exec P β} {m m' : Machine P} {a : α}
    (h : x m = (.ok a, m')) : (x >>= f) m = f a m' := by
  rw [bind_apply, h]

theorem bind_error {x : Exec P α} {f : α → Exec P β} {m m' : Machine P} {halt : Halt}
    (h : x m = (.error halt, m')) : (x >>= f) m = (.error halt, m') := by
  rw [bind_apply, h]

theorem bind_cases (x : Exec P α) (f : α → Exec P β) (m : Machine P) :
    (∃ halt m', x m = (.error halt, m') ∧ (x >>= f) m = (.error halt, m')) ∨
      ∃ a m', x m = (.ok a, m') ∧ (x >>= f) m = f a m' := by
  rcases h : x m with ⟨halt | a, m'⟩
  · exact .inl ⟨halt, m', rfl, bind_error h⟩
  · exact .inr ⟨a, m', rfl, bind_ok h⟩

theorem bind_eq_ok {x : Exec P α} {f : α → Exec P β} {m m' : Machine P} {b : β} :
    (x >>= f) m = (.ok b, m') ↔ ∃ a m₁, x m = (.ok a, m₁) ∧ f a m₁ = (.ok b, m') := by
  rcases h : x m with ⟨halt | a, m₁⟩
  · rw [bind_error h]
    refine ⟨nofun, ?_⟩
    rintro ⟨_, _, ⟨⟩, -⟩
  · rw [bind_ok h]
    refine ⟨fun hf => ⟨a, m₁, rfl, hf⟩, ?_⟩
    rintro ⟨_, _, ⟨⟩, hf⟩
    exact hf

-- ---------------------------------------------------------------------------
-- Failures
-- ---------------------------------------------------------------------------

def changed (f : Failure → Failure) : Except Halt α → Except Halt α
  | .error (.failed e) => .error (.failed (f e))
  | outcome => outcome

theorem mapFailure_apply (f : Machine P → Failure → Failure) (x : Exec P α) (m : Machine P) :
    x.mapFailure f m = (changed (f (x m).2) (x m).1, (x m).2) := by
  unfold mapFailure
  rcases x m with ⟨(e | _) | a, m'⟩ <;> rfl

theorem changed_eq_ok {f : Failure → Failure} {outcome : Except Halt α} {a : α} :
    changed f outcome = .ok a ↔ outcome = .ok a := by
  rcases outcome with (e | _) | b <;> simp [changed]

theorem mapFailure_eq_failed {f : Machine P → Failure → Failure} {x : Exec P α} {m : Machine P}
    {e : Failure} : (x.mapFailure f m).1 = .error (.failed e) ↔
      ∃ e', (x m).1 = .error (.failed e') ∧ f (x m).2 e' = e := by
  rw [mapFailure_apply]
  rcases (x m).1 with (e' | _) | a <;> simp [changed]

theorem located_ok {p : Position} {x : Exec P α} {m m' : Machine P} {a : α}
    (h : x m = (.ok a, m')) : x.located p m = (.ok a, m') := by
  rw [located, mapFailure_apply, h]
  rfl

theorem located_error {p : Position} {x : Exec P α} {m m' : Machine P} {halt : Halt}
    (h : x m = (.error halt, m')) : ∃ halt', x.located p m = (.error halt', m') := by
  rw [located, mapFailure_apply, h]
  cases halt <;> exact ⟨_, rfl⟩

theorem located_eq_ok {p : Position} {x : Exec P α} {m m' : Machine P} {a : α} :
    x.located p m = (.ok a, m') ↔ x m = (.ok a, m') := by
  rw [located, mapFailure_apply, Prod.ext_iff, Prod.ext_iff]
  exact and_congr_left' changed_eq_ok

theorem located_bind (p : Position) (x : Exec P α) (f : α → Exec P β) :
    (x >>= f).located p = x.located p >>= fun a => (f a).located p := by
  funext m
  rcases h : x m with ⟨(e | _) | a, m'⟩
  · have hx : x.located p m = (.error (.failed (e.locate p)), m') := by
      rw [located, mapFailure_apply, h]
      rfl
    rw [bind_error hx, located, mapFailure_apply, bind_error h]
    rfl
  · have hx : x.located p m = (.error .outOfFuel, m') := by
      rw [located, mapFailure_apply, h]
      rfl
    rw [bind_error hx, located, mapFailure_apply, bind_error h]
    rfl
  · rw [bind_ok (located_ok h), located, mapFailure_apply, bind_ok h, located, mapFailure_apply]

theorem recover_ok {x : Exec P α} {handler : Failure → Exec P α} {m m' : Machine P} {a : α}
    (h : x m = (.ok a, m')) : x.recover handler m = (.ok a, m') := by
  rw [recover, h]

theorem recover_failed {x : Exec P α} {handler : Failure → Exec P α} {m m' : Machine P}
    {e : Failure} (h : x m = (.error (.failed e), m')) : x.recover handler m = handler e m' := by
  rw [recover, h]

theorem recover_outOfFuel {x : Exec P α} {handler : Failure → Exec P α} {m m' : Machine P}
    (h : x m = (.error .outOfFuel, m')) : x.recover handler m = (.error .outOfFuel, m') := by
  rw [recover, h]

theorem attempt_apply {x : Exec P α} {m m' : Machine P} {outcome : Except Halt α}
    (h : x m = (outcome, m')) : x.attempt m = (.ok outcome, m') := by
  rw [attempt, h]

def overriding (outcome : Except Halt Signal) : Except Halt Signal → Except Halt Signal
  | .ok .normal => outcome
  | after => after

theorem finish_outOfFuel {x cleanup : Exec P Signal} {m m' : Machine P}
    (h : x m = (.error .outOfFuel, m')) : x.finish cleanup m = (.error .outOfFuel, m') := by
  rw [finish, bind_ok (attempt_apply h)]
  rfl

theorem finish_apply {x cleanup : Exec P Signal} {m m' : Machine P} {outcome : Except Halt Signal}
    (h : x m = (outcome, m')) (ho : outcome ≠ .error .outOfFuel) :
    x.finish cleanup m = (overriding outcome (cleanup m').1, (cleanup m').2) := by
  rw [finish, bind_ok (attempt_apply h)]
  rcases hy : cleanup m' with ⟨halt | signal, m''⟩
  · rcases outcome with (e | _) | s
    · exact bind_error hy
    · exact absurd rfl ho
    · exact bind_error hy
  · rcases outcome with (e | _) | s
    · exact (bind_ok hy).trans (by cases signal <;> rfl)
    · exact absurd rfl ho
    · exact (bind_ok hy).trans (by cases signal <;> rfl)

theorem overriding_eq_error {outcome after : Except Halt Signal} {halt : Halt} :
    overriding outcome after = .error halt ↔
      after = .error halt ∨ after = .ok .normal ∧ outcome = .error halt := by
  rcases after with halt' | (_ | _ | _ | v) <;> simp [overriding]

/-- A cleanup that does not end normally is what fails, and is run unless steps have run out. -/
theorem finish_eq_failed {x cleanup : Exec P Signal} {m : Machine P} {e : Failure} :
    (x.finish cleanup m).1 = .error (.failed e) ↔
      (x m).1 ≠ .error .outOfFuel ∧ (cleanup (x m).2).1 = .error (.failed e) ∨
        (cleanup (x m).2).1 = .ok .normal ∧ (x m).1 = .error (.failed e) := by
  by_cases hfuel : (x m).1 = .error .outOfFuel
  · rw [finish_outOfFuel (Prod.ext hfuel rfl)]
    simp [hfuel]
  · have hm : x m = ((x m).1, (x m).2) := rfl
    rw [finish_apply hm hfuel, overriding_eq_error, and_iff_right hfuel]

def firstFailure (outcome : Except Halt α) (after : Except Halt Unit) : Except Halt α :=
  match outcome, after with
  | .ok _, .error halt => .error halt
  | outcome, _ => outcome

theorem firstFailure_eq_ok {outcome : Except Halt α} {after : Except Halt Unit} {a : α}
    (h : firstFailure outcome after = .ok a) : outcome = .ok a := by
  rcases outcome with _ | _ <;> rcases after with _ | _ <;> first | exact h | cases h

theorem firstFailure_eq_error {outcome : Except Halt α} {after : Except Halt Unit} {halt : Halt} :
    firstFailure outcome after = .error halt ↔
      outcome = .error halt ∨ ∃ a, outcome = .ok a ∧ after = .error halt := by
  rcases outcome with halt' | a <;> rcases after with halt'' | ⟨⟩ <;> simp [firstFailure]

theorem andThen_apply (x : Exec P α) (y : Exec P Unit) (m : Machine P) :
    x.andThen y m = (firstFailure (x m).1 (y (x m).2).1, (y (x m).2).2) := by
  rcases hx : x m with ⟨outcome, m₁⟩
  rcases hy : y m₁ with ⟨after, m₂⟩
  rw [andThen, bind_ok (attempt_apply hx), bind_ok (attempt_apply hy)]
  rcases outcome with _ | _ <;> rcases after with _ | _ <;> rfl

theorem andThen_eq_error {x : Exec P α} {y : Exec P Unit} {m : Machine P} {halt : Halt} :
    (x.andThen y m).1 = .error halt ↔
      (x m).1 = .error halt ∨ ∃ a, (x m).1 = .ok a ∧ (y (x m).2).1 = .error halt := by
  rw [andThen_apply]
  exact firstFailure_eq_error

theorem andThen_pure (x : Exec P α) : x.andThen (pure ()) = x := by
  funext m
  rw [andThen_apply]
  rcases x m with ⟨_ | _, _⟩ <;> rfl

theorem firstFailure_assoc (outcome : Except Halt α) (after last : Except Halt Unit) :
    firstFailure (firstFailure outcome after) last =
      firstFailure outcome (firstFailure after last) := by
  rcases outcome with _ | _ <;> rcases after with _ | _ <;> rcases last with _ | _ <;> rfl

theorem andThen_assoc (x : Exec P α) (y z : Exec P Unit) :
    (x.andThen y).andThen z = x.andThen (y.andThen z) := by
  funext m
  simp only [andThen_apply, firstFailure_assoc]

theorem andThen_bind {x : Exec P α} {f : α → Exec P β} {y : Exec P Unit}
    {m m' : Machine P} {a : α}
    (h : x m = (.ok a, m')) : (x >>= f).andThen y m = (f a).andThen y m' := by
  rw [andThen_apply, andThen_apply, bind_ok h]

-- ---------------------------------------------------------------------------
-- Objects and names
-- ---------------------------------------------------------------------------

theorem act_ok {x : Act P α} {m : Machine P} {w : World P} {a : α} (h : x m.world = (.ok a, w)) :
    act x m = (.ok a, { m with world := w }) := by
  rw [act, h]

theorem act_error {x : Act P α} {m : Machine P} {w : World P} {e : Failure}
    (h : x m.world = (.error e, w)) :
    act x m = (.error (.failed e), { m with world := w, journal := .faulted e :: m.journal }) := by
  rw [act, h]

theorem root_bound {prog : Program P} {name : String} {m : Machine P} {v : Value}
    (h : prog.resolveRoot? m name = some v) : root prog name m = (.ok v, m) := by
  rw [root, bind_ok (get_apply m), h]
  rfl

theorem root_unbound {prog : Program P} {name : String} {m : Machine P}
    (h : prog.resolveRoot? m name = none) :
    root prog name m = (.error (.failed (.of (.undefinedVariable name))), m) := by
  rw [root, bind_ok (get_apply m), h]
  rfl

theorem withScope_apply (x : Exec P α) (m : Machine P) :
    withScope x m = ((x m.enterBlock).1, (x m.enterBlock).2.leaveBlock) := rfl

-- ---------------------------------------------------------------------------
-- Where computations lead
-- ---------------------------------------------------------------------------

/-- From every machine, however the computation ends, it leads to one that stands in a relation. -/
def Leads (R : Machine P → Machine P → Prop) (x : Exec P α) : Prop :=
  ∀ m, R m (x m).2

namespace Leads

variable {R : Machine P → Machine P → Prop} {x : Exec P α}

theorem mapFailure {f : Machine P → Failure → Failure} (h : Leads R x) :
    Leads R (x.mapFailure f) := by
  intro m
  rw [mapFailure_apply]
  exact h m

section
variable [IsTrans (Machine P) R]

theorem bind {f : α → Exec P β} (hx : Leads R x) (hf : ∀ a, Leads R (f a)) :
    Leads R (x >>= f) := by
  intro m
  have h := hx m
  rcases bind_cases x f m with ⟨halt, m', hm, hb⟩ | ⟨a, m', hm, hb⟩
  · rw [hm] at h
    rwa [hb]
  · rw [hm] at h
    rw [hb]
    exact IsTrans.trans _ _ _ h (hf a m')

theorem recover {handler : Failure → Exec P α} (hx : Leads R x)
    (hh : ∀ e, Leads R (handler e)) :
    Leads R (x.recover handler) := by
  intro m
  have h := hx m
  rcases hm : x m with ⟨(e | _) | a, m'⟩ <;> rw [hm] at h
  · rw [recover_failed hm]
    exact IsTrans.trans _ _ _ h (hh e m')
  · rwa [recover_outOfFuel hm]
  · rwa [recover_ok hm]

theorem finish {x cleanup : Exec P Signal} (hx : Leads R x) (hy : Leads R cleanup) :
    Leads R (x.finish cleanup) := by
  intro m
  have h := hx m
  rcases hm : x m with ⟨outcome, m'⟩
  rw [hm] at h
  by_cases ho : outcome = .error .outOfFuel
  · subst ho
    rwa [finish_outOfFuel hm]
  · rw [finish_apply hm ho]
    exact IsTrans.trans _ _ _ h (hy m')

theorem andThen {y : Exec P Unit} (hx : Leads R x) (hy : Leads R y) : Leads R (x.andThen y) := by
  intro m
  rw [andThen_apply]
  exact IsTrans.trans _ _ _ (hx m) (hy (x m).2)

end

end Leads

-- ---------------------------------------------------------------------------
-- Operands
-- ---------------------------------------------------------------------------

theorem top_apply (x : Exec P Unit) (m : Machine P) :
    top x m = ((x { m with operands := [] }).1.map
        fun _ => (x { m with operands := [] }).2.operands.head?,
      { (x { m with operands := [] }).2 with operands := m.operands }) := by
  unfold top isolated
  dsimp only
  rw [bind_apply]
  rcases x { m with operands := [] } with ⟨_ | _, _⟩ <;> rfl

theorem top_eq_error {x : Exec P Unit} {m : Machine P} {halt : Halt} :
    (top x m).1 = .error halt ↔ (x { m with operands := [] }).1 = .error halt := by
  rw [top_apply]
  rcases (x { m with operands := [] }).1 with halt' | ⟨⟩ <;> simp [Except.map]

theorem top_eq_ok {x : Exec P Unit} {m m' : Machine P} {v : Option Value} :
    top x m = (.ok v, m') ↔
      ∃ m₁, x { m with operands := [] } = (.ok (), m₁) ∧ m₁.operands.head? = v ∧
        { m₁ with operands := m.operands } = m' := by
  rw [top_apply]
  rcases x { m with operands := [] } with ⟨halt | ⟨⟩, m₁⟩
  · refine ⟨nofun, ?_⟩
    rintro ⟨_, ⟨⟩, -⟩
  · constructor
    · rintro ⟨⟩
      exact ⟨m₁, rfl, rfl, rfl⟩
    · rintro ⟨_, ⟨⟩, rfl, rfl⟩
      rfl

theorem operate_eq_failed {task : Calculator α} {m : Machine P} {e : Failure} :
    (operate task m).1 = .error (.failed e) ↔ (task m.operands).1 = .error e := by
  change (task m.operands).1.mapError Halt.failed = _ ↔ _
  rcases (task m.operands).1 with e' | a
  · constructor <;> rintro ⟨⟩ <;> rfl
  · exact ⟨nofun, nofun⟩

theorem view_apply (m : Machine P) : (view : Exec P View) m = (.ok m.world.view, m) := rfl

def viewed (p : Position) (f : View → Except Failure α) : Exec P α :=
  located p do ofExcept (f (← view))

theorem viewed_ok {p : Position} {f : View → Except Failure α} {m : Machine P} {a : α}
    (h : f m.world.view = .ok a) : viewed p f m = (.ok a, m) := by
  refine located_ok ?_
  rw [bind_ok (view_apply m), h]
  rfl

theorem viewed_error {p : Position} {f : View → Except Failure α} {m : Machine P} {e : Failure}
    (h : f m.world.view = .error e) : viewed p f m = (.error (.failed (e.locate p)), m) := by
  rw [viewed, located, mapFailure_apply, bind_ok (view_apply m), h]
  rfl

/-- What puts no value on the stack is no operand. Nothing but the failure comes of it. -/
theorem operand_empty {p : Position} {x : Exec P Unit} {m m' : Machine P} (h : x m = (.ok (), m'))
    (hlength : m'.operands.length = m.operands.length) :
    operand p x m = (.error (.failed ((Failure.of (.noResult "operand")).locate p)), m') := by
  rw [operand, bind_ok (get_apply m), bind_ok h, bind_ok (get_apply m'), if_pos hlength]
  rfl

theorem operand_ok {p : Position} {x : Exec P Unit} {m m' : Machine P} (h : x m = (.ok (), m'))
    (hlength : m'.operands.length ≠ m.operands.length) : operand p x m = (.ok (), m') := by
  rw [operand, bind_ok (get_apply m), bind_ok h, bind_ok (get_apply m'), if_neg hlength]
  rfl

theorem operand_error {p : Position} {x : Exec P Unit} {m m' : Machine P} {halt : Halt}
    (h : x m = (.error halt, m')) : operand p x m = (.error halt, m') := by
  rw [operand, bind_ok (get_apply m), bind_error h]

theorem operand_eq_ok {p : Position} {x : Exec P Unit} {m m' : Machine P} :
    operand p x m = (.ok (), m') ↔
      x m = (.ok (), m') ∧ m'.operands.length ≠ m.operands.length := by
  rcases h : x m with ⟨halt | ⟨⟩, m₁⟩
  · rw [operand_error h]
    exact ⟨nofun, fun h => nomatch h.1⟩
  · by_cases hlength : m₁.operands.length = m.operands.length
    · rw [operand_empty h hlength]
      refine ⟨nofun, ?_⟩
      rintro ⟨⟨⟩, hne⟩
      exact absurd hlength hne
    · rw [operand_ok h hlength]
      refine ⟨?_, And.left⟩
      rintro ⟨⟩
      exact ⟨rfl, hlength⟩

-- ---------------------------------------------------------------------------
-- Calls
-- ---------------------------------------------------------------------------

theorem withFunction_refused {f : Declaration} {site : Option Position} {x : Exec P α}
    {m : Machine P} {e : Failure} (h : m.calls.push ⟨f.name, site⟩ = .error e) :
    withFunction f site x m =
      (.error (.failed e), { m with journal := .refused f :: m.journal }) := by
  rw [withFunction, h]

theorem withFunction_entered {f : Declaration} {site : Option Position} {x : Exec P α}
    {m : Machine P} {calls : Calls} (h : m.calls.push ⟨f.name, site⟩ = .ok calls) :
    withFunction f site x m =
      ((x (m.enterCall f calls)).1,
        (x (m.enterCall f calls)).2.leaveCall f m.current
          (failure? (x (m.enterCall f calls)).1)) := by
  rw [withFunction, h]
  rfl

end Exec

theorem Calls.push_pops {calls calls' : Calls} {frame : Frame} (h : calls.push frame = .ok calls') :
    calls'.frames = frame :: calls.frames ∧ calls'.pop = calls := by
  unfold Calls.push at h
  split at h
  · cases h
  · obtain rfl := Except.ok.inj h
    exact ⟨rfl, rfl⟩

theorem Calls.push_refuses {calls : Calls} {frame : Frame} {e : Failure}
    (h : calls.push frame = .error e) : ∃ limit, e = .of (.stackOverflow limit) := by
  unfold Calls.push at h
  split at h
  · exact ⟨_, (Except.error.inj h).symm⟩
  · cases h

-- ---------------------------------------------------------------------------
-- Values
-- ---------------------------------------------------------------------------

namespace Evaluator

variable {E : Evaluator P} {e : Expr} {use : String} {m m' : Machine P}

/-- There is no value for a use, because the evaluation fails, or because nothing comes of it: then
the failure stands at the expression. -/
inductive Stops (E : Evaluator P) (e : Expr) (use : String) (m : Machine P) :
    Halt → Machine P → Prop
  | fails {halt : Halt} {m' : Machine P} (h : E.isolated e m = (.error halt, m')) :
    Stops E e use m halt m'
  | empty {m' : Machine P} (h : E.isolated e m = (.ok none, m')) :
    Stops E e use m (.failed ((Failure.of (.noResult use)).locate e.pos)) m'

theorem value_ok {v : Value} (h : E.isolated e m = (.ok (some v), m')) :
    E.value e use m = (.ok v, m') := by
  rw [value, Exec.bind_ok h]
  rfl

theorem Stops.value {halt : Halt} (h : E.Stops e use m halt m') :
    E.value e use m = (.error halt, m') := by
  cases h with
  | fails h => rw [Evaluator.value, Exec.bind_error h]
  | empty h =>
    rw [Evaluator.value, Exec.bind_ok h]
    rfl

theorem gives_or_stops (E : Evaluator P) (e : Expr) (use : String) (m : Machine P) :
    (∃ v m', E.isolated e m = (.ok (some v), m')) ∨ ∃ halt m', E.Stops e use m halt m' := by
  rcases h : E.isolated e m with ⟨halt | _ | v, m'⟩
  · exact .inr ⟨halt, m', .fails h⟩
  · exact .inr ⟨_, m', .empty h⟩
  · exact .inl ⟨v, m', rfl⟩

end Evaluator

-- ---------------------------------------------------------------------------
-- Resources
-- ---------------------------------------------------------------------------

/-- Runs a body around which the resource that a value refers to, if it is one, is set
up and closed. -/
def Exec.holding (prog : Program P) (p : Position) (v : Option Value) (body : Exec P Signal) :
    Exec P Signal := do
  match ← Evaluator.acquire prog p v with
  | some r => body.andThen (Evaluator.close prog r)
  | none => body

def Machine.noted (m : Machine P) (e : Event P) : Machine P :=
  { m with journal := e :: m.journal }

namespace Evaluator

variable {prog : Program P} {p : Position} {v : Option Value} {r : Address} {resource : Resource P}
  {m m' : Machine P}

theorem acquire_plain (hv : v.bind Value.address? = none) : acquire prog p v m = (.ok none, m) := by
  rw [acquire, hv]
  rfl

theorem acquire_other (hv : v.bind Value.address? = some r)
    (hr : prog.host.resourceOf? m.world r = none) : acquire prog p v m = (.ok none, m) := by
  rw [acquire, hv]
  dsimp only
  rw [Exec.bind_ok (Exec.world_apply m), hr]
  rfl

theorem acquire_resource (hv : v.bind Value.address? = some r)
    (hr : prog.host.resourceOf? m.world r = some resource)
    (hc : Exec.act resource.create m = (.ok (), m')) :
    acquire prog p v m = (.ok (some r), m'.noted (.created r)) := by
  have hlocated : Exec.located p (Exec.act resource.create) m = (.ok (), m') := by
    rw [Exec.located, Exec.mapFailure_apply, hc]
    rfl
  rw [acquire, hv]
  dsimp only
  rw [Exec.bind_ok (Exec.world_apply m), hr]
  dsimp only
  rw [Exec.bind_ok hlocated]
  rfl

theorem acquire_fails {halt : Halt} (hv : v.bind Value.address? = some r)
    (hr : prog.host.resourceOf? m.world r = some resource)
    (hc : Exec.act resource.create m = (.error halt, m')) :
    ∃ halt', acquire prog p v m = (.error halt', m') := by
  have hlocated : ∃ halt', Exec.located p (Exec.act resource.create) m = (.error halt', m') := by
    rw [Exec.located, Exec.mapFailure_apply, hc]
    cases halt <;> exact ⟨_, rfl⟩
  obtain ⟨halt', hlocated⟩ := hlocated
  refine ⟨halt', ?_⟩
  rw [acquire, hv]
  dsimp only
  rw [Exec.bind_ok (Exec.world_apply m), hr]
  exact Exec.bind_error hlocated

theorem close_lapsed (hr : prog.host.resourceOf? m.world r = none) :
    close prog r m = (.ok (), m.noted (.lapsed r)) := by
  rw [close, Exec.bind_ok (Exec.world_apply m), hr]
  rfl

theorem close_resource (hr : prog.host.resourceOf? m.world r = some resource) :
    close prog r m = Exec.act resource.close (m.noted (.closed r)) := by
  rw [close, Exec.bind_ok (Exec.world_apply m), hr]
  rfl

def nested (E : Evaluator P) (prog : Program P) (body : Exec P Signal) : List Expr → Exec P Signal
  | [] => body
  | e :: rest => do Exec.holding prog e.pos (← E.isolated e) (E.nested prog body rest)

def whenSetUp (E : Evaluator P) (prog : Program P) (body : List Stmt) :
    List Address × Except Halt Unit → Exec P Signal
  | (created, .ok ()) => (E.block body).andThen (closeAll prog created)
  | (created, .error halt) => (throw halt : Exec P Signal).andThen (closeAll prog created)

theorem withResources_eq_whenSetUp (E : Evaluator P) (prog : Program P) (resources : List Expr)
    (body : List Stmt) :
    E.withResources prog resources body =
      E.createAll prog [] resources >>= E.whenSetUp prog body := by
  unfold withResources
  congr
  funext ⟨created, setUp⟩
  rcases setUp with _ | ⟨⟩ <;> rfl

/-- The resources that are there already are closed after all that has to do with the others. -/
theorem createAll_whenSetUp (E : Evaluator P) (prog : Program P) (body : List Stmt)
    (resources : List Expr) (created : List Address) :
    E.createAll prog created resources >>= E.whenSetUp prog body =
      (E.nested prog (E.block body) resources).andThen (closeAll prog created) := by
  -- Each resource that is set up joins those that wait to be closed, so these are any.
  induction resources generalizing created with
  | nil => rfl
  | cons e rest ih =>
    funext m
    have hnested : E.nested prog (E.block body) (e :: rest) = E.create prog e >>= fun
        | some r => (E.nested prog (E.block body) rest).andThen (close prog r)
        | none => E.nested prog (E.block body) rest := by
      rw [create, bind_assoc]
      rfl
    rcases hc : E.create prog e m with ⟨halt | r, m₁⟩
    · have hx : E.nested prog (E.block body) (e :: rest) m = (.error halt, m₁) := by
        rw [hnested, Exec.bind_error hc]
      have hl : E.createAll prog created (e :: rest) m = (.ok (created, .error halt), m₁) := by
        rw [createAll, Exec.bind_ok (Exec.attempt_apply hc)]
        rfl
      rw [Exec.bind_ok hl, Exec.andThen_apply, hx]
      exact Exec.andThen_apply _ _ _
    · rw [hnested, Exec.andThen_bind hc, createAll, bind_assoc,
        Exec.bind_ok (Exec.attempt_apply hc)]
      rcases r with _ | r
      · exact congrFun (ih created) m₁
      · exact (congrFun (ih (r :: created)) m₁).trans
          (congrFun (Exec.andThen_assoc _ _ _).symm m₁)

theorem withResources_eq_nested (E : Evaluator P) (prog : Program P) (resources : List Expr)
    (body : List Stmt) :
    E.withResources prog resources body = E.nested prog (E.block body) resources := by
  rw [withResources_eq_whenSetUp, createAll_whenSetUp]
  exact Exec.andThen_pure _

end Evaluator

end HostScript
