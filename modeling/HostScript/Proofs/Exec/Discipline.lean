import HostScript.Proofs.Exec.Regime
import HostScript.Proofs.Names.Scopes

/-!
# What every computation of a program has

Most of what holds of all parts of a run alike does not depend on the code that they stand in. A
`Discipline` names properties of computations as a `Regime` does, but the same ones for all code.
Then every expression has them, in any number of steps (`Discipline.evalExpr`), and so have the body
of every function (`Discipline.body`) and all that a host can ask of a session (`Discipline.enter`).

Where the operands do not matter, one property is enough: a `Uniform` one may depend on the code, a
relation between machines is `Conserved` by all code alike.
-/

namespace HostScript

variable {P : Platform}

/-- Properties of computations that the smallest ones of a program have, and that putting
computations together keeps. -/
structure Discipline (prog : Program P) where
  /-- Said of what leaves the operands as they are. -/
  keeps : {α : Type} → Exec P α → Prop
  /-- Said of what puts a value on the stack, or nothing. -/
  yields : Exec P Unit → Prop
  puts : Exec P Unit → Prop
  pure {α : Type} (a : α) : keeps (pure a : Exec P α)
  bind {α β : Type} {x : Exec P α} {f : α → Exec P β} :
    keeps x → (∀ a, keeps (f a)) → keeps (x >>= f)
  fail {α : Type} {e : Failure} : ¬ e.cause.IsMisuse → keeps (throw (.failed e) : Exec P α)
  outOfFuel {α : Type} : keeps (throw .outOfFuel : Exec P α)
  world : keeps (Exec.world : Exec P (World P))
  root (name : String) : keeps (Exec.root prog name)
  callee (call : Call) : keeps (Exec.callee prog call)
  act {α : Type} {x : Act P α} : prog.host.Serves x → keeps (Exec.act x)
  invoked {view : View} {f : Callable P} {given args : List Value} :
    f.signature.bind view given = .ok args → keeps (Exec.note (.invoked f args))
  advance (cursor : Cursor) : keeps (Evaluator.advance prog cursor)
  define (name : String) (v : Value) : keeps (Exec.scoping (P := P) (·.define name v))
  store (name : String) (v : Value) : keeps (Exec.scoping (P := P) (·.store name v))
  located {α : Type} {p : Position} {x : Exec P α} : keeps x → keeps (Exec.located p x)
  traced {α : Type} {x : Exec P α} : keeps x → keeps (Exec.traced x)
  recover {α : Type} {x : Exec P α} {handler : Failure → Exec P α} :
    keeps x → (∀ e, keeps (handler e)) →
      (∀ e e' : Failure, e.text = e'.text → handler e = handler e') →
        keeps (x.recover handler)
  finish {x cleanup : Exec P Signal} : keeps x → keeps cleanup → keeps (x.finish cleanup)
  withScope {α : Type} {x : Exec P α} : keeps x → keeps (Exec.withScope x)
  withFunction {α : Type} {f : Declaration} {site : Option Position} {x : Exec P α} :
    keeps x → keeps (Exec.withFunction f site x)
  holding {p : Position} {v : Option Value} {body : Exec P Signal} :
    keeps body → keeps (Exec.holding prog p v body)
  top {x : Exec P Unit} : yields x → keeps (Exec.top x)
  skip : yields (Pure.pure ())
  stuck : yields (throw .outOfFuel)
  after {α : Type} {x : Exec P α} {f : α → Exec P Unit} :
    keeps x → (∀ a, yields (f a)) → yields (x >>= f)
  placed {p : Position} {x : Exec P Unit} : yields x → yields (Exec.located p x)
  weaken {x : Exec P Unit} : puts x → yields x
  push (v : Value) : puts (Exec.push v)
  operand {p : Position} {x : Exec P Unit} : yields x → puts (Exec.operand p x)
  unary {x : Exec P Unit} (op : UnaryOp) : puts x → puts (x >>= fun _ => Exec.unary op)
  binary {x y : Exec P Unit} {p : Position} (op : BinaryOp) : puts x → yields y →
    puts (x >>= fun _ => Exec.operand p y >>= fun _ => Exec.binary op)

/-- What is noted of objects and functions of the host, and not of calls and blocks
of the script. -/
def Event.IsMark : Event P → Prop
  | .invoked .. | .faulted _ | .created _ | .closed _ | .lapsed _ | .delivered .. | .stopped _ =>
    True
  | .entered .. | .left .. | .refused _ | .leftBlock _ => False

def Event.OfResource : Event P → Prop
  | .created _ | .closed _ | .lapsed _ => True
  | _ => False

theorem Event.OfResource.isMark {e : Event P} (h : e.OfResource) : e.IsMark := by
  cases e <;> first | exact h.elim | trivial

/-- Of every event something holds, given what was noted before it. -/
def Throughout (Q : List (Event P) → Event P → Prop) (events : List (Event P)) : Prop :=
  ∀ later e earlier, events = later ++ e :: earlier → Q earlier e

namespace Throughout

variable {Q Q' : List (Event P) → Event P → Prop}
  {events later first : List (Event P)} {e : Event P}

theorem nil (Q : List (Event P) → Event P → Prop) : Throughout Q [] := by
  intro later e earlier h
  simp at h

theorem cons (h : Throughout Q events) (he : Q events e) : Throughout Q (e :: events) := by
  intro later e' earlier hsplit
  rcases List.cons_eq_append_iff.mp hsplit with ⟨rfl, hrest⟩ | ⟨later', rfl, hrest⟩
  · cases hrest
    exact he
  · exact h later' e' earlier hrest

theorem before (h : Throughout Q (later ++ first)) : Throughout Q first := by
  intro newer e older hsplit
  exact h (later ++ newer) e older (by rw [hsplit, List.append_assoc])

theorem append (h : Throughout Q first) (h' : Throughout Q' later)
    (hQ : ∀ newer e, Q' newer e → Q (newer ++ first) e) : Throughout Q (later ++ first) := by
  induction later with
  | nil => exact h
  | cons e later ih =>
    have hlater : Throughout Q' ([e] ++ later) := h'
    exact (ih hlater.before).cons (hQ later e (h' [] e later rfl))

end Throughout

theorem Evaluator.heard_cases {cursor : Cursor} {e : Event P}
    {outcome : Except Halt (Option ((Value × Value) × Cursor))} (h : e ∈ heard cursor outcome) :
    (∃ object key v, e = .delivered object key v) ∨ ∃ object, e = .stopped object := by
  unfold heard at h
  split at h
  · exact .inl ⟨_, _, _, List.mem_singleton.mp h⟩
  · exact .inr ⟨_, List.mem_singleton.mp h⟩
  · cases h

/-- A machine left with the same scopes, whatever they bind, the same calls in progress and the same
function running, only marks being noted. -/
structure Machine.Marked (m m' : Machine P) : Prop where
  scopes : m.scopes.SameShape m'.scopes
  calls : m'.calls = m.calls
  current : m'.current = m.current
  journal : ∃ events, m'.journal = events ++ m.journal ∧ ∀ e ∈ events, e.IsMark

theorem Machine.Marked.still {m m' : Machine P} (hscopes : m.scopes.SameShape m'.scopes)
    (hcalls : m'.calls = m.calls) (hcurrent : m'.current = m.current)
    (hj : m'.journal = m.journal) :
    m.Marked m' :=
  ⟨hscopes, hcalls, hcurrent, [], hj, List.forall_mem_nil _⟩

namespace Exec

variable {α : Type}

theorem marked_act (x : Act P α) : Leads Machine.Marked (act x) := by
  intro m
  rcases h : x m.world with ⟨e | a, w⟩
  · rw [act_error h]
    exact ⟨.refl _, rfl, rfl, [.faulted e], rfl,
      fun _ he => List.mem_singleton.mp he ▸ trivial⟩
  · rw [act_ok h]
    exact .still (.refl _) rfl rfl rfl

theorem marked_note {e : Event P} (h : e.IsMark) : Leads Machine.Marked (note e) :=
  fun _ => ⟨.refl _, rfl, rfl, [e], rfl, fun _ he => List.mem_singleton.mp he ▸ h⟩

theorem marked_noting {x : Exec P α} {events : Except Halt α → List (Event P)}
    (h : ∀ outcome, ∀ e ∈ events outcome, e.IsMark) (m : Machine P) :
    (x m).2.Marked (x.noting events m).2 :=
  ⟨.refl _, rfl, rfl, events (x m).1, rfl, h (x m).1⟩

end Exec

/-- A property of computations that setting up a resource and closing it have, and so what is done
while one is held. It may depend on the positions that failures are given: `here` says which ones
they can be. -/
structure Housekeeping (prog : Program P) (keeps : {α : Type} → Exec P α → Prop)
    (here : Position → Prop := fun _ => True) : Prop where
  pure {α : Type} (a : α) : keeps (pure a : Exec P α)
  bind {α β : Type} {x : Exec P α} {f : α → Exec P β} :
    keeps x → (∀ a, keeps (f a)) → keeps (x >>= f)
  world : keeps (Exec.world : Exec P (World P))
  create {w : World P} {r : Address} {resource : Resource P} :
    prog.host.resourceOf? w r = some resource → keeps (Exec.act resource.create)
  release {w : World P} {r : Address} {resource : Resource P} :
    prog.host.resourceOf? w r = some resource → keeps (Exec.act resource.close)
  note {e : Event P} : e.OfResource → keeps (Exec.note e)
  located {α : Type} {p : Position} {x : Exec P α} :
    here p → keeps x → keeps (Exec.located p x)
  andThen {α : Type} {x : Exec P α} {y : Exec P Unit} :
    keeps x → keeps y → keeps (x.andThen y)

namespace Housekeeping

variable {prog : Program P} {keeps : {α : Type} → Exec P α → Prop} {here : Position → Prop}
  (K : Housekeeping prog keeps here)
include K

theorem close (r : Address) : keeps (Evaluator.close prog r) := by
  refine K.bind K.world fun w => ?_
  cases h : prog.host.resourceOf? w r with
  | none => exact K.note trivial
  | some resource => exact K.bind (K.note trivial) fun _ => K.release h

theorem acquire {p : Position} (hp : here p) (v : Option Value) :
    keeps (Evaluator.acquire prog p v) := by
  unfold Evaluator.acquire
  cases v.bind Value.address? with
  | none => exact K.pure none
  | some r =>
    refine K.bind K.world fun w => ?_
    cases h : prog.host.resourceOf? w r with
    | none => exact K.pure none
    | some resource =>
      refine K.bind (K.located hp (K.create h)) fun _ => ?_
      exact K.bind (K.note trivial) fun _ => K.pure _

theorem holding {p : Position} (hp : here p) {v : Option Value} {body : Exec P Signal}
    (h : keeps body) : keeps (Exec.holding prog p v body) := by
  refine K.bind (K.acquire hp v) fun r => ?_
  cases r with
  | none => exact h
  | some r => exact K.andThen h (K.close r)

end Housekeeping

/-- A property of computations that does not depend on which object acts and what is noted of it. -/
structure Lenient (prog : Program P) (keeps : {α : Type} → Exec P α → Prop)
    (here : Position → Prop := fun _ => True) : Prop where
  pure {α : Type} (a : α) : keeps (pure a : Exec P α)
  bind {α β : Type} {x : Exec P α} {f : α → Exec P β} :
    keeps x → (∀ a, keeps (f a)) → keeps (x >>= f)
  world : keeps (Exec.world : Exec P (World P))
  act {α : Type} {x : Act P α} : prog.host.Offers x → keeps (Exec.act x)
  note {e : Event P} : e.IsMark → keeps (Exec.note e)
  noting {α : Type} {x : Exec P α} {events : Except Halt α → List (Event P)} :
    keeps x → (∀ outcome, ∀ e ∈ events outcome, e.IsMark) →
      (∀ halt halt', events (.error halt) = events (.error halt')) → keeps (x.noting events)
  located {α : Type} {p : Position} {x : Exec P α} :
    here p → keeps x → keeps (Exec.located p x)
  andThen {α : Type} {x : Exec P α} {y : Exec P Unit} :
    keeps x → keeps y → keeps (x.andThen y)

namespace Lenient

variable {prog : Program P} {keeps : {α : Type} → Exec P α → Prop} {here : Position → Prop}
  (L : Lenient prog keeps here)
include L

theorem advance (cursor : Cursor) : keeps (Evaluator.advance prog cursor) := by
  refine L.noting (L.act (.next cursor)) (fun outcome e he => ?_) fun halt halt' => ?_
  · rcases Evaluator.heard_cases he with ⟨object, key, v, rfl⟩ | ⟨object, rfl⟩ <;> trivial
  · cases cursor <;> rfl

theorem housekeeping : Housekeeping prog keeps here where
  pure := L.pure
  bind := L.bind
  world := L.world
  create h := L.act (.create h)
  release h := L.act (.close h)
  note h := L.note h.isMark
  located := L.located
  andThen := L.andThen

theorem holding {p : Position} (hp : here p) {v : Option Value} {body : Exec P Signal}
    (h : keeps body) : keeps (Exec.holding prog p v body) :=
  L.housekeeping.holding hp h

end Lenient

-- ---------------------------------------------------------------------------
-- Properties that do not tell computations apart
-- ---------------------------------------------------------------------------

/-- One property for all computations in a region of code, those that evaluate
an expression included. -/
structure Uniform (prog : Program P) extends Regions where
  keeps : {α : Type} → Region → Exec P α → Prop
  still {α : Type} {region : Region} {x : Exec P α} : (∀ m, (x m).2 = m) →
    (∀ m e, (x m).1 = .error (.failed e) → e.Bare) → keeps region x
  bind {α β : Type} {region : Region} {x : Exec P α} {f : α → Exec P β} :
    keeps region x → (∀ a, keeps region (f a)) → keeps region (x >>= f)
  callee {α : Type} {region : Region} {call : Call} {next : Option (Callee P) → Exec P α} :
    (∀ m, finds region (some call.pos) (Program.callingUnit m call) →
      keeps region (next (prog.callee? m call))) → keeps region (Exec.callee prog call >>= next)
  act {α : Type} {region : Region} {x : Act P α} :
    prog.host.Offers x → keeps region (Exec.act x)
  note {region : Region} {e : Event P} : e.IsMark → keeps region (Exec.note e)
  noting {α : Type} {region : Region} {x : Exec P α}
    {events : Except Halt α → List (Event P)} :
    keeps region x → (∀ outcome, ∀ e ∈ events outcome, e.IsMark) →
      keeps region (x.noting events)
  define {region : Region} (name : String) (v : Value) :
    keeps region (Exec.scoping (P := P) (·.define name v))
  store {region : Region} (name : String) (v : Value) :
    keeps region (Exec.scoping (P := P) (·.store name v))
  operate {region : Region} {task : Calculator Unit} :
    (∀ operands e, (task operands).1 = .error e → e.Bare) →
      keeps region (Exec.operate task : Exec P Unit)
  located {α : Type} {region : Region} {p : Position} {x : Exec P α} :
    .node p ∈ sites region → keeps region x → keeps region (Exec.located p x)
  recover {α : Type} {region : Region} {x : Exec P α} {handler : Failure → Exec P α} :
    keeps region x → (∀ e, keeps region (handler e)) → keeps region (x.recover handler)
  finish {region : Region} {x cleanup : Exec P Signal} :
    keeps region x → keeps region cleanup → keeps region (x.finish cleanup)
  andThen {α : Type} {region : Region} {x : Exec P α} {y : Exec P Unit} :
    keeps region x → keeps region y → keeps region (x.andThen y)
  withScope {α : Type} {region : Region} {x : Exec P α} :
    keeps region x → keeps region (Exec.withScope x)
  withFunction {region : Region} {f : Declaration} {site : Option Position} {args : List Value}
    {x : Exec P Signal} :
    toRegions.Calls prog region f site → keeps (body f) x → x.Positioned →
      keeps region (Exec.withFunction f site (Exec.asBody f.params args x))
  top {region : Region} {x : Exec P Unit} : keeps region x → keeps region (Exec.top x)

namespace Uniform

variable {α : Type} {prog : Program P} (U : Uniform prog) {region : U.Region}

theorem pure (a : α) : U.keeps region (Pure.pure a : Exec P α) :=
  U.still (fun _ => rfl) fun _ _ => nofun

theorem outOfFuel : U.keeps region (throw .outOfFuel : Exec P α) :=
  U.still (fun _ => rfl) fun _ _ => nofun

theorem get : U.keeps region (MonadState.get : Exec P (Machine P)) :=
  U.still (fun _ => rfl) fun _ _ => nofun

theorem world : U.keeps region (Exec.world : Exec P (World P)) :=
  U.bind U.get fun _ => U.pure _

theorem fail (cause : Cause) : U.keeps region (Exec.fail cause : Exec P α) := by
  refine U.still (fun _ => rfl) fun _ e he => ?_
  cases he
  exact .of cause

theorem root (name : String) : U.keeps region (Exec.root prog name) := by
  refine U.bind U.get fun m => ?_
  split
  · exact U.pure _
  · exact U.fail _

theorem lenient (region : U.Region) :
    Lenient prog (U.keeps region) fun p => .node p ∈ U.sites region where
  pure := U.pure
  bind := U.bind
  world := U.world
  act := U.act
  note := U.note
  noting hx h _ := U.noting hx h
  located := U.located
  andThen := U.andThen

theorem operand {p : Position} {x : Exec P Unit} (hp : .node p ∈ U.sites region)
    (hx : U.keeps region x) : U.keeps region (Exec.operand p x) := by
  refine U.bind U.get fun before => U.bind hx fun _ => U.bind U.get fun after => ?_
  split
  · exact U.located hp (U.fail _)
  · exact U.pure _

theorem unary (op : UnaryOp) : U.keeps region (Exec.unary op : Exec P Unit) :=
  U.bind (U.bind U.world fun _ => U.pure _) fun _ => U.operate fun _ _ => Calculator.unary_bare

theorem binary (op : BinaryOp) : U.keeps region (Exec.binary op : Exec P Unit) :=
  U.bind (U.bind U.world fun _ => U.pure _) fun _ => U.operate fun _ _ => Calculator.binary_bare

def regime : Regime prog where
  toRegions := U.toRegions
  keeps := U.keeps
  yields := U.keeps
  puts := U.keeps
  pure := U.pure
  bind := U.bind
  fail _ := U.fail _
  outOfFuel := U.outOfFuel
  world := U.world
  root := U.root
  callee := U.callee
  act h := U.act (.serves h)
  invoked _ := U.note trivial
  advance := (U.lenient _).advance
  define := U.define
  store := U.store
  located := U.located
  recover hx hh _ := U.recover hx hh
  finish := U.finish
  withScope := U.withScope
  withFunction := U.withFunction
  holding hp hb := (U.lenient _).holding hp hb
  top := U.top
  skip := U.pure ()
  stuck := U.outOfFuel
  after := U.bind
  placed := U.located
  weaken := id
  push _ := U.operate fun _ _ => nofun
  operand := U.operand
  unary op hx := U.bind hx fun _ => U.unary op
  binary op hp hx hy := U.bind hx fun _ => U.bind (U.operand hp hy) fun _ => U.binary op

end Uniform

-- ---------------------------------------------------------------------------
-- Relations between machines
-- ---------------------------------------------------------------------------

/-- A relation between machines along which all leads that has to do with objects, names, blocks and
calls, and to which the operands do not matter. -/
structure Conserved (prog : Program P) (R : Machine P → Machine P → Prop) : Prop where
  operands (m : Machine P) (operands : Operands) : R m { m with operands }
  act {α : Type} {x : Act P α} : prog.host.Serves x → Exec.Leads R (Exec.act x)
  invoked {view : View} {f : Callable P} {given args : List Value} :
    f.signature.bind view given = .ok args → Exec.Leads R (Exec.note (.invoked f args))
  advance (cursor : Cursor) : Exec.Leads R (Evaluator.advance prog cursor)
  define (name : String) (v : Value) : Exec.Leads R (Exec.scoping (P := P) (·.define name v))
  store (name : String) (v : Value) : Exec.Leads R (Exec.scoping (P := P) (·.store name v))
  withScope {α : Type} {x : Exec P α} : Exec.Leads R x → Exec.Leads R (Exec.withScope x)
  withFunction {α : Type} {f : Declaration} {site : Option Position} {x : Exec P α} :
    Exec.Leads R x → Exec.Leads R (Exec.withFunction f site x)
  holding {p : Position} {v : Option Value} {body : Exec P Signal} :
    Exec.Leads R body → Exec.Leads R (Exec.holding prog p v body)

namespace Conserved

variable {α : Type} {prog : Program P} {R : Machine P → Machine P → Prop}
  [IsPreorder (Machine P) R] (h : Conserved prog R)

omit h in
theorem lenient (hmarked : ∀ m m' : Machine P, m.Marked m' → R m m') :
    Lenient prog (Exec.Leads R) where
  pure _ m := refl_of R m
  bind := .bind
  world m := refl_of R m
  act _ m := hmarked m _ (Exec.marked_act _ m)
  note he m := hmarked m _ (Exec.marked_note he m)
  noting hx he _ m := IsTrans.trans _ _ _ (hx m) (hmarked _ _ (Exec.marked_noting he m))
  located _ := .mapFailure
  andThen := .andThen

omit h in
theorem of_marked (hmarked : ∀ m m' : Machine P, m.Marked m' → R m m')
    (hscope : ∀ {α : Type} {x : Exec P α}, Exec.Leads R x → Exec.Leads R (Exec.withScope x))
    (hfunction : ∀ {α : Type} {f : Declaration} {site : Option Position} {x : Exec P α},
      Exec.Leads R x → Exec.Leads R (Exec.withFunction f site x)) : Conserved prog R where
  operands m _ := hmarked m _ (.still (.refl _) rfl rfl rfl)
  act h := (lenient hmarked).act (.serves h)
  invoked _ m := hmarked m _ (Exec.marked_note (e := .invoked _ _) trivial m)
  advance := (lenient hmarked).advance
  define name v m := hmarked m _ (.still (.define _ name v) rfl rfl rfl)
  store name v m := hmarked m _ (.still (.store _ name v) rfl rfl rfl)
  withScope := hscope
  withFunction := hfunction
  holding := (lenient hmarked).holding trivial

omit h in
theorem stays {x : Exec P α} (hx : ∀ m, (x m).2 = m) : Exec.Leads R x := by
  intro m
  rw [hx m]
  exact refl_of R m

omit h in
theorem root (name : String) : Exec.Leads R (Exec.root prog name) := by
  refine .bind (stays fun _ => rfl) fun m => ?_
  split <;> exact stays fun _ => rfl

omit h in
theorem operand {p : Position} {x : Exec P Unit} (hx : Exec.Leads R x) :
    Exec.Leads R (Exec.operand p x) := by
  refine .bind (stays fun _ => rfl) fun before => hx.bind fun _ => ?_
  refine .bind (stays fun _ => rfl) fun after => ?_
  split <;> exact stays fun _ => rfl

include h

theorem operateOn (task : View → Calculator Unit) :
    Exec.Leads R (do Exec.operate (task (← Exec.view)) : Exec P Unit) :=
  .bind (stays fun _ => rfl) fun _ m => h.operands m _

theorem top {x : Exec P Unit} (hx : Exec.Leads R x) : Exec.Leads R (Exec.top x) := by
  intro m
  rw [Exec.top_apply]
  have hinner := IsTrans.trans _ _ _ (h.operands m []) (hx _)
  exact IsTrans.trans _ _ _ hinner (h.operands _ m.operands)

def discipline : Discipline prog where
  keeps := Exec.Leads R
  yields := Exec.Leads R
  puts := Exec.Leads R
  pure _ := stays fun _ => rfl
  bind := .bind
  fail _ := stays fun _ => rfl
  outOfFuel := stays fun _ => rfl
  world := stays fun _ => rfl
  root := root
  callee _ := stays fun _ => rfl
  act := h.act
  invoked := h.invoked
  advance := h.advance
  define := h.define
  store := h.store
  located := .mapFailure
  traced := .mapFailure
  recover hx hh _ := hx.recover hh
  finish := .finish
  withScope := h.withScope
  withFunction := h.withFunction
  holding := h.holding
  top := h.top
  skip := stays fun _ => rfl
  stuck := stays fun _ => rfl
  after := .bind
  placed := .mapFailure
  weaken := id
  push _ m := h.operands m _
  operand := operand
  unary _ hx := hx.bind fun _ => h.operateOn _
  binary _ hx hy := hx.bind fun _ => (operand hy).bind fun _ => h.operateOn _

end Conserved

namespace Discipline

variable {prog : Program P} (D : Discipline prog) {E : Evaluator P}

theorem bindParams (params : List String) (args : List Value) :
    D.keeps (Evaluator.bindParams params args : Exec P Unit) := by
  induction params generalizing args with
  | nil => exact D.pure ()
  | cons param params ih =>
    cases args with
    | nil => exact D.pure ()
    | cons arg args => exact D.bind (D.define param arg) fun _ => ih args

theorem asBody (params : List String) (args : List Value) {x : Exec P Signal} (h : D.keeps x) :
    D.keeps (Exec.asBody params args x) := by
  refine D.bind (D.bindParams params args) fun _ => ?_
  refine D.bind (D.traced h) fun signal => ?_
  cases signal with
  | ret v => exact D.pure _
  | _ => exact D.pure _

theorem calledBy {α : Type} {call : Call} {next : Option (Callee P) → Exec P α}
    (h : ∀ m, D.keeps (next (prog.callee? m call))) :
    D.keeps (Exec.callee prog call >>= next) := by
  classical
  -- Where the name never leads, it does not matter what goes on.
  let met (callee : Option (Callee P)) : Exec P α :=
    if ∃ m, prog.callee? m call = callee then next callee else throw .outOfFuel
  have hmet (m : Machine P) : met (prog.callee? m call) = next (prog.callee? m call) :=
    if_pos ⟨m, rfl⟩
  have hsame : Exec.callee prog call >>= next = Exec.callee prog call >>= met :=
    funext fun m => (congrFun (hmet m) m).symm
  rw [hsame]
  refine D.bind (D.callee call) fun callee => ?_
  by_cases hcallee : ∃ m, prog.callee? m call = callee
  · obtain ⟨m, rfl⟩ := hcallee
    rw [hmet]
    exact h m
  · have hunmet : met callee = throw .outOfFuel := if_neg hcallee
    rw [hunmet]
    exact D.outOfFuel

def regime : Regime prog where
  toRegions := .code
  keeps _ := D.keeps
  yields _ := D.yields
  puts _ := D.puts
  pure := D.pure
  bind := D.bind
  fail h := D.fail (e := .of _) h
  outOfFuel := D.outOfFuel
  world := D.world
  root := D.root
  callee h := D.calledBy fun m => h m trivial
  act := D.act
  invoked := D.invoked
  advance := D.advance
  define := D.define
  store := D.store
  located _ := D.located
  recover := D.recover
  finish := D.finish
  withScope := D.withScope
  withFunction _ h _ := D.withFunction (D.asBody _ _ h)
  holding _ := D.holding
  top := D.top
  skip := D.skip
  stuck := D.stuck
  after := D.after
  placed _ := D.placed
  weaken := D.weaken
  push := D.push
  operand _ := D.operand
  unary := D.unary
  binary op _ := D.binary op

def Parts (E : Evaluator P) : Prop :=
  D.regime.Parts E

theorem parts (n : Nat) : D.Parts (prog.evaluator n) :=
  D.regime.parts n

theorem body (hE : D.Parts E) (f : Declaration) (args : List Value) : D.keeps (E.body f args) := by
  rw [Evaluator.body_eq]
  exact D.asBody f.params args (D.regime.stmts hE (List.Subset.refl f.sites))

theorem evalExpr (n : Nat) (e : Expr) : D.yields (prog.evalExpr n e) :=
  (D.parts n).expr e (List.Subset.refl e.sites)

theorem enter (n : Nat) (entry : Entry) : D.keeps (prog.enter n entry) :=
  D.regime.enter n entry

end Discipline

end HostScript
