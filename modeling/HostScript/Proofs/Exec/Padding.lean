import HostScript.Proofs.Exec.Locality
import HostScript.Proofs.Names.Padding

/-!
# Runs with one scope more

A machine with one scope more that binds nothing does what the machine does without it, unless
something is bound in that scope (`Program.oblivious`): it ends the same and leaves the same, with
that scope among the others. Only the handles that are noted when blocks and functions end tell the
two apart.
-/

namespace HostScript

variable {P : Platform} {α β : Type}

def Event.unscoped? : Event P → Option (Event P)
  | .leftBlock _ => none
  | .left f calls _ failure => some (.left f calls [] failure)
  | e => some e

def Machine.unscoped (m : Machine P) : List (Event P) :=
  m.journal.filterMap Event.unscoped?

-- ---------------------------------------------------------------------------
-- Names stay
-- ---------------------------------------------------------------------------

def Machine.Growing (m m' : Machine P) : Prop :=
  m.scopes.Growing m'.scopes

instance : IsPreorder (Machine P) Machine.Growing where
  refl m := .refl m.scopes
  trans _ _ _ := Scopes.Growing.trans

namespace Exec

theorem growing_of_scopes {x : Exec P α} (h : ∀ m, (x m).2.scopes = m.scopes) :
    Leads Machine.Growing x := by
  intro m
  rw [Machine.Growing, h m]
  exact .refl m.scopes

theorem growing_act (x : Act P α) : Leads Machine.Growing (act x) := by
  refine growing_of_scopes fun m => ?_
  unfold act
  rcases x m.world with ⟨_ | _, _⟩ <;> rfl

theorem growing_withScope {x : Exec P α} (h : Leads Machine.Growing x) :
    Leads Machine.Growing (withScope x) :=
  fun m => Scopes.Growing.pop m.scopes.current_lt (h m.enterBlock)

theorem growing_withFunction {f : Declaration} {site : Option Position} {x : Exec P α}
    (h : Leads Machine.Growing x) : Leads Machine.Growing (withFunction f site x) := by
  intro m
  cases hc : m.calls.push ⟨f.name, site⟩ with
  | error e =>
    rw [withFunction_refused hc]
    exact Scopes.Growing.refl m.scopes
  | ok calls =>
    rw [withFunction_entered hc]
    exact Scopes.Growing.pop m.scopes.global_lt (h (m.enterCall f calls))

end Exec

-- ---------------------------------------------------------------------------
-- Machines
-- ---------------------------------------------------------------------------

/-- The same machine, but that there is one scope more, which binds nothing. -/
structure Machine.Padded (k : Handle) (m m' : Machine P) : Prop where
  scopes : m.scopes.Padded k m'.scopes
  operands : m'.operands = m.operands
  calls : m'.calls = m.calls
  current : m'.current = m.current
  world : m'.world = m.world
  unscoped : m'.unscoped = m.unscoped

namespace Machine.Padded

variable {k : Handle} {m m' n n' : Machine P}

theorem callee? (h : m.Padded k m') (prog : Program P) (call : Call) :
    prog.callee? m' call = prog.callee? m call := by
  have hroot : prog.resolveRoot? m' = prog.resolveRoot? m := by
    funext name
    simp only [Program.resolveRoot?, h.scopes.lookup]
  have hresolve : prog.resolve? m' = prog.resolve? m := by
    funext name
    simp only [Program.resolve?, hroot, h.world]
  simp only [Program.callee?, Program.callingUnit, Program.hostCallee?, hresolve,
    h.world, h.current]

theorem noted (h : m.Padded k m') {d e : Event P} (he : d.unscoped? = e.unscoped?) :
    (m.noted e).Padded k (m'.noted d) :=
  { h with
    unscoped := by
      have hjournal : m'.journal.filterMap Event.unscoped? = m.journal.filterMap Event.unscoped? :=
        h.unscoped
      change (d :: m'.journal).filterMap Event.unscoped? =
        (e :: m.journal).filterMap Event.unscoped?
      simp only [List.filterMap_cons, he, hjournal] }

theorem enterBlock (h : m.Padded k m') : m.enterBlock.Padded k m'.enterBlock :=
  { h with scopes := h.scopes.push }

theorem leaveBlock (h : m.Padded k m') (hn : n.Padded k n') (hg : m.enterBlock.Growing n)
    (hg' : m'.enterBlock.Growing n') : n.leaveBlock.Padded k n'.leaveBlock :=
  { hn.noted (e := .leftBlock n.scopes.stack) (d := .leftBlock n'.scopes.stack) rfl with
    scopes := h.scopes.pop m.scopes.current_lt m'.scopes.current_lt hg.shape hg'.shape
      hn.scopes.bindings hn.scopes.blank }

theorem enterCall (h : m.Padded k m') (f : Declaration) (calls : Calls) :
    (m.enterCall f calls).Padded k (m'.enterCall f calls) :=
  { h.noted (e := .entered f m.current calls.frames) (d := .entered f m'.current calls.frames)
      (by rw [h.current]) with
    scopes := h.scopes.pushRoot
    calls := rfl
    current := rfl }

theorem leaveCall {f : Declaration} {calls : Calls} (h : m.Padded k m') (hn : n.Padded k n')
    (hg : (m.enterCall f calls).Growing n) (hg' : (m'.enterCall f calls).Growing n')
    (failure : Option Failure) :
    (n.leaveCall f m.current failure).Padded k (n'.leaveCall f m'.current failure) :=
  { hn.noted (e := .left f n.calls.frames n.scopes.stack failure)
      (d := .left f n'.calls.frames n'.scopes.stack failure)
      (by simp only [Event.unscoped?, hn.calls]) with
    scopes := h.scopes.pop m.scopes.global_lt m'.scopes.global_lt hg.shape hg'.shape
      hn.scopes.bindings hn.scopes.blank
    calls := by simp only [Machine.leaveCall, hn.calls]
    current := h.current }

end Machine.Padded

-- ---------------------------------------------------------------------------
-- Computations
-- ---------------------------------------------------------------------------

/-- Names that are bound stay bound, and with one scope more, which binds nothing in the end, the
computation does the same. -/
structure Exec.Oblivious (k : Handle) (x : Exec P α) : Prop where
  grows : Leads Machine.Growing x
  pads : ∀ {m m' n' outcome}, m.Padded k m' → x m' = (outcome, n') →
    n'.scopes.bindings k = [] → ∃ n, x m = (outcome, n) ∧ n.Padded k n'

namespace Exec.Oblivious

variable {k : Handle} {x : Exec P α} {prog : Program P}

theorem blank {m n : Machine P} {outcome : Except Halt α} (hx : Oblivious k x)
    (h : x m = (outcome, n)) (hn : n.scopes.bindings k = []) : m.scopes.bindings k = [] := by
  have hgrows := hx.grows m
  rw [h] at hgrows
  exact hgrows.grows k hn

theorem still {outcome : Machine P → Except Halt α} (h : ∀ m, x m = (outcome m, m))
    (hsame : ∀ m m', m.Padded k m' → outcome m' = outcome m) : Oblivious k x where
  grows := growing_of_scopes fun m => by rw [h m]
  pads {m m' n' _} hm hx _ := by
    rw [h m', hsame m m' hm] at hx
    cases hx
    exact ⟨m, h m, hm⟩

theorem bind {f : α → Exec P β} (hx : Oblivious k x) (hf : ∀ a, Oblivious k (f a)) :
    Oblivious k (x >>= f) where
  grows := hx.grows.bind fun a => (hf a).grows
  pads {m m' n' outcome} hm hrun hn := by
    rcases h : x m' with ⟨halt | a, m₁'⟩
    · rw [bind_error h] at hrun
      cases hrun
      obtain ⟨m₁, h₁, hm₁⟩ := hx.pads hm h hn
      exact ⟨m₁, bind_error h₁, hm₁⟩
    · rw [bind_ok h] at hrun
      obtain ⟨m₁, h₁, hm₁⟩ := hx.pads hm h ((hf a).blank hrun hn)
      rw [bind_ok h₁]
      exact (hf a).pads hm₁ hrun hn

theorem reads {γ : Type} (look : Machine P → γ) {f : γ → Exec P α}
    (hlook : ∀ m m', m.Padded k m' → look m' = look m) (hf : ∀ c, Oblivious k (f c)) :
    Oblivious k (get >>= fun m => f (look m)) where
  grows m := (hf (look m)).grows m
  pads {m m' _ _} hm hrun hn := by
    obtain ⟨n, h, hn⟩ := (hf (look m')).pads hm hrun hn
    rw [hlook m m' hm] at h
    exact ⟨n, h, hn⟩

theorem mapFailure {f : Machine P → Failure → Failure} (hx : Oblivious k x)
    (hf : ∀ m m' : Machine P, m.Padded k m' → f m' = f m) : Oblivious k (x.mapFailure f) where
  grows := hx.grows.mapFailure
  pads {m m' n' outcome} hm hrun hn := by
    rcases h : x m' with ⟨outcome', m₁'⟩
    rw [mapFailure_apply, h] at hrun
    cases hrun
    obtain ⟨m₁, h₁, hm₁⟩ := hx.pads hm h hn
    refine ⟨m₁, ?_, hm₁⟩
    rw [mapFailure_apply, h₁, hf m₁ _ hm₁]

theorem located {p : Position} (hx : Oblivious k x) : Oblivious k (x.located p) :=
  hx.mapFailure fun _ _ _ => rfl

theorem traced (hx : Oblivious k x) : Oblivious k x.traced :=
  hx.mapFailure fun m m' hm => by rw [hm.calls]

theorem recover {handler : Failure → Exec P α} (hx : Oblivious k x)
    (hh : ∀ e, Oblivious k (handler e)) : Oblivious k (x.recover handler) where
  grows := hx.grows.recover fun e => (hh e).grows
  pads {m m' n' outcome} hm hrun hn := by
    rcases h : x m' with ⟨(e | _) | a, m₁'⟩
    · rw [recover_failed h] at hrun
      obtain ⟨m₁, h₁, hm₁⟩ := hx.pads hm h ((hh e).blank hrun hn)
      rw [recover_failed h₁]
      exact (hh e).pads hm₁ hrun hn
    · rw [recover_outOfFuel h] at hrun
      cases hrun
      obtain ⟨m₁, h₁, hm₁⟩ := hx.pads hm h hn
      exact ⟨m₁, recover_outOfFuel h₁, hm₁⟩
    · rw [recover_ok h] at hrun
      cases hrun
      obtain ⟨m₁, h₁, hm₁⟩ := hx.pads hm h hn
      exact ⟨m₁, recover_ok h₁, hm₁⟩

theorem finish {x cleanup : Exec P Signal} (hx : Oblivious k x) (hy : Oblivious k cleanup) :
    Oblivious k (x.finish cleanup) where
  grows := hx.grows.finish hy.grows
  pads {m m' n' outcome} hm hrun hn := by
    rcases h : x m' with ⟨outcome', m₁'⟩
    by_cases hout : outcome' = .error .outOfFuel
    · subst hout
      rw [finish_outOfFuel h] at hrun
      cases hrun
      obtain ⟨m₁, h₁, hm₁⟩ := hx.pads hm h hn
      exact ⟨m₁, finish_outOfFuel h₁, hm₁⟩
    · rcases hc : cleanup m₁' with ⟨after, m₂'⟩
      rw [finish_apply h hout, hc] at hrun
      cases hrun
      obtain ⟨m₁, h₁, hm₁⟩ := hx.pads hm h (hy.blank hc hn)
      obtain ⟨m₂, h₂, hm₂⟩ := hy.pads hm₁ hc hn
      refine ⟨m₂, ?_, hm₂⟩
      rw [finish_apply h₁ hout, h₂]

theorem andThen {y : Exec P Unit} (hx : Oblivious k x) (hy : Oblivious k y) :
    Oblivious k (x.andThen y) where
  grows := hx.grows.andThen hy.grows
  pads {m m' n' outcome} hm hrun hn := by
    rcases h : x m' with ⟨outcome', m₁'⟩
    rcases hc : y m₁' with ⟨after, m₂'⟩
    rw [andThen_apply, h, hc] at hrun
    cases hrun
    obtain ⟨m₁, h₁, hm₁⟩ := hx.pads hm h (hy.blank hc hn)
    obtain ⟨m₂, h₂, hm₂⟩ := hy.pads hm₁ hc hn
    refine ⟨m₂, ?_, hm₂⟩
    rw [andThen_apply, h₁, h₂]

-- ---------------------------------------------------------------------------
-- Objects and operands
-- ---------------------------------------------------------------------------

theorem world : Oblivious k (Exec.world : Exec P (World P)) :=
  still (fun _ => rfl) fun _ _ hm => congrArg Except.ok hm.world

theorem view : Oblivious k (Exec.view : Exec P View) :=
  still (fun _ => rfl) fun _ _ hm => congrArg (Except.ok <| World.view ·) hm.world

theorem root (name : String) : Oblivious k (Exec.root prog name) := by
  have hroot (m : Machine P) : Exec.root prog name m =
      ((prog.resolveRoot? m name).elim (.error (.failed (.of (.undefinedVariable name)))) .ok,
        m) := by
    cases hr : prog.resolveRoot? m name with
    | some v => exact root_bound hr
    | none => exact root_unbound hr
  refine still hroot fun m m' hm => ?_
  simp only [Program.resolveRoot?, hm.scopes.lookup]

theorem act (x : Act P α) : Oblivious k (Exec.act x) where
  grows := growing_act x
  pads {m m' n' outcome} hm hrun _ := by
    rcases hw : x m'.world with ⟨e | a, w⟩
    · rw [act_error hw] at hrun
      cases hrun
      have hw' : x m.world = (.error e, w) := by rw [← hm.world, hw]
      exact ⟨_, act_error hw', { hm.noted (e := .faulted e) rfl with world := rfl }⟩
    · rw [act_ok hw] at hrun
      cases hrun
      have hw' : x m.world = (.ok a, w) := by rw [← hm.world, hw]
      exact ⟨_, act_ok hw', { hm with world := rfl }⟩

theorem note (e : Event P) : Oblivious k (Exec.note e) where
  grows := growing_of_scopes fun _ => rfl
  pads {m _ _ _} hm hrun _ := by
    cases hrun
    exact ⟨m.noted e, rfl, hm.noted rfl⟩

theorem noting {events : Except Halt α → List (Event P)} (hx : Oblivious k x) :
    Oblivious k (x.noting events) where
  grows := hx.grows
  pads {m m' n' outcome} hm hrun hn := by
    rcases h : x m' with ⟨outcome', m₁'⟩
    rw [Exec.noting, h] at hrun
    cases hrun
    obtain ⟨m₁, h₁, hm₁⟩ := hx.pads hm h hn
    refine ⟨{ m₁ with journal := events outcome ++ m₁.journal }, by rw [Exec.noting, h₁],
      { hm₁ with unscoped := ?_ }⟩
    have hjournal := hm₁.unscoped
    simp only [Machine.unscoped, List.filterMap_append] at hjournal ⊢
    rw [hjournal]

theorem define (name : String) (v : Value) :
    Oblivious k (Exec.scoping (P := P) (·.define name v)) where
  grows m := .define m.scopes name v
  pads {m _ _ _} hm hrun hn := by
    cases hrun
    exact ⟨_, rfl, { hm with scopes := hm.scopes.define hn }⟩

theorem store (name : String) (v : Value) :
    Oblivious k (Exec.scoping (P := P) (·.store name v)) where
  grows m := .store m.scopes name v
  pads {m _ _ _} hm hrun hn := by
    cases hrun
    exact ⟨_, rfl, { hm with scopes := hm.scopes.store hn }⟩

theorem withScope (hx : Oblivious k x) : Oblivious k (Exec.withScope x) where
  grows := growing_withScope hx.grows
  pads {m m' n' outcome} hm hrun hn := by
    rcases h : x m'.enterBlock with ⟨outcome', n₁'⟩
    have hg' := hx.grows m'.enterBlock
    rw [h] at hg'
    rw [withScope_apply, h] at hrun
    cases hrun
    have hblank : n₁'.scopes.bindings k = [] :=
      (Scopes.bindings_pop m'.scopes.current_lt hg'.shape hm.scopes.lt_size).symm.trans hn
    obtain ⟨n₁, h₁, hn₁⟩ := hx.pads hm.enterBlock h hblank
    have hg := hx.grows m.enterBlock
    rw [h₁] at hg
    refine ⟨n₁.leaveBlock, ?_, hm.leaveBlock hn₁ hg hg'⟩
    rw [withScope_apply, h₁]

theorem withFunction {f : Declaration} {site : Option Position} (hx : Oblivious k x) :
    Oblivious k (Exec.withFunction f site x) where
  grows := growing_withFunction hx.grows
  pads {m m' n' outcome} hm hrun hn := by
    cases hc : m'.calls.push ⟨f.name, site⟩ with
    | error e =>
      rw [withFunction_refused hc] at hrun
      cases hrun
      exact ⟨_, withFunction_refused (hm.calls ▸ hc), hm.noted (e := .refused f) rfl⟩
    | ok calls =>
      rcases h : x (m'.enterCall f calls) with ⟨outcome', n₁'⟩
      have hg' := hx.grows (m'.enterCall f calls)
      rw [h] at hg'
      rw [withFunction_entered hc, h] at hrun
      cases hrun
      have hblank : n₁'.scopes.bindings k = [] :=
        (Scopes.bindings_pop m'.scopes.global_lt hg'.shape hm.scopes.lt_size).symm.trans hn
      obtain ⟨n₁, h₁, hn₁⟩ := hx.pads (hm.enterCall f calls) h hblank
      have hg := hx.grows (m.enterCall f calls)
      rw [h₁] at hg
      refine ⟨n₁.leaveCall f m.current (failure? outcome'), ?_, hm.leaveCall hn₁ hg hg' _⟩
      rw [withFunction_entered (hm.calls ▸ hc), h₁]

theorem operate (task : Calculator Unit) : Oblivious k (Exec.operate task : Exec P Unit) where
  grows := growing_of_scopes fun _ => rfl
  pads {m m' _ _} hm hrun _ := by
    unfold Exec.operate at hrun ⊢
    rw [hm.operands] at hrun
    cases hrun
    exact ⟨_, rfl, { hm with operands := rfl }⟩

theorem top {x : Exec P Unit} (hx : Oblivious k x) : Oblivious k (Exec.top x) where
  grows m := by
    rw [top_apply]
    exact hx.grows { m with operands := [] }
  pads {m m' n' outcome} hm hrun hn := by
    rcases h : x { m' with operands := [] } with ⟨outcome', n₁'⟩
    rw [top_apply, h] at hrun
    cases hrun
    have hon : Machine.Padded k { m with operands := [] } { m' with operands := [] } :=
      { hm with operands := rfl }
    obtain ⟨n₁, h₁, hn₁⟩ := hx.pads hon h hn
    refine ⟨{ n₁ with operands := m.operands }, ?_, { hn₁ with operands := hm.operands }⟩
    rw [top_apply, h₁, hn₁.operands]

theorem operand {p : Position} {x : Exec P Unit} (hx : Oblivious k x) :
    Oblivious k (Exec.operand p x) := by
  let check (before after : Nat) : Exec P Unit :=
    if after = before then Exec.located p (Exec.fail (.noResult "operand")) else pure ()
  have hoperand : Exec.operand p x = get >>= fun m => x >>= fun _ => get >>= fun m' =>
      check m.operands.length m'.operands.length := rfl
  have hlength (m m' : Machine P) (hm : m.Padded k m') :
      m'.operands.length = m.operands.length := by
    rw [hm.operands]
  rw [hoperand]
  refine reads (·.operands.length) (f := fun before => x >>= fun _ => get >>= fun m' =>
    check before m'.operands.length) hlength fun before => hx.bind fun _ => ?_
  refine reads (·.operands.length) (f := check before) hlength fun after => ?_
  by_cases h : after = before
  · simp only [check, if_pos h]
    exact located (still (fun _ => rfl) fun _ _ _ => rfl)
  · simp only [check, if_neg h]
    exact still (fun _ => rfl) fun _ _ _ => rfl

end Exec.Oblivious

theorem oblivious_lenient (prog : Program P) (k : Handle) :
    Lenient prog (Exec.Oblivious k) where
  pure _ := .still (fun _ => rfl) fun _ _ _ => rfl
  bind := .bind
  world := .world
  act {_} {x} _ := .act x
  note _ := .note _
  noting hx _ _ := hx.noting
  located _ := .located
  andThen := .andThen

def Program.oblivious (prog : Program P) (k : Handle) : Discipline prog where
  keeps := Exec.Oblivious k
  yields := Exec.Oblivious k
  puts := Exec.Oblivious k
  pure := (oblivious_lenient prog k).pure
  bind := .bind
  fail _ := .still (fun _ => rfl) fun _ _ _ => rfl
  outOfFuel := .still (fun _ => rfl) fun _ _ _ => rfl
  world := .world
  root := .root
  callee call := .still (fun _ => rfl) fun _ _ hm => congrArg Except.ok (hm.callee? prog call)
  act {_} {x} _ := .act x
  invoked _ := .note _
  advance := (oblivious_lenient prog k).advance
  define := .define
  store := .store
  located := .located
  traced := .traced
  recover hx hh _ := hx.recover hh
  finish := .finish
  withScope := .withScope
  withFunction := .withFunction
  holding := (oblivious_lenient prog k).holding trivial
  top := .top
  skip := .still (fun _ => rfl) fun _ _ _ => rfl
  stuck := .still (fun _ => rfl) fun _ _ _ => rfl
  after := .bind
  placed := .located
  weaken := id
  push _ := .operate _
  operand := .operand
  unary _ hx := hx.bind fun _ => .bind .view fun _ => .operate _
  binary _ hx hy := hx.bind fun _ => hy.operand.bind fun _ => .bind .view fun _ => .operate _

-- ---------------------------------------------------------------------------
-- A scope more around a part
-- ---------------------------------------------------------------------------

structure Machine.SameState (m m' : Machine P) : Prop where
  scopes : m'.scopes = m.scopes
  operands : m'.operands = m.operands
  calls : m'.calls = m.calls
  current : m'.current = m.current
  world : m'.world = m.world
  unscoped : m'.unscoped = m.unscoped

theorem Machine.SameState.symm {m m' : Machine P} (h : m.SameState m') : m'.SameState m :=
  ⟨h.scopes.symm, h.operands.symm, h.calls.symm, h.current.symm, h.world.symm, h.unscoped.symm⟩

structure Exec.SameRun (r r' : Except Halt α × Machine P) : Prop where
  outcome : r'.1 = r.1
  state : r.2.SameState r'.2

theorem Exec.SameRun.symm {r r' : Except Halt α × Machine P} (h : SameRun r r') : SameRun r' r :=
  ⟨h.outcome.symm, h.state.symm⟩

namespace Machine.Padded

variable {k : Handle} {m m' n : Machine P}

theorem entered (m : Machine P) : m.Padded m.scopes.cells.size m.enterBlock :=
  ⟨.pushed m.scopes, rfl, rfl, rfl, rfl, rfl⟩

theorem congr (h : m.Padded k m') (hn : m.SameState n) : n.Padded k m' where
  scopes := hn.scopes ▸ h.scopes
  operands := h.operands.trans hn.operands.symm
  calls := h.calls.trans hn.calls.symm
  current := h.current.trans hn.current.symm
  world := h.world.trans hn.world.symm
  unscoped := h.unscoped.trans hn.unscoped.symm

section

variable {base : Scopes} (h : m.Padded base.cells.size m') (hbase : base.SameShape m.scopes)
  (hbase' : base.push.SameShape m'.scopes)
include h hbase hbase'

theorem left : m'.leaveBlock.SameState m where
  scopes := (h.scopes.popped hbase hbase').symm
  operands := h.operands.symm
  calls := h.calls.symm
  current := h.current.symm
  world := h.world.symm
  unscoped := h.unscoped.symm

theorem reentered : m.enterBlock.SameState m' where
  scopes := h.scopes.repushed hbase hbase'
  operands := h.operands
  calls := h.calls
  current := h.current
  world := h.world
  unscoped := h.unscoped

end

end Machine.Padded

section

variable {x : Exec P Signal} (hx : ∀ k, Exec.Oblivious k x)
  (hconfined : Exec.Leads Machine.Confined x)
include hx hconfined

/-- It makes no difference whether a computation runs in one new scope or in two. -/
theorem Exec.nested_scopes {m w : Machine P} (h : m.enterBlock.SameState w) :
    SameRun ((x w).1, (x w).2.leaveBlock) (withScope (withScope x) m) := by
  let k := m.scopes.cells.size
  have hpadded : w.Padded k m.enterBlock.enterBlock :=
    (Machine.Padded.entered m).enterBlock.congr h
  have hne : k ≠ m.enterBlock.enterBlock.scopes.current := by
    have hsize : m.enterBlock.enterBlock.scopes.current = k + 1 := Array.size_push _
    exact fun he => Nat.ne_of_lt (Nat.lt_succ_self k) (he.trans hsize)
  have hv := hconfined m.enterBlock.enterBlock
  have hgv := (hx k).grows m.enterBlock.enterBlock
  rcases hrun : x m.enterBlock.enterBlock with ⟨outcome, v⟩
  rw [hrun] at hv hgv
  -- Names are bound in the current scope, so that the one below it stays blank.
  have hblank : v.scopes.bindings k = [] := by
    refine Table.eq_nil_of_has fun name => ?_
    rw [hv.names k hne, hpadded.scopes.blank]
    rfl
  obtain ⟨w', hrun', hpadded'⟩ := (hx k).pads hpadded hrun hblank
  have hgw : m.enterBlock.Growing w' := by
    have hgrows := (hx k).grows w
    rw [hrun', Machine.Growing, h.scopes] at hgrows
    exact hgrows
  have hleft : w'.leaveBlock.Padded k v.leaveBlock :=
    (Machine.Padded.entered m).leaveBlock hpadded' hgw hgv
  rw [withScope_apply, withScope_apply, hrun, hrun']
  refine ⟨rfl, (hleft.left ?_ ?_).symm⟩
  · exact .pop_pushBelow m.scopes.current_lt hgw.shape
  · exact .pop_pushBelow m.enterBlock.scopes.current_lt hgv.shape

/-- If a test binds no name, it makes no difference whether it runs inside the scope of what it
guards or before it, nor whether there is one scope more around that. -/
theorem Exec.guard_moves {test : Exec P Bool} {m : Machine P} (htest : ∀ k, Oblivious k test)
    (hnames : m.enterBlock.SameNames (test m.enterBlock).2) :
    SameRun (withScope (do if ← test then x else return .normal) m)
      ((do if ← test then withScope (withScope x) else return .normal : Exec P Signal) m) := by
  let k := m.scopes.cells.size
  have hw := (htest k).grows m.enterBlock
  have hu := (htest k).grows m
  rcases hrun : test m.enterBlock with ⟨outcome, w⟩
  rw [hrun] at hnames hw
  have hblank : w.scopes.bindings k = [] := by
    refine Table.eq_nil_of_has fun name => ?_
    rw [hnames.names, (Machine.Padded.entered m).scopes.blank]
    rfl
  obtain ⟨u, hrun', hpadded⟩ := (htest k).pads (.entered m) hrun hblank
  rw [hrun'] at hu
  rw [withScope_apply]
  rcases outcome with halt | _ | _
  · rw [bind_error hrun, bind_error hrun']
    exact ⟨rfl, hpadded.left hu.shape hw.shape⟩
  · rw [bind_ok hrun, bind_ok hrun']
    exact ⟨rfl, hpadded.left hu.shape hw.shape⟩
  · rw [bind_ok hrun, bind_ok hrun']
    exact nested_scopes hx hconfined (hpadded.reentered hu.shape hw.shape)

end

end HostScript
