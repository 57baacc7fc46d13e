import HostScript.Proofs.Exec.Discipline
import HostScript.Workbench.Scripts

/-!
# What a limit of calls does to a run

The calls in progress at a moment of a run can be told from what it has noted so far (`inProgress`).
With a limit they are never more than that, and a call is refused where as many are in progress
already. That is all a limit does: a run in which no call is refused is the same run without the
limit (`enter_within_limit`).
-/

namespace HostScript

variable {P : Platform} {α β : Type}

namespace Calls

variable {calls calls' : Calls} {frame : Frame} {d : Nat}

theorem exhausted?_eq_some :
    calls.exhausted? = some d ↔ calls.limit = some d ∧ d ≤ calls.depth := by
  simp [exhausted?, Option.filter_eq_some_iff]

theorem exhausted?_eq_none :
    calls.exhausted? = none ↔ ∀ d, calls.limit = some d → calls.depth < d := by
  simp [exhausted?, Option.filter_eq_none_iff]

theorem push_eq_ok : calls.push frame = .ok calls' ↔
    calls.exhausted? = none ∧ calls' = { calls with frames := frame :: calls.frames } := by
  unfold push
  cases calls.exhausted? with
  | none => simp [eq_comm]
  | some limit => simp

end Calls

-- ---------------------------------------------------------------------------
-- The calls in progress
-- ---------------------------------------------------------------------------

/-- The calls in progress after some events, the latest first, if those given were before them. -/
def inProgress (frames : List Frame) : List (Event P) → List Frame
  | [] => frames
  | .entered _ _ calls :: _ => calls
  | .left _ calls _ _ :: _ => calls.tail
  | _ :: earlier => inProgress frames earlier

theorem inProgress_append (frames : List Frame) (later earlier : List (Event P)) :
    inProgress frames (later ++ earlier) = inProgress (inProgress frames earlier) later := by
  induction later with
  | nil => rfl
  | cons e later ih => cases e <;> simp [inProgress, ih]

/-- What happens next to calls in progress: one more, which the limit allows, or one that it does
not allow, or the most recent one is over. -/
def Event.Follows (calls : Calls) : Event P → Prop
  | .entered f _ frames => ∃ site calls', calls.push ⟨f.name, site⟩ = .ok calls' ∧
    frames = calls'.frames
  | .left f frames _ _ =>
    frames = calls.frames ∧ ∃ site below, frames = ⟨f.name, site⟩ :: below
  | .refused _ => ∃ limit, calls.exhausted? = some limit
  | _ => True

def Charted (calls : Calls) : List (Event P) → Prop :=
  Throughout fun earlier e => e.Follows { calls with frames := inProgress calls.frames earlier }

namespace Charted

variable {calls : Calls} {events later first : List (Event P)}

theorem nil (calls : Calls) : Charted calls ([] : List (Event P)) :=
  Throughout.nil _

theorem append (h : Charted calls first)
    (h' : Charted { calls with frames := inProgress calls.frames first } later) :
    Charted calls (later ++ first) := by
  refine Throughout.append h h' fun newer e he => ?_
  rwa [inProgress_append]

theorem cons {e : Event P} (h : Charted calls events)
    (he : e.Follows { calls with frames := inProgress calls.frames events }) :
    Charted calls (e :: events) :=
  Throughout.cons h he

theorem before (h : Charted calls (later ++ first)) : Charted calls first :=
  Throughout.before h

theorem within {d : Nat} (h : Charted calls events) (hlimit : calls.limit = some d)
    (hdepth : calls.depth ≤ d) : (inProgress calls.frames events).length ≤ d := by
  induction events with
  | nil => exact hdepth
  | cons e events ih =>
    have hsplit : Charted calls ([e] ++ events) := h
    have hearlier := ih hsplit.before
    have he := h [] e events rfl
    cases e with
    | entered f caller frames =>
      obtain ⟨site, calls', hpush, rfl⟩ := he
      obtain ⟨hroom, rfl⟩ := Calls.push_eq_ok.mp hpush
      exact Calls.exhausted?_eq_none.mp hroom d hlimit
    | left f frames scopes failure =>
      obtain ⟨rfl, -⟩ := he
      rw [inProgress, List.length_tail]
      exact Nat.le_trans (Nat.sub_le _ _) hearlier
    | _ => exact hearlier

end Charted

structure Machine.Tracks (m m' : Machine P) : Prop where
  calls : m'.calls = m.calls
  journal : ∃ events, m'.journal = events ++ m.journal ∧ Charted m.calls events ∧
    inProgress m.calls.frames events = m.calls.frames

namespace Machine.Tracks

variable {m m' m'' : Machine P}

theorem refl (m : Machine P) : m.Tracks m :=
  ⟨rfl, [], rfl, .nil _, rfl⟩

theorem trans (h : m.Tracks m') (h' : m'.Tracks m'') : m.Tracks m'' := by
  obtain ⟨events, hj, hcharted, hsame⟩ := h.journal
  obtain ⟨events', hj', hcharted', hsame'⟩ := h'.journal
  rw [h.calls] at hcharted' hsame'
  refine ⟨h'.calls.trans h.calls, events' ++ events, ?_, ?_, ?_⟩
  · rw [hj', hj, List.append_assoc]
  · refine hcharted.append ?_
    rw [hsame]
    exact hcharted'
  · rw [inProgress_append, hsame, hsame']

theorem noted {m' : Machine P} (hcalls : m'.calls = m.calls) (e : Event P)
    (hj : m'.journal = e :: m.journal) (hfollows : e.Follows m.calls)
    (hsame : inProgress m.calls.frames [e] = m.calls.frames) : m.Tracks m' :=
  ⟨hcalls, [e], hj, (Charted.nil _).cons hfollows, hsame⟩

theorem of_marked (h : m.Marked m') : m.Tracks m' := by
  obtain ⟨-, hcalls, -, events, hj, hmarks⟩ := h
  have hsame : ∀ events : List (Event P), (∀ e ∈ events, e.IsMark) →
      inProgress m.calls.frames events = m.calls.frames := by
    intro events hmarks
    induction events with
    | nil => rfl
    | cons e events ih =>
      obtain ⟨he, hrest⟩ := List.forall_mem_cons.mp hmarks
      cases e <;> first | exact he.elim | exact ih hrest
  refine ⟨hcalls, events, hj, fun later e earlier hsplit => ?_, hsame events hmarks⟩
  have he := hmarks e (by simp [hsplit])
  cases e <;> first | exact he.elim | trivial

theorem call {f : Declaration} {site : Option Position} {calls : Calls} {failure : Option Failure}
    (hc : m.calls.push ⟨f.name, site⟩ = .ok calls) (h : (m.enterCall f calls).Tracks m') :
    m.Tracks (m'.leaveCall f m.current failure) := by
  obtain ⟨events, hj, hcharted, hsame⟩ := h.journal
  obtain ⟨hframes, hpop⟩ := Calls.push_pops hc
  have hcalls : m'.calls = calls := h.calls
  have hlimit : calls.limit = m.calls.limit := by rw [(Calls.push_eq_ok.mp hc).2]
  have hentered : Charted (P := P) m.calls [.entered f m.current calls.frames] :=
    (Charted.nil _).cons ⟨site, calls, hc, rfl⟩
  have hinside : Charted m.calls (events ++ [.entered f m.current calls.frames]) := by
    refine hentered.append ?_
    rw [← hlimit]
    exact hcharted
  have hduring : inProgress m.calls.frames (events ++ [.entered f m.current calls.frames]) =
      calls.frames := by
    rw [inProgress_append]
    exact hsame
  have hleft : Event.Follows (P := P)
      { m.calls with
        frames := inProgress m.calls.frames (events ++ [.entered f m.current calls.frames]) }
      (.left f m'.calls.frames m'.scopes.stack failure) := by
    rw [hduring, hcalls]
    exact ⟨rfl, site, _, hframes⟩
  refine ⟨(congrArg Calls.pop hcalls).trans hpop,
    .left f m'.calls.frames m'.scopes.stack failure ::
      (events ++ [.entered f m.current calls.frames]), ?_, hinside.cons hleft, ?_⟩
  · rw [List.cons_append, List.append_assoc]
    exact congrArg (_ :: ·) hj
  · rw [inProgress, hcalls, hframes]
    rfl

end Machine.Tracks

instance : IsPreorder (Machine P) Machine.Tracks where
  refl := Machine.Tracks.refl
  trans _ _ _ := Machine.Tracks.trans

namespace Exec

theorem tracks_withScope {x : Exec P α} (h : Leads Machine.Tracks x) :
    Leads Machine.Tracks (withScope x) := by
  intro m
  have hinside : m.Tracks (x m.enterBlock).2 := by
    obtain ⟨hcalls, events, hj, hrest⟩ := h m.enterBlock
    exact ⟨hcalls, events, hj, hrest⟩
  exact hinside.trans (.noted rfl (.leftBlock (x m.enterBlock).2.scopes.stack) rfl trivial rfl)

theorem tracks_withFunction {f : Declaration} {site : Option Position} {x : Exec P α}
    (h : Leads Machine.Tracks x) : Leads Machine.Tracks (withFunction f site x) := by
  intro m
  cases hc : m.calls.push ⟨f.name, site⟩ with
  | error e =>
    have hexhausted : ∃ limit, m.calls.exhausted? = some limit := by
      cases hlimit : m.calls.exhausted? with
      | none => simp [Calls.push, hlimit] at hc
      | some limit => exact ⟨limit, rfl⟩
    rw [withFunction_refused hc]
    exact .noted rfl (.refused f) rfl hexhausted rfl
  | ok calls =>
    rw [withFunction_entered hc]
    exact .call hc (h (m.enterCall f calls))

end Exec

theorem tracks_conserved (prog : Program P) : Conserved prog Machine.Tracks :=
  .of_marked (fun _ _ => .of_marked) Exec.tracks_withScope Exec.tracks_withFunction

-- ---------------------------------------------------------------------------
-- Runs under another limit
-- ---------------------------------------------------------------------------

def Looser (limit limit' : Option Nat) : Prop :=
  ∀ d', limit' = some d' → ∃ d, limit = some d ∧ d ≤ d'

theorem Looser.refl (limit : Option Nat) : Looser limit limit :=
  fun d h => ⟨d, h, Nat.le_refl d⟩

def Machine.under (m : Machine P) (limit : Option Nat) : Machine P :=
  { m with calls := { m.calls with limit } }

theorem Calls.push_looser {calls calls' : Calls} {frame : Frame} {limit : Option Nat}
    (h : calls.push frame = .ok calls') (hl : Looser calls.limit limit) :
    Calls.push { calls with limit } frame = .ok { calls' with limit } := by
  obtain ⟨hroom, rfl⟩ := push_eq_ok.mp h
  refine push_eq_ok.mpr ⟨exhausted?_eq_none.mpr fun d' hd' => ?_, rfl⟩
  obtain ⟨d, hd, hle⟩ := hl d' hd'
  exact Nat.lt_of_lt_of_le (exhausted?_eq_none.mp hroom d hd) hle

/-- What is done from every machine is done in the same way under every looser limit, if no call is
refused meanwhile. -/
def Relaxes (run : Machine P → β × Machine P) : Prop :=
  ∀ m, ∃ events, (run m).2.journal = events ++ m.journal ∧
    ((∀ f, .refused f ∉ events) → ∀ limit, Looser m.calls.limit limit →
      run (m.under limit) = ((run m).1, (run m).2.under limit))

namespace Relaxes

variable {run : Machine P → β × Machine P}

theorem heedless (hsame : ∀ m limit, run (m.under limit) = ((run m).1, (run m).2.under limit))
    (hj : ∀ m, ∃ events, (run m).2.journal = events ++ m.journal) : Relaxes run := by
  intro m
  obtain ⟨events, hj⟩ := hj m
  exact ⟨events, hj, fun _ limit _ => hsame m limit⟩

theorem still (hsame : ∀ m limit, run (m.under limit) = ((run m).1, (run m).2.under limit))
    (hj : ∀ m, (run m).2.journal = m.journal) : Relaxes run :=
  .heedless hsame fun m => ⟨[], hj m⟩

theorem ended (b : β) : Relaxes fun m : Machine P => (b, m) :=
  .still (fun _ _ => rfl) fun _ => rfl

theorem map {γ : Type} (g : β → γ) (h : Relaxes run) :
    Relaxes fun m => (g (run m).1, (run m).2) := by
  intro m
  obtain ⟨events, hj, hsame⟩ := h m
  refine ⟨events, hj, fun hno limit hl => ?_⟩
  simp only [hsame hno limit hl]

theorem next {γ : Type} {run' : Machine P → γ × Machine P} (h : Relaxes run)
    (h' : ∀ b, ∃ rest, Relaxes rest ∧ ∀ m m', run m = (b, m') → run' m = rest m') :
    Relaxes run' := by
  intro m
  obtain ⟨events, hj, hsame⟩ := h m
  obtain ⟨rest, hrest, hrun⟩ := h' (run m).1
  obtain ⟨events', hj', hsame'⟩ := hrest (run m).2
  rw [hrun m _ rfl]
  refine ⟨events' ++ events, ?_, fun hno limit hl => ?_⟩
  · rw [hj', hj, List.append_assoc]
  · have hfirst := hsame fun f hf => hno f (List.mem_append_right _ hf)
    -- What is done second is done under the same limit: a run under its own limit is no other run.
    have hlimit : (run m).2.calls.limit = m.calls.limit :=
      congrArg (fun r => r.2.calls.limit) (hfirst m.calls.limit (.refl _))
    rw [hrun _ _ (hfirst limit hl)]
    exact hsame' (fun f hf => hno f (List.mem_append_left _ hf)) limit (hlimit ▸ hl)

variable {x : Exec P α}

theorem bind {f : α → Exec P β} (hx : Relaxes x) (hf : ∀ a, Relaxes (f a)) :
    Relaxes (x >>= f) := by
  refine hx.next fun outcome => ?_
  rcases outcome with halt | a
  · exact ⟨_, .ended (.error halt), fun _ _ h => Exec.bind_error h⟩
  · exact ⟨f a, hf a, fun _ _ h => Exec.bind_ok h⟩

theorem mapFailure {f : Machine P → Failure → Failure} (hx : Relaxes x)
    (hf : ∀ m limit, f (m.under limit) = f m) : Relaxes (x.mapFailure f) := by
  refine hx.next fun outcome => ⟨fun m => (Exec.changed (f m) outcome, m), ?_, fun m m' h => ?_⟩
  · exact .still (fun m limit => by rw [hf m limit]) fun _ => rfl
  · rw [Exec.mapFailure_apply, h]

theorem recover {handler : Failure → Exec P α} (hx : Relaxes x)
    (hh : ∀ e, Relaxes (handler e)) :
    Relaxes (x.recover handler) := by
  refine hx.next fun outcome => ?_
  rcases outcome with (e | _) | a
  · exact ⟨handler e, hh e, fun _ _ h => Exec.recover_failed h⟩
  · exact ⟨_, .ended _, fun _ _ h => Exec.recover_outOfFuel h⟩
  · exact ⟨_, .ended _, fun _ _ h => Exec.recover_ok h⟩

theorem finish {x cleanup : Exec P Signal} (hx : Relaxes x) (hy : Relaxes cleanup) :
    Relaxes (x.finish cleanup) := by
  refine hx.next fun outcome => ?_
  by_cases ho : outcome = .error .outOfFuel
  · subst ho
    exact ⟨_, .ended _, fun _ _ h => Exec.finish_outOfFuel h⟩
  · exact ⟨_, hy.map (Exec.overriding outcome), fun _ _ h => Exec.finish_apply h ho⟩

theorem andThen {y : Exec P Unit} (hx : Relaxes x) (hy : Relaxes y) : Relaxes (x.andThen y) := by
  refine hx.next fun outcome => ⟨_, hy.map (Exec.firstFailure outcome), fun m m' h => ?_⟩
  rw [Exec.andThen_apply, h]

theorem act (x : Act P α) : Relaxes (Exec.act x) := by
  refine .heedless (fun m limit => ?_) fun m => ?_ <;> rcases h : x m.world with ⟨e | a, w⟩
  · rw [Exec.act_error h, Exec.act_error (m := m.under limit) h]
    rfl
  · rw [Exec.act_ok h, Exec.act_ok (m := m.under limit) h]
    rfl
  · rw [Exec.act_error h]
    exact ⟨[.faulted e], rfl⟩
  · rw [Exec.act_ok h]
    exact ⟨[], rfl⟩

theorem note (e : Event P) : Relaxes (Exec.note e) :=
  .heedless (fun _ _ => rfl) fun _ => ⟨[e], rfl⟩

theorem noting {events : Except Halt α → List (Event P)} (hx : Relaxes x) :
    Relaxes (x.noting events) := by
  refine hx.next fun outcome =>
    ⟨fun m => (outcome, { m with journal := events outcome ++ m.journal }),
    .heedless (fun _ _ => rfl) fun _ => ⟨events outcome, rfl⟩, fun m m' h => ?_⟩
  rw [Exec.noting, h]

theorem withScope (hx : Relaxes x) : Relaxes (Exec.withScope x) := by
  have hinside : Relaxes fun m => x m.enterBlock := fun m => hx m.enterBlock
  refine hinside.next fun outcome => ⟨fun m => (outcome, m.leaveBlock),
    .heedless (fun _ _ => rfl) fun m => ⟨[.leftBlock m.scopes.stack], rfl⟩, fun m m' h => ?_⟩
  rw [Exec.withScope_apply, h]

theorem withFunction {f : Declaration} {site : Option Position} (hx : Relaxes x) :
    Relaxes (Exec.withFunction f site x) := by
  intro m
  cases hc : m.calls.push ⟨f.name, site⟩ with
  | error e =>
    rw [Exec.withFunction_refused hc]
    exact ⟨[.refused f], rfl, fun hno => absurd (List.mem_singleton_self _) (hno f)⟩
  | ok calls =>
    obtain ⟨events, hj, hsame⟩ := hx (m.enterCall f calls)
    have hlimit : calls.limit = m.calls.limit := by rw [(Calls.push_eq_ok.mp hc).2]
    rw [Exec.withFunction_entered hc]
    rcases hm : x (m.enterCall f calls) with ⟨outcome, m'⟩
    rw [hm] at hj hsame
    refine ⟨.left f m'.calls.frames m'.scopes.stack (Exec.failure? outcome) ::
      (events ++ [.entered f m.current calls.frames]), ?_, fun hno limit hl => ?_⟩
    · rw [List.cons_append, List.append_assoc]
      exact congrArg (_ :: ·) hj
    · have hinside : x ((m.enterCall f calls).under limit) = (outcome, m'.under limit) := by
        refine hsame (fun g hg => hno g ?_) limit (hlimit ▸ hl)
        exact List.mem_cons_of_mem _ (List.mem_append_left _ hg)
      -- A call that is not refused is not refused under a looser limit.
      have hpush : (m.under limit).calls.push ⟨f.name, site⟩ = .ok { calls with limit } :=
        Calls.push_looser hc hl
      have henter : (m.under limit).enterCall f { calls with limit } =
          (m.enterCall f calls).under limit := rfl
      rw [Exec.withFunction_entered hpush, henter, hinside]
      rfl

theorem top {x : Exec P Unit} (hx : Relaxes x) : Relaxes (Exec.top x) := by
  intro m
  obtain ⟨events, hj, hsame⟩ := hx { m with operands := [] }
  refine ⟨events, ?_, fun hno limit hl => ?_⟩
  · rw [Exec.top_apply]
    exact hj
  · have hinside : x { m.under limit with operands := [] } = _ := hsame hno limit hl
    rw [Exec.top_apply, Exec.top_apply, hinside]
    rfl

theorem operate (task : Calculator Unit) : Relaxes (Exec.operate task : Exec P Unit) :=
  .still (fun _ _ => rfl) fun _ => rfl

theorem operateOn (task : View → Calculator Unit) :
    Relaxes (do Exec.operate (task (← Exec.view)) : Exec P Unit) :=
  bind (.still (fun _ _ => rfl) fun _ => rfl) fun view => .operate (task view)

theorem root {prog : Program P} (name : String) : Relaxes (Exec.root prog name) := by
  intro m
  cases h : prog.resolveRoot? m name with
  | none =>
    rw [Exec.root_unbound h]
    exact ⟨[], rfl, fun _ _ _ => Exec.root_unbound h⟩
  | some v =>
    rw [Exec.root_bound h]
    exact ⟨[], rfl, fun _ _ _ => Exec.root_bound h⟩

theorem operand {p : Position} {x : Exec P Unit} (hx : Relaxes x) : Relaxes (Exec.operand p x) := by
  let depth : Exec P Nat := fun m => (.ok m.operands.length, m)
  have hdepth : Relaxes depth := .still (fun _ _ => rfl) fun _ => rfl
  have hoperand : Exec.operand p x = depth >>= fun before => x >>= fun _ => depth >>= fun after =>
      if after = before then Exec.located p (Exec.fail (.noResult "operand")) else pure () := rfl
  rw [hoperand]
  refine hdepth.bind fun before => hx.bind fun _ => hdepth.bind fun after => ?_
  split <;> exact .ended _

end Relaxes

theorem relaxes_lenient (prog : Program P) : Lenient prog fun x => Relaxes x where
  pure a := .ended (Except.ok a)
  bind := .bind
  world := .still (fun _ _ => rfl) fun _ => rfl
  act {_} {x} _ := .act x
  note _ := .note _
  noting hx _ _ := hx.noting
  located _ hx := hx.mapFailure fun _ _ => rfl
  andThen := .andThen

def relaxing (prog : Program P) : Discipline prog where
  keeps x := Relaxes x
  yields x := Relaxes x
  puts x := Relaxes x
  pure := (relaxes_lenient prog).pure
  bind := (relaxes_lenient prog).bind
  fail _ := .ended _
  outOfFuel := .ended _
  world := (relaxes_lenient prog).world
  root name := .root name
  callee _ := .still (fun _ _ => rfl) fun _ => rfl
  act h := (relaxes_lenient prog).act (.serves h)
  invoked _ := .note _
  advance := (relaxes_lenient prog).advance
  define _ _ := .still (fun _ _ => rfl) fun _ => rfl
  store _ _ := .still (fun _ _ => rfl) fun _ => rfl
  located := (relaxes_lenient prog).located trivial
  traced hx := hx.mapFailure fun _ _ => rfl
  recover hx hh _ := hx.recover hh
  finish := .finish
  withScope := .withScope
  withFunction := .withFunction
  holding := (relaxes_lenient prog).holding trivial
  top := .top
  skip := .ended _
  stuck := .ended _
  after := .bind
  placed hx := hx.mapFailure fun _ _ => rfl
  weaken := id
  push _ := .operate _
  operand := .operand
  unary _ hx := hx.bind fun _ => .operateOn _
  binary _ hx hy := hx.bind fun _ => hy.operand.bind fun _ => .operateOn _

/-- With a limit of `d` calls, whatever a host asks for: at no moment are more calls in progress,
and a call is refused only where as many are. There every call with the right number of arguments
is; it fails, and nothing else comes of it, nor of a call with the wrong number, which fails for
that. If no call is refused, then under every larger limit and under none the run is the same, and
so is all that it leaves. -/
theorem enter_within_limit (prog : Program P) (fuel : Nat) (entry : Entry) (m : Machine P) (d : Nat)
    (hlimit : m.calls.limit = some d) (hdepth : m.calls.depth ≤ d) :
    (∃ events, (prog.enter fuel entry m).2.journal = events ++ m.journal ∧
      (prog.enter fuel entry m).2.calls = m.calls ∧
      Charted m.calls events ∧
      (∀ later earlier, events = later ++ earlier →
        (inProgress m.calls.frames earlier).length ≤ d) ∧
      (∀ later f earlier, events = later ++ .refused f :: earlier →
        (inProgress m.calls.frames earlier).length = d) ∧
      ((∀ f, .refused f ∉ events) → ∀ limit, (∀ d', limit = some d' → d ≤ d') →
        prog.enter fuel entry (m.under limit) =
          ((prog.enter fuel entry m).1, (prog.enter fuel entry m).2.under limit))) ∧
    ∀ (f : Declaration) (args : List Value) (site : Option Position) (m : Machine P),
      m.calls.limit = some d → d ≤ m.calls.depth →
        (args.length = f.params.length →
          (prog.evaluator fuel).callScript f args site m =
            (.error (.failed (.of (.stackOverflow d))), m.noted (.refused f))) ∧
        (args.length ≠ f.params.length →
          (prog.evaluator fuel).callScript f args site m =
            (.error (.failed (.of (.parameterMismatch f.params.length args.length))), m)) := by
  constructor
  · obtain ⟨hcalls, events, hj, hcharted, -⟩ :=
      (tracks_conserved prog).discipline.enter fuel entry m
    obtain ⟨events', hj', hsame⟩ := (relaxing prog).enter fuel entry m
    obtain rfl := List.append_cancel_right (hj.symm.trans hj')
    have hwithin (later earlier : List (Event P)) (hsplit : events = later ++ earlier) :
        (inProgress m.calls.frames earlier).length ≤ d := by
      subst hsplit
      exact hcharted.before.within hlimit hdepth
    refine ⟨events, hj, hcalls, hcharted, hwithin, fun later f earlier hsplit => ?_,
      fun hno limit hl => hsame hno limit fun d' hd' => ⟨d, hlimit, hl d' hd'⟩⟩
    obtain ⟨limit, hexhausted⟩ := hcharted later (.refused f) earlier hsplit
    obtain ⟨hd, hfull⟩ := Calls.exhausted?_eq_some.mp hexhausted
    cases hlimit.symm.trans hd
    exact Nat.le_antisymm (hwithin (later ++ [.refused f]) earlier (by simp [hsplit])) hfull
  · intro f args site m hlimit hfull
    refine ⟨fun hlength => ?_, fun hlength => ?_⟩
    · have hpush : m.calls.push ⟨f.name, site⟩ = .error (.of (.stackOverflow d)) := by
        rw [Calls.push, Calls.exhausted?_eq_some.mpr ⟨hlimit, hfull⟩]
      rw [Evaluator.callScript, if_pos hlength, Exec.withFunction_refused hpush]
      rfl
    · rw [Evaluator.callScript, if_neg hlength]
      rfl

def Event.refused? : Event P → Option Declaration
  | .refused f => some f
  | _ => none

namespace Workbench

def inner : Declaration :=
  ⟨"inner", [], [], ⟨"main", 2, 1⟩⟩

def outer : Declaration :=
  ⟨"outer", [], [⟨.expr ⟨.call ⟨"inner", [], false, here⟩, here⟩, here⟩],
    ⟨"main", 1, 1⟩⟩

def calling : Program platform :=
  ⟨host, ⟨[("outer", outer), ("inner", inner)]⟩, .empty⟩

/-- Two calls are enough for `outer`, which runs without a limit as it does with that one. One is
too few. -/
theorem outer_within_limit :
    (idle.under (some 2)).calls.limit = some 2 ∧ (idle.under (some 2)).calls.depth ≤ 2 ∧
      (calling.enter 5 (.call "outer" []) (idle.under (some 2))).2.journal.filterMap
        Event.refused? = [] ∧
      calling.enter 5 (.call "outer" []) idle =
        ((calling.enter 5 (.call "outer" []) (idle.under (some 2))).1,
          (calling.enter 5 (.call "outer" []) (idle.under (some 2))).2.under none) ∧
      ((calling.enter 5 (.call "outer" []) (idle.under (some 1))).2.journal.filterMap
        Event.refused?).map Declaration.name = ["inner"] := by
  have hnone : (calling.enter 5 (.call "outer" []) (idle.under (some 2))).2.journal.filterMap
      Event.refused? = [] := by rfl
  obtain ⟨⟨events, hj, -, -, -, -, hsame⟩, -⟩ :=
    enter_within_limit calling 5 (.call "outer" []) (idle.under (some 2)) 2 rfl (Nat.zero_le 2)
  refine ⟨rfl, Nat.zero_le 2, hnone, hsame (fun f hf => ?_) none nofun, by rfl⟩
  rw [hj] at hnone
  have hrefused := List.filterMap_eq_nil_iff.mp hnone (.refused f) (List.mem_append_left _ hf)
  exact absurd hrefused nofun

def hasty : Declaration :=
  ⟨"hasty", [],
    [⟨.expr ⟨.call ⟨"inner", [⟨.int 1, here⟩], false, here⟩, here⟩, here⟩],
    ⟨"main", 3, 1⟩⟩

def hurrying : Program platform :=
  ⟨host, ⟨[("hasty", hasty), ("inner", inner)]⟩, .empty⟩

/-- In the body of `hasty`, where one call is in progress and no more than one may be. -/
def hurried : Machine platform :=
  (idle.under (some 1)).enterCall hasty ⟨[⟨"hasty", none⟩], some 1⟩

/-- A call with an argument too many is not refused where as many calls are in progress as there may
be: that it has one too many is found before the limit is asked. -/
theorem hasty_not_refused :
    (idle.under (some 1)).calls.push ⟨"hasty", none⟩ = .ok hurried.calls ∧
      hurried.calls.limit = some 1 ∧ hurried.calls.depth = 1 ∧
      (hurrying.evaluator 4).callScript inner [.int 1] (some here) hurried =
        (.error (.failed (.of (.parameterMismatch 0 1))), hurried) ∧
      Exec.failure? (hurrying.enter 5 (.call "hasty" []) (idle.under (some 1))).1 =
        some ⟨.parameterMismatch 0 1, some here, some [⟨"hasty", none⟩]⟩ ∧
      (hurrying.enter 5 (.call "hasty" []) (idle.under (some 1))).2.journal.filterMap
        Event.refused? = [] := by
  refine ⟨rfl, rfl, rfl, rfl, ?_, rfl⟩
  decide +kernel

end Workbench

end HostScript
