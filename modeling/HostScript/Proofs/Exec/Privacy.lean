import HostScript.Proofs.Exec.Backtraces
import HostScript.Proofs.Exec.Restoration
import HostScript.Proofs.Names.Functions

/-!
# Private functions stay private

A call sees the private functions of the unit of the function that runs. That function is at every
moment the one that the most recent call in progress is of, since a call that is over, however it
ended, leaves the one that runs before it. So where no name has the mark in it that keys are made
with, a private function is only ever entered from its own unit (`private_calls_stay_in_unit`).
-/

namespace HostScript

variable {P : Platform} {prog : Program P} {α : Type}

def callerUnit (caller : Option Declaration) (p : Position) : String :=
  (caller.map (·.pos.unit)).getD p.unit

theorem Program.callingUnit_eq (m : Machine P) (call : Call) :
    Program.callingUnit m call = callerUnit m.current call.pos := by
  unfold Program.callingUnit callerUnit
  cases m.current <;> rfl

/-- Regions that are told apart by what stands in them and by the function that runs there. -/
def Regions.callers : Regions where
  Region := List Site × Option Declaration
  sites region := region.1
  body f := (f.sites, some f)
  entry e := (e.sites, none)
  finds region site unit := unit = (site.map (callerUnit region.2)).getD Position.hostUnit
  sites_body _ := rfl
  sites_entry _ := rfl
  finds_host _ := rfl

/-- A function begins to run while others do, the innermost first: it was found by a name from the
unit of the innermost, which is the one that the machine says runs. Or the innermost one is over. -/
def Event.Attested (prog : Program P) (code : List Site) (fs : List Declaration) : Event P → Prop
  | .entered f caller frames => caller = fs.head? ∧ Stacked prog code (f :: fs) frames ∧
      ∃ name site, frames.head? = some ⟨f.name, site⟩ ∧
        .call name site ∈ innermost code fs ∧
        ∀ p, site = some p → prog.functions.lookup? (callerUnit caller p) name = some f
  | .left f frames _ _ => Stacked prog code fs frames ∧ fs.head? = some f
  | _ => True

def Attested (prog : Program P) (code : List Site) (fs : List Declaration) :
    List (Event P) → Prop :=
  Throughout fun earlier e => e.Attested prog code (running fs earlier)

theorem Attested.append {code : List Site} {fs : List Declaration} {later first : List (Event P)}
    (h : Attested prog code fs first) (h' : Attested prog code (running fs first) later) :
    Attested prog code fs (later ++ first) := by
  refine Throughout.append h h' fun newer e he => ?_
  rwa [running_append]

structure Machine.Stands (m : Machine P) (prog : Program P) (code : List Site)
    (fs : List Declaration) (region : Regions.callers.Region) : Prop where
  stacked : Stacked prog code fs m.calls.frames
  code : innermost code fs = region.1
  head : fs.head? = region.2
  current : m.current = region.2

/-- A machine is left with the same calls in progress and the same function running, and all
functions that began meanwhile are attested and over. -/
structure Attests (prog : Program P) (code : List Site) (fs : List Declaration) (m m' : Machine P)
    (events : List (Event P)) : Prop where
  journal : m'.journal = events ++ m.journal
  calls : m'.calls = m.calls
  current : m'.current = m.current
  ended : running fs events = fs
  attested : Attested prog code fs events

def Watched (prog : Program P) (region : Regions.callers.Region) (m m' : Machine P) : Prop :=
  ∀ code fs, m.Stands prog code fs region → ∃ events, Attests prog code fs m m' events

section
variable {code : List Site} {fs : List Declaration} {region : Regions.callers.Region}
  {m m' m'' : Machine P} {events events' : List (Event P)}

theorem Attests.aside (hj : m'.journal = events ++ m.journal) (hcalls : m'.calls = m.calls)
    (hcurrent : m'.current = m.current) (he : ∀ e ∈ events, e.IsAside) :
    Attests prog code fs m m' events := by
  refine ⟨hj, hcalls, hcurrent, running_aside he fs, fun later e earlier hsplit => ?_⟩
  have haside := he e (by simp [hsplit])
  cases e <;> first | exact haside.elim | trivial

theorem Attests.trans (h : Attests prog code fs m m' events)
    (h' : Attests prog code fs m' m'' events') :
    Attests prog code fs m m'' (events' ++ events) where
  journal := by rw [h'.journal, h.journal, List.append_assoc]
  calls := h'.calls.trans h.calls
  current := h'.current.trans h.current
  ended := by rw [running_append, h.ended, h'.ended]
  attested := h.attested.append (h.ended.symm ▸ h'.attested)

instance (region : Regions.callers.Region) : IsPreorder (Machine P) (Watched prog region) where
  refl m code fs _ := ⟨[], .aside rfl rfl rfl (List.forall_mem_nil _)⟩
  trans m m' m'' h h' code fs hm := by
    obtain ⟨events, ha⟩ := h code fs hm
    have hm' : m'.Stands prog code fs region :=
      ⟨ha.calls ▸ hm.stacked, hm.code, hm.head, ha.current.trans hm.current⟩
    obtain ⟨events', ha'⟩ := h' code fs hm'
    exact ⟨events' ++ events, ha.trans ha'⟩

theorem Attests.call {f : Declaration} {name : String} {site : Option Position} {calls : Calls}
    {failure : Option Failure} (hm : m.Stands prog code fs region)
    (hname : .call name site ∈ region.1)
    (hf : prog.functions.lookup? ((site.map (callerUnit region.2)).getD Position.hostUnit) name =
      some f)
    (hc : m.calls.push ⟨f.name, site⟩ = .ok calls)
    (h : Attests prog code (f :: fs) (m.enterCall f calls) m' events) :
    Attests prog code fs m (m'.leaveCall f m.current failure)
      (.left f m'.calls.frames m'.scopes.stack failure ::
        (events ++ [.entered f m.current calls.frames])) := by
  obtain ⟨hframes, hpop⟩ := Calls.push_pops hc
  have hcalls : m'.calls = calls := h.calls
  have hinside : Stacked prog code (f :: fs) calls.frames :=
    hframes ▸ .cons (hm.code ▸ ⟨name, _, hname, hf⟩) hm.stacked
  have hentered : Event.Attested prog code fs (.entered f m.current calls.frames) := by
    refine ⟨hm.current.trans hm.head.symm, hinside, name, site, by rw [hframes]; rfl,
      hm.code ▸ hname, ?_⟩
    rintro p rfl
    rwa [hm.current]
  have hduring : running fs (events ++ [.entered f m.current calls.frames]) = f :: fs := by
    rw [running_append]
    exact h.ended
  have hbegun : Attested prog code fs [.entered f m.current calls.frames] :=
    Throughout.cons (Throughout.nil _) hentered
  have hattested : Attested prog code fs (events ++ [.entered f m.current calls.frames]) :=
    hbegun.append h.attested
  refine ⟨?_, (congrArg Calls.pop hcalls).trans hpop, rfl, ?_, Throughout.cons hattested ?_⟩
  · rw [List.cons_append, List.append_assoc]
    exact congrArg (_ :: ·) h.journal
  · rw [running_left, hduring]
    rfl
  · rw [hduring, hcalls]
    exact ⟨hinside, rfl⟩

end

-- ---------------------------------------------------------------------------
-- Computations
-- ---------------------------------------------------------------------------

namespace Exec

variable {region : Regions.callers.Region} {x : Exec P α}

theorem watched_of_marked (m m' : Machine P) (h : m.Marked m') : Watched prog region m m' := by
  obtain ⟨-, hcalls, hcurrent, events, hj, hmarks⟩ := h
  exact fun code fs _ => ⟨events, .aside hj hcalls hcurrent fun e he => (hmarks e he).isAside⟩

theorem watched_withScope (hx : Leads (Watched prog region) x) :
    Leads (Watched prog region) (withScope x) := by
  intro m code fs hm
  obtain ⟨events, ha⟩ := hx m.enterBlock code fs ⟨hm.stacked, hm.code, hm.head, hm.current⟩
  have hinside : Attests prog code fs m (x m.enterBlock).2 events :=
    ⟨ha.journal, ha.calls, ha.current, ha.ended, ha.attested⟩
  have hleft : Attests prog code fs (x m.enterBlock).2 (x m.enterBlock).2.leaveBlock
      [.leftBlock (x m.enterBlock).2.scopes.stack] :=
    .aside rfl rfl rfl fun _ he => List.mem_singleton.mp he ▸ trivial
  exact ⟨_, hinside.trans hleft⟩

theorem watched_top {x : Exec P Unit} (hx : Leads (Watched prog region) x) :
    Leads (Watched prog region) (top x) := by
  intro m code fs hm
  obtain ⟨events, ha⟩ := hx { m with operands := [] } code fs
    ⟨hm.stacked, hm.code, hm.head, hm.current⟩
  rw [top_apply]
  exact ⟨events, ha.journal, ha.calls, ha.current, ha.ended, ha.attested⟩

theorem watched_asBody {x : Exec P Signal} (params : List String) (args : List Value)
    (hx : Leads (Watched prog region) x) : Leads (Watched prog region) (asBody params args x) := by
  refine .bind (fun m => ?_) fun _ => hx.mapFailure.bind fun signal => ?_
  · obtain ⟨scopes, hbound⟩ := bindParams_apply params args m
    rw [hbound]
    exact fun code fs _ => ⟨[], .aside rfl rfl rfl (List.forall_mem_nil _)⟩
  · cases signal <;> exact Conserved.stays fun _ => rfl

theorem watched_withFunction {f : Declaration} {site : Option Position}
    (hs : Regions.callers.Calls prog region f site)
    (hx : Leads (Watched prog (Regions.callers.body f)) x) :
    Leads (Watched prog region) (withFunction f site x) := by
  intro m code fs hm
  obtain ⟨name, unit, hname, rfl, hf⟩ := hs
  cases hc : m.calls.push ⟨f.name, site⟩ with
  | error e =>
    rw [withFunction_refused hc]
    exact ⟨[.refused f], .aside rfl rfl rfl fun _ he => List.mem_singleton.mp he ▸ trivial⟩
  | ok calls =>
    obtain ⟨hframes, -⟩ := Calls.push_pops hc
    have hinside : (m.enterCall f calls).Stands prog code (f :: fs) (Regions.callers.body f) :=
      ⟨hframes ▸ .cons (hm.code ▸ ⟨name, _, hname, hf⟩) hm.stacked, rfl, rfl, rfl⟩
    obtain ⟨events, ha⟩ := hx (m.enterCall f calls) code (f :: fs) hinside
    rw [withFunction_entered hc]
    exact ⟨_, .call hm hname hf hc ha⟩

end Exec

def watching (prog : Program P) : Uniform prog where
  toRegions := .callers
  keeps region := Exec.Leads (Watched prog region)
  still hstill _ := Conserved.stays hstill
  bind := .bind
  callee h m code fs hm := by
    -- On this machine the function that runs is the one of the region.
    refine h m ?_ m code fs hm
    rw [Program.callingUnit_eq, hm.current]
    rfl
  act _ m := Exec.watched_of_marked m _ (Exec.marked_act _ m)
  note h m := Exec.watched_of_marked m _ (Exec.marked_note h m)
  noting hx h m :=
    IsTrans.trans _ _ _ (hx m) (Exec.watched_of_marked _ _ (Exec.marked_noting h m))
  define name v m := Exec.watched_of_marked m _ (.still (.define _ name v) rfl rfl rfl)
  store name v m := Exec.watched_of_marked m _ (.still (.store _ name v) rfl rfl rfl)
  operate _ m := Exec.watched_of_marked m _ (.still (.refl _) rfl rfl rfl)
  located _ := .mapFailure
  recover := .recover
  finish := .finish
  andThen := .andThen
  withScope := Exec.watched_withScope
  withFunction hs hx _ := Exec.watched_withFunction hs (Exec.watched_asBody _ _ hx)
  top := Exec.watched_top

-- ---------------------------------------------------------------------------
-- Sessions
-- ---------------------------------------------------------------------------

def Site.IsPlain : Site → Prop
  | .call name (some _) => IsPlainName name
  | _ => True

instance : DecidablePred Site.IsPlain
  | .call name (some _) => inferInstanceAs (Decidable (IsPlainName name))
  | .call _ none | .node _ => .isTrue trivial

section
variable {code : List Site} {f : Declaration} {fs : List Declaration} {frames : List Frame}

theorem Stacked.names (h : Stacked prog code fs frames) :
    frames.map Frame.name = fs.map Declaration.name := by
  induction h with
  | nil => rfl
  | cons _ _ ih => rw [List.map_cons, List.map_cons, ih]

theorem Functions.Holds.unit {Q : Declaration → Prop} {unit name : String}
    (h : prog.functions.Holds fun f => IsPlainName f.name ∧ Q f) (hname : IsPlainName name)
    (hf : prog.functions.lookup? unit name = some f) (hprivate : f.isPrivate) :
    unit = f.pos.unit := by
  obtain ⟨hkey, hplain, -⟩ := h.lookup hf
  exact (Functions.key_inj hname hplain hprivate hkey).1

theorem Stacked.plain {name : String} {p : Position}
    (h : prog.functions.Holds fun f => IsPlainName f.name ∧ ∀ s ∈ f.sites, s.IsPlain)
    (hcode : ∀ s ∈ code, s.IsPlain) (hstacked : Stacked prog code (f :: fs) frames)
    (hname : .call name (some p) ∈ innermost code fs) : IsPlainName name := by
  cases hstacked with
  | cons _ houter =>
    cases houter with
    | nil => exact hcode _ hname
    | cons hcall _ =>
      obtain ⟨_, _, -, hg⟩ := hcall
      exact (h.lookup hg).2.2 _ hname

end

/-- In a session of scripts whose functions have plain names and call by plain names, whatever a
host asks for by plain names while nothing runs: whenever a function is entered, the one that
runs is that of the most recent call in progress, none if there is no call; and a private
function that a call expression enters belongs to the unit of the one that runs or, outside of
all, to that of the expression. A function that is left is the one of the most recent call.
However a statement, an expression or a call ends, the function that runs and the calls in
progress are afterwards what they were. -/
theorem private_calls_stay_in_unit (host : Host P) (setup : Setup P) (world : World P)
    (session : Session P) (hbuild : Session.build host setup world = .ok session)
    (hscripts : ∀ script ∈ setup.scripts, ∀ f ∈ script.functions,
      IsPlainName f.name ∧ ∀ s ∈ f.sites, s.IsPlain)
    (fuel : Nat) (entry : Entry) (hentry : ∀ s ∈ entry.sites, s.IsPlain) (m : Machine P)
    (hframes : m.calls.frames = []) (hcurrent : m.current = none) :
    (∃ events, (session.program.enter fuel entry m).2.journal = events ++ m.journal ∧
      (session.program.enter fuel entry m).2.calls.frames = [] ∧
      (session.program.enter fuel entry m).2.current = none ∧
      (∀ later f caller frames earlier, events = later ++ .entered f caller frames :: earlier →
        caller = (running [] earlier).head? ∧
        frames.map Frame.name = (f :: running [] earlier).map Declaration.name ∧
        (caller = none ↔ frames.tail = []) ∧
        ∀ p, frames.head? = some ⟨f.name, some p⟩ → f.isPrivate →
          callerUnit caller p = f.pos.unit) ∧
      ∀ later f frames scopes failure earlier,
        events = later ++ .left f frames scopes failure :: earlier →
          (running [] earlier).head? = some f ∧
          frames.map Frame.name = (running [] earlier).map Declaration.name) ∧
    ∀ m : Machine P,
      (∀ e, (session.program.evalExpr fuel e m).2.current = m.current ∧
        (session.program.evalExpr fuel e m).2.calls = m.calls) ∧
      (∀ s, (session.program.execStmt fuel s m).2.current = m.current ∧
        (session.program.execStmt fuel s m).2.calls = m.calls) ∧
      ∀ f args site,
        ((session.program.evaluator fuel).callScript f args site m).2.current = m.current ∧
        ((session.program.evaluator fuel).callScript f args site m).2.calls = m.calls := by
  have hfunctions :=
    Session.build_holds hbuild fun script hscript f hf _ => hscripts script hscript f hf
  constructor
  · obtain ⟨events, ha⟩ := (watching session.program).regime.enter fuel entry m entry.sites []
      ⟨hframes ▸ .nil, rfl, rfl, hcurrent⟩
    refine ⟨events, ha.journal, ha.calls ▸ hframes, ha.current.trans hcurrent,
      fun later f caller frames earlier hsplit => ?_,
      fun later f frames scopes failure earlier hsplit => ?_⟩
    · obtain ⟨hcaller, hstacked, name, site, hhead, hname, hfound⟩ :=
        ha.attested later (.entered f caller frames) earlier hsplit
      have houter : frames.tail.map Frame.name = (running [] earlier).map Declaration.name := by
        simpa using congrArg List.tail hstacked.names
      refine ⟨hcaller, hstacked.names, ?_, fun p hp hprivate => ?_⟩
      · rw [hcaller, List.head?_eq_none_iff, ← List.map_eq_nil_iff, ← houter,
          List.map_eq_nil_iff]
      obtain rfl : site = some p := by
        rw [hhead] at hp
        cases hp
        rfl
      have hplain := hstacked.plain hfunctions hentry hname
      exact hfunctions.unit hplain (hfound p rfl) hprivate
    · obtain ⟨hstacked, hhead⟩ :=
        ha.attested later (.left f frames scopes failure) earlier hsplit
      exact ⟨hhead, hstacked.names⟩
  · intro m
    let D := (restored_conserved session.program).discipline
    have hparts := D.parts fuel
    refine ⟨fun e => ?_, fun s => ?_, fun f args site => ?_⟩
    · have h : Restored m _ := hparts.expr e (List.Subset.refl e.sites) m
      exact ⟨h.current, h.calls⟩
    · have h : Restored m _ := hparts.stmt s (List.Subset.refl s.sites) m
      exact ⟨h.current, h.calls⟩
    · have h : Restored m ((session.program.evaluator fuel).callScript f args site m).2 := by
        unfold Evaluator.callScript
        split
        · exact D.withFunction (D.body hparts f args) m
        · exact .refl m
      exact ⟨h.current, h.calls⟩

namespace Workbench

def callOf (name : String) (p : Position) : Stmt :=
  ⟨.expr ⟨.call ⟨name, [], false, p⟩, p⟩, p⟩

def secret : Declaration :=
  ⟨"_secret", [], [], ⟨"a", 1, 1⟩⟩

/-- The function `func reveal() { _secret() }` of unit `a`. -/
def reveal : Declaration :=
  ⟨"reveal", [], [callOf "_secret" ⟨"a", 3, 3⟩], ⟨"a", 2, 1⟩⟩

/-- The function `func main() { reveal() }` of unit `b`. -/
def visit : Declaration :=
  ⟨"main", [], [callOf "reveal" ⟨"b", 2, 3⟩], ⟨"b", 1, 1⟩⟩

def visitors : Setup platform :=
  ⟨[⟨[secret, reveal]⟩, ⟨[visit]⟩], .empty, none, []⟩

def visiting : Session platform :=
  ⟨⟨host, ⟨[("!a!_secret", secret), ("reveal", reveal), ("main", visit)]⟩, .empty⟩,
    Session.start visitors world⟩

/-- The private function is entered from its own unit, although the run begins in the other one. -/
theorem visiting_stays_in_unit :
    Session.build host visitors world = .ok visiting ∧
      (∀ script ∈ visitors.scripts, ∀ f ∈ script.functions,
        IsPlainName f.name ∧ ∀ s ∈ f.sites, s.IsPlain) ∧
      (∀ s ∈ Entry.main.sites, s.IsPlain) ∧
      visiting.machine.calls.frames = [] ∧ visiting.machine.current = none ∧
      ∃ later frames earlier, (visiting.program.enter 6 .main visiting.machine).2.journal =
          later ++ .entered secret (some reveal) frames :: earlier ∧
        callerUnit (some reveal) ⟨"a", 3, 3⟩ = secret.pos.unit := by
  have hbuild : Session.build host visitors world = .ok visiting := by rfl
  have hscripts : ∀ script ∈ visitors.scripts, ∀ f ∈ script.functions,
      IsPlainName f.name ∧ ∀ s ∈ f.sites, s.IsPlain := by decide
  have hentry : ∀ s ∈ Entry.main.sites, s.IsPlain := by decide
  obtain ⟨⟨events, hjournal, -, -, hentered, -⟩, -⟩ :=
    private_calls_stay_in_unit host visitors world
    visiting hbuild hscripts 6 .main hentry visiting.machine rfl rfl
  have hrun : ∃ later earlier, (visiting.program.enter 6 .main visiting.machine).2.journal =
      later ++ .entered secret (some reveal) [⟨"_secret", some ⟨"a", 3, 3⟩⟩,
        ⟨"reveal", some ⟨"b", 2, 3⟩⟩, ⟨"main", none⟩] :: earlier :=
    ⟨[_, _, _], [_, _], rfl⟩
  obtain ⟨later, earlier, hrun⟩ := hrun
  have hsplit := hjournal.symm.trans hrun
  obtain ⟨-, -, -, hunit⟩ :=
    hentered later _ _ _ earlier ((List.append_nil events).symm.trans hsplit)
  exact ⟨hbuild, hscripts, hentry, rfl, rfl, later, _, earlier, hrun, hunit _ rfl rfl⟩

/-- The function `func main() { !a!_secret() }` of unit `b`, which calls by a name that no script
can spell: the key of the private function. -/
def intrude : Declaration :=
  ⟨"main", [], [callOf "!a!_secret" ⟨"b", 2, 3⟩], ⟨"b", 1, 1⟩⟩

def intruders : Setup platform :=
  ⟨[⟨[secret]⟩, ⟨[intrude]⟩], .empty, none, []⟩

def intruding : Session platform :=
  ⟨⟨host, ⟨[("!a!_secret", secret), ("main", intrude)]⟩, .empty⟩,
    Session.start intruders world⟩

/-- That functions are declared with plain names does not keep private ones from being entered from
elsewhere, if calls can have other names. -/
theorem intruding_enters_private :
    Session.build host intruders world = .ok intruding ∧
      (∀ script ∈ intruders.scripts, ∀ f ∈ script.functions, IsPlainName f.name) ∧
      intruding.machine.calls.frames = [] ∧ intruding.machine.current = none ∧
      secret.isPrivate ∧ intrude.pos.unit ≠ secret.pos.unit ∧
      ∃ later earlier, (intruding.program.enter 6 .main intruding.machine).2.journal =
        later ++ .entered secret (some intrude)
          [⟨"_secret", some ⟨"b", 2, 3⟩⟩, ⟨"main", none⟩] :: earlier := by
  have hbuild : Session.build host intruders world = .ok intruding := by rfl
  have hnames : ∀ script ∈ intruders.scripts, ∀ f ∈ script.functions,
      IsPlainName f.name := by decide
  exact ⟨hbuild, hnames, rfl, rfl, rfl, by decide, [_, _], [_], rfl⟩

end Workbench

end HostScript
