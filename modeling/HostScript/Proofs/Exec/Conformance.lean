import HostScript.Proofs.Exec.Chronicle
import HostScript.Proofs.Object.Signature
import HostScript.Workbench.Scripts

/-!
# Host functions get what they declare

Whatever leads to a host function, it is only ever called with arguments that its signature admits,
as many as it declares and of the kinds that it declares. If an argument cannot be evaluated, spread
or turned into what is declared, it is not called at all (`host_calls_admitted`).
-/

namespace HostScript

variable {P : Platform}

/-- How a call of a host function goes on a machine, given what computes the arguments. If that
fails or what it gives does not fit, the call ends on the machine that the arguments were
computed on, so that the function is not called. If it fits, the function is called with what
its signature admits. -/
structure Supplied (prog : Program P) (f : Callable P) (given : Exec P (List Value))
    (call : Exec P (Option Value)) (m : Machine P) : Prop where
  failed {halt : Halt} {m' : Machine P} : given m = (.error halt, m') → call m = (.error halt, m')
  misfit {args : List Value} {index : Option Nat} {e : Failure} {m' : Machine P} :
    given m = (.ok args, m') → f.signature.bind m'.world.view args = .error (index, e) →
      ∃ e', (e' = e ∨ ∃ p, e' = e.locate p) ∧ call m = (.error (.failed e'), m')
  fit {args bound : List Value} {m' : Machine P} :
    given m = (.ok args, m') → f.signature.bind m'.world.view args = .ok bound →
      f.signature.Admits bound ∧ call m = Evaluator.invoke prog f bound m'

variable {prog : Program P} {E : Evaluator P} {f : Callable P} {m : Machine P}

theorem Evaluator.callHost_supplied (call : Call) :
    Supplied prog f (E.arguments prog call) (E.callHost prog f call) m where
  failed h := Exec.bind_error h
  misfit {_ index _ _} h hb := by
    rw [callHost, Exec.bind_ok h, Exec.bind_ok (Exec.view_apply _), hb]
    dsimp only
    cases index.bind (call.args[·]?) with
    | some arg => exact ⟨_, .inr ⟨arg.pos, rfl⟩, rfl⟩
    | none => exact ⟨_, .inl rfl, rfl⟩
  fit h hb := by
    rw [callHost, Exec.bind_ok h, Exec.bind_ok (Exec.view_apply _), hb]
    exact ⟨Signature.bind_admits hb, rfl⟩

theorem Evaluator.call_supplied {call : Call} (h : prog.callee? m call = some (.host f)) :
    Supplied prog f (E.arguments prog call) (E.call prog call) m := by
  have hcallee : Exec.callee prog call m = (.ok (some (.host f)), m) := by
    rw [← h]
    rfl
  have hcall : E.call prog call m = E.callHost prog f call m := by
    rw [Evaluator.call, Exec.bind_ok hcallee]
  have hsupplied : Supplied prog f (E.arguments prog call) (E.callHost prog f call) m :=
    E.callHost_supplied call
  exact ⟨fun h => hcall.trans (hsupplied.failed h),
    fun h hb => by rw [hcall]; exact hsupplied.misfit h hb,
    fun h hb => by rw [hcall]; exact hsupplied.fit h hb⟩

theorem Program.callByName_supplied {fuel : Nat} {name : String} {args : List Value}
    (hnone : prog.functions.lookup? Position.hostUnit name = none)
    (hf : prog.registry.builtin? name = some f) :
    Supplied prog f (pure args) (prog.callByName fuel name args) m where
  failed := nofun
  misfit {_ _ e _} h hb := by
    cases h
    rw [callByName, hnone, hf]
    dsimp only
    rw [Exec.bind_ok (Exec.view_apply _), hb]
    exact ⟨e, .inl rfl, rfl⟩
  fit h hb := by
    cases h
    rw [callByName, hnone, hf]
    dsimp only
    rw [Exec.bind_ok (Exec.view_apply _), hb]
    exact ⟨Signature.bind_admits hb, rfl⟩

def admitting (prog : Program P) : Chronicle prog where
  tells _ events _ := ∀ f args, .invoked f args ∈ events → f.signature.Admits args
  nothing _ _ _ := nofun
  append h h' f args he := (List.mem_append.mp he).elim (h' f args) (h f args)
  incident {e} _ he f args hmem := by
    cases List.mem_singleton.mp hmem
    exact he.elim
  invoked _ hb f args hmem := by
    cases List.mem_singleton.mp hmem
    exact Signature.bind_admits hb
  act _ _ _ _ := nofun
  create _ _ _ _ := nofun
  close _ _ _ _ := nofun
  next cursor w f args hmem := by
    rcases Evaluator.heard_cases hmem with ⟨_, _, _, h⟩ | ⟨_, h⟩ <;> cases h

/-- Whatever a host asks for and however it ends, each host function that is called meanwhile is
called with arguments that its signature admits. And each call of a host function, from a script or
by name from the host itself, calls it only if its arguments could be evaluated, and spread if that
is wanted, and turned into what is declared. -/
theorem host_calls_admitted (prog : Program P) (fuel : Nat) :
    (∀ entry m, ∃ events, (prog.enter fuel entry m).2.journal = events ++ m.journal ∧
      ∀ f args, .invoked f args ∈ events → f.signature.Admits args) ∧
    (∀ call m f, prog.callee? m call = some (.host f) →
      Supplied prog f ((prog.evaluator fuel).arguments prog call)
        ((prog.evaluator fuel).call prog call) m) ∧
    ∀ name args m f, prog.functions.lookup? Position.hostUnit name = none →
      prog.registry.builtin? name = some f →
      Supplied prog f (pure args) (prog.callByName fuel name args) m :=
  ⟨fun entry m => (admitting prog).enter fuel entry m, fun _ _ _ => Evaluator.call_supplied,
    fun _ _ _ _ => Program.callByName_supplied⟩

namespace Workbench

def opt : Callable platform :=
  ⟨"opt", .variadic [.str] .any, .foreign .opt⟩

def sum : Callable platform :=
  ⟨"sum", .variadic [] .int, .foreign .sum⟩

def adding : Program platform :=
  ⟨host, .empty, ⟨[("opt", opt), ("sum", sum)], []⟩⟩

def listed : Machine platform :=
  Session.start ⟨[], .empty, none, [("xs", .ref 0)]⟩ ⟨#[.list #[.bool true, .str "x"]], []⟩

def withSeven (name : String) : Call :=
  ⟨name, [⟨.int 7, here⟩, variableNamed "xs"], true, here⟩

/-- The list is spread, and the seven becomes a string for one function. For the other the second
item cannot become an int: it is not called. -/
theorem adding_admitted :
    (∃ events, (adding.enter 4 (.evaluate ⟨.call (withSeven "opt"), here⟩) listed).2.journal =
        events ++ [] ∧ .invoked opt [.str "7", .bool true, .str "x"] ∈ events ∧
      opt.signature.Admits [.str "7", .bool true, .str "x"]) ∧
    adding.callee? listed (withSeven "sum") = some (.host sum) ∧
      ∃ e, (adding.evaluator 4).call adding (withSeven "sum") listed =
        (.error (.failed e), listed) := by
  obtain ⟨hadmitted, hsupplied, -⟩ := host_calls_admitted adding 4
  refine ⟨?_, rfl, ?_⟩
  · obtain ⟨events, hj, hevents⟩ :=
      hadmitted (.evaluate ⟨.call (withSeven "opt"), here⟩) listed
    have hmem : .invoked opt [.str "7", .bool true, .str "x"] ∈ events := by
      have hrun :
          (adding.enter 4 (.evaluate ⟨.call (withSeven "opt"), here⟩) listed).2.journal =
        [.invoked opt [.str "7", .bool true, .str "x"]] := by rfl
      have hevents : events ++ [] = _ := hj.symm.trans hrun
      rw [List.append_nil] at hevents
      rw [hevents]
      exact List.mem_singleton_self _
    exact ⟨events, hj, hmem, hevents opt _ hmem⟩
  · have hgiven : (adding.evaluator 4).arguments adding (withSeven "sum") listed =
      (.ok [.int 7, .bool true, .str "x"], listed) := by rfl
    obtain ⟨e, -, he⟩ := (hsupplied (withSeven "sum") listed sum rfl).misfit hgiven (by rfl)
    exact ⟨e, he⟩

end Workbench

end HostScript
