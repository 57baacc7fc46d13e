import HostScript.Proofs.Exec.Discipline
import HostScript.Proofs.Names.Visibility

/-!
# What a call can change of the names around it

A computation binds names in the current scope only, and gives other values only to names that it
sees. A function sees its own scope and the global one, so that nothing in its body reaches a scope
of its caller, and a global name has to be there before the call (`callScript_confined`).
-/

namespace HostScript

variable {P : Platform} {α : Type}

def Machine.Confined (m m' : Machine P) : Prop :=
  m.scopes.Confined m'.scopes

instance : IsPreorder (Machine P) Machine.Confined where
  refl m := .refl m.scopes
  trans _ _ _ := Scopes.Confined.trans

namespace Exec

theorem confined_of_scopes {x : Exec P α} (h : ∀ m, (x m).2.scopes = m.scopes) :
    Leads Machine.Confined x := by
  intro m
  rw [Machine.Confined, h m]
  exact .refl m.scopes

theorem act_scopes (x : Act P α) (m : Machine P) : (act x m).2.scopes = m.scopes := by
  unfold act
  rcases x m.world with ⟨_ | _, _⟩ <;> rfl

theorem confined_withScope {x : Exec P α} (h : Leads Machine.Confined x) :
    Leads Machine.Confined (withScope x) :=
  fun m => Scopes.Confined.block (h m.enterBlock)

theorem confined_withFunction {f : Declaration} {site : Option Position} {x : Exec P α}
    (h : Leads Machine.Confined x) : Leads Machine.Confined (withFunction f site x) := by
  intro m
  cases hc : m.calls.push ⟨f.name, site⟩ with
  | error e =>
    rw [withFunction_refused hc]
    exact Scopes.Confined.refl m.scopes
  | ok calls =>
    rw [withFunction_entered hc]
    exact Scopes.Confined.call (h (m.enterCall f calls))

end Exec

theorem confined_lenient (prog : Program P) : Lenient prog (Exec.Leads Machine.Confined) where
  pure _ := Exec.confined_of_scopes fun _ => rfl
  bind := .bind
  world := Exec.confined_of_scopes fun _ => rfl
  act {_} {x} _ := Exec.confined_of_scopes (Exec.act_scopes x)
  note _ := Exec.confined_of_scopes fun _ => rfl
  noting h _ _ := h
  located _ := .mapFailure
  andThen := .andThen

theorem confined_conserved (prog : Program P) : Conserved prog Machine.Confined where
  operands m _ := Scopes.Confined.refl m.scopes
  act h := (confined_lenient prog).act (.serves h)
  invoked _ := (confined_lenient prog).note trivial
  advance := (confined_lenient prog).advance
  define name v m := Scopes.Confined.define m.scopes name v
  store name v m := Scopes.Confined.store m.scopes name v
  withScope := Exec.confined_withScope
  withFunction := Exec.confined_withFunction
  holding := (confined_lenient prog).holding trivial

/-- Whatever function is called with whatever arguments, and however that ends: the scopes that
there were are all that there are, the ones that are not global are as they were, and the global one
binds the same names. -/
theorem callScript_confined (prog : Program P) (fuel : Nat) (f : Declaration) (args : List Value)
    (site : Option Position) (m : Machine P) :
    (∀ h, h ≠ Scopes.global →
        ((prog.evaluator fuel).callScript f args site m).2.scopes.cells[h]? =
          m.scopes.cells[h]?) ∧
      ∀ name,
        (((prog.evaluator fuel).callScript f args site m).2.scopes.bindings
          Scopes.global).has name =
          (m.scopes.bindings Scopes.global).has name := by
  have hbody := (confined_conserved prog).discipline.body
    ((confined_conserved prog).discipline.parts fuel) f args
  unfold Evaluator.callScript
  split
  · cases hc : m.calls.push ⟨f.name, site⟩ with
    | error e =>
      rw [Exec.withFunction_refused hc]
      exact ⟨fun _ _ => rfl, fun _ => rfl⟩
    | ok calls =>
      rw [Exec.withFunction_entered hc]
      obtain ⟨hshape, hnames, hvalues⟩ :=
        Scopes.Confined.of_pushBelow m.scopes.global_lt (hbody (m.enterCall f calls))
      refine ⟨fun h hne => hshape.cells (hvalues h ?_), hnames Scopes.global⟩
      -- From the scope of the function only the global one is seen.
      simpa [Scopes.chain_global] using hne
  · exact ⟨fun _ _ => rfl, fun _ => rfl⟩

end HostScript
