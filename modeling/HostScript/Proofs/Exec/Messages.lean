import HostScript.Proofs.Exec.Phases
import HostScript.Proofs.Exec.Positions
import HostScript.Proofs.Names.Visibility

/-!
# What a handler is told

A failure stands at the innermost expression or statement that it comes from. So whatever goes wrong
while resources are set up or in the body has a position by the time it gets to a handler. What a
resource fails to close with comes from no expression, and gets to the handler as the host has made
it (`handler_told`).
-/

namespace HostScript

variable {P : Platform}

namespace Evaluator

variable {E : Evaluator P} {prog : Program P}

theorem acquire_positioned (p : Position) (v : Option Value) : (acquire prog p v).Positioned := by
  unfold acquire
  cases v.bind Value.address? with
  | none => exact .pure none
  | some r =>
    refine .bind (fun _ _ => nofun) fun w => ?_
    cases prog.host.resourceOf? w r with
    | none => exact .pure none
    | some resource =>
      exact (Exec.Positioned.located p _).bind fun _ => .bind (fun _ _ => nofun) fun _ => .pure _

theorem create_positioned (hE : E.Positions) (e : Expr) : (E.create prog e).Positioned :=
  (hE.expr e).top.bind fun v => acquire_positioned e.pos v

theorem creations_positioned (hE : E.Positions) {resources : List Expr}
    {m : Machine P} {e : Failure}
    (h : .error (.failed e) ∈ (E.creations prog resources m).1) : e.position.isSome := by
  induction resources generalizing m with
  | nil => cases h
  | cons r rest ih =>
    rw [creations] at h
    rcases hc : E.create prog r m with ⟨halt | a, m'⟩ <;> rw [hc] at h
    · cases List.mem_singleton.mp h
      exact create_positioned hE r m e (by rw [hc])
    · rcases List.mem_cons.mp h with h | h
      · cases h
      · exact ih h

theorem close_own {r : Address} {m : Machine P} {e : Failure}
    (h : (close prog r m).1 = .error (.failed e)) :
    ∃ resource, prog.host.resourceOf? m.world r = some resource ∧
      (resource.close m.world).1 = .error e := by
  cases hr : prog.host.resourceOf? m.world r with
  | none =>
    rw [close_lapsed hr] at h
    cases h
  | some resource =>
    refine ⟨resource, rfl, ?_⟩
    rw [close_resource hr] at h
    rcases hc : resource.close m.world with ⟨e' | ⟨⟩, w⟩
    · rw [Exec.act_error (m := m.noted (.closed r)) hc] at h
      cases h
      rfl
    · rw [Exec.act_ok (m := m.noted (.closed r)) hc] at h
      cases h

theorem closings_own {resources : List Address} {m : Machine P} {r : Address} {e : Failure}
    (h : (r, .error (.failed e)) ∈ (closings prog resources m).1) :
    ∃ w resource, prog.host.resourceOf? w r = some resource ∧
      (resource.close w).1 = .error e := by
  induction resources generalizing m with
  | nil => cases h
  | cons s rest ih =>
    rw [closings] at h
    rcases List.mem_cons.mp h with h | h
    · obtain ⟨rfl, hclosed⟩ := Prod.ext_iff.mp h
      exact ⟨m.world, close_own hclosed.symm⟩
    · exact ih h

/-- What goes wrong before the handler has a position, unless it is a resource that
cannot be closed. -/
theorem attemptRun_failed (hE : E.Positions) {resources : List Expr} {body : List Stmt}
    {m : Machine P} {e : Failure}
    (h : (E.attemptRun prog resources body m).1.attempted = .error (.failed e)) :
    e.position.isSome ∨
      (∃ signal, (E.attemptRun prog resources body m).1.body = some (.ok signal)) ∧
        ∃ r ∈ (E.attemptRun prog resources body m).1.created, ∃ w resource,
          prog.host.resourceOf? w r = some resource ∧ (resource.close w).1 = .error e := by
  obtain ⟨hbody, hclosings⟩ := attemptRun_phases E prog resources body m
  rcases TryRun.attempted_cases hbody.mpr h with
    hcreation | hended | ⟨hended, ⟨r, _⟩, hmem, rfl⟩
  · exact .inl (creations_positioned hE hcreation)
  · obtain ⟨n, hn⟩ := attemptRun_body hended
    exact .inl (block_positioned hE body n e hn.symm)
  · refine .inr ⟨hended, r, ?_, closings_own hmem⟩
    rw [← List.mem_reverse, ← hclosings]
    exact List.mem_map_of_mem hmem

end Evaluator

def Machine.told (m : Machine P) (clause : Handler) (e : Failure) : Machine P :=
  { m.enterBlock with scopes := m.scopes.push.define clause.name (.str e.text) }

/-- The handler of an attempt that has failed is run, and its name is bound to the text of the
failure. That is a position with the message after it, unless the body did not fail and what failed
is a resource that could not be closed: then it is the text of what the host has made of that. -/
theorem handler_told (prog : Program P) (fuel : Nat) (resources : List Expr) (body : List Stmt)
    (clause : Handler) (hname : clause.name ≠ blank) {m m' : Machine P} {e : Failure}
    (h : Exec.withScope ((prog.evaluator fuel).withResources prog resources body) m =
      (.error (.failed e), m')) :
    (prog.evaluator fuel).guarded
        (Exec.withScope ((prog.evaluator fuel).withResources prog resources body)) (some clause) m =
        (((prog.evaluator fuel).stmts clause.body (m'.told clause e)).1,
          ((prog.evaluator fuel).stmts clause.body (m'.told clause e)).2.leaveBlock) ∧
      (m'.told clause e).scopes.lookup clause.name = some (.str e.text) ∧
      ((∃ p : Position, e.text = p.text ++ ": " ++ e.message) ∨
        (∃ signal, ((prog.evaluator fuel).attemptRun prog resources body m.enterBlock).1.body =
            some (.ok signal)) ∧
          ∃ r ∈ ((prog.evaluator fuel).attemptRun prog resources body m.enterBlock).1.created,
            ∃ w resource, prog.host.resourceOf? w r = some resource ∧
              (resource.close w).1 = .error e) := by
  refine ⟨?_, m'.scopes.lookup_push_define _ hname, ?_⟩
  · rw [Evaluator.guarded, Exec.recover_failed h]
    rfl
  · rw [Exec.withScope_apply, Evaluator.withResources_apply] at h
    rcases Evaluator.attemptRun_failed (prog.evaluator_positions fuel) (Prod.ext_iff.mp h).1 with
      hposition | hclosing
    · obtain ⟨p, hp⟩ := Option.isSome_iff_exists.mp hposition
      exact .inl ⟨p, by simp [Failure.text, hp]⟩
    · exact .inr hclosing

namespace Workbench

def unclosed : Failure :=
  .of (.custom "cannot close inner")

theorem unclosed_text : unclosed.text = unclosed.message := by
  rfl

/-- `try (outer, inner) {}`, of which the inner resource cannot be closed. -/
def closing : Exec platform Signal :=
  Exec.withScope ((bare.evaluator 3).withResources bare both [])

theorem closing_fails : ∃ m', closing supplied = (.error (.failed unclosed), m') := by
  have hfails : Exec.failure? (closing supplied).1 = some unclosed := by decide +kernel
  rcases hm : closing supplied with ⟨(e | _) | signal, m'⟩ <;> rw [hm] at hfails
  · cases hfails
    exact ⟨m', rfl⟩
  · cases hfails
  · cases hfails

theorem closing_told : returnText.name ≠ blank ∧
    ∃ m', closing supplied = (.error (.failed unclosed), m') ∧
      (m'.told returnText unclosed).scopes.lookup returnText.name = some (.str unclosed.text) := by
  have hname : returnText.name ≠ blank := by decide
  obtain ⟨m', hm⟩ := closing_fails
  obtain ⟨-, htold, -⟩ := handler_told bare 3 both [] returnText hname hm
  exact ⟨hname, m', hm, htold⟩

/-- The text that the handler gets is the message alone. There is no position before it. -/
theorem closing_told_bare : ∃ m', closing supplied = (.error (.failed unclosed), m') ∧
    (m'.told returnText unclosed).scopes.lookup returnText.name = some (.str unclosed.message) ∧
    ∀ p : Position, unclosed.message ≠ p.text ++ ": " ++ unclosed.message := by
  obtain ⟨m', hm⟩ := closing_fails
  refine ⟨m', hm, ?_, fun p h => ?_⟩
  · rw [← unclosed_text]
    exact m'.scopes.lookup_push_define _ (by decide)
  · have hlength := congrArg String.length h
    simp only [String.length_append] at hlength
    have hcolon : (": ").length = 2 := by rfl
    omega

end Workbench

end HostScript
