import HostScript.Proofs.Exec.Computation
import HostScript.Workbench.Scripts

/-!
# The phases of a `try` statement

Setting up resources, the body, closing them, the handler and the cleanup: each phase runs on the
machine that the one before it has left, and how it ends decides which of the others run and how the
statement ends. A `TryRun` lists how each phase ended. `tryBlock_phases`: the statement runs its
phases in that order, and ends as the list says.
-/

namespace HostScript

variable {P : Platform} {α : Type}

def halt? : Except Halt α → Option Halt
  | .ok _ => none
  | .error halt => some halt

@[simp] theorem halt?_ok (a : α) : halt? (.ok a : Except Halt α) = none := rfl

@[simp] theorem halt?_error (halt : Halt) : halt? (.error halt : Except Halt α) = some halt := rfl

def stopped : Option Halt → Except Halt Unit
  | some halt => .error halt
  | none => .ok ()

/-- How the phases of a `try` statement ended; those that were not run are none. -/
structure TryRun where
  /-- What each resource was set up as, if anything, up to the first that failed. -/
  creations : List (Except Halt (Option Address))
  body : Option (Except Halt Signal)
  closings : List (Address × Except Halt Unit)
  handler : Option (Except Halt Signal)
  cleanup : Option (Except Halt Signal)

namespace TryRun

variable (run : TryRun)

def created : List Address :=
  run.creations.filterMap fun creation => creation.toOption.join

def firstHalt : Option Halt :=
  (run.creations.findSome? halt?).or
    ((run.body.bind halt?).or (run.closings.findSome? fun closing => halt? closing.2))

def attempted : Except Halt Signal :=
  match run.firstHalt with
  | some halt => .error halt
  | none => run.body.getD (.ok .normal)

def handled : Except Halt Signal :=
  run.handler.getD run.attempted

/-- The cleanup decides if it was run and did not end normally. -/
def outcome : Except Halt Signal :=
  match run.cleanup with
  | some after => Exec.overriding run.handled after
  | none => run.handled

end TryRun

-- ---------------------------------------------------------------------------
-- Phases
-- ---------------------------------------------------------------------------

def Exec.phase (x : Option (Exec P α)) (m : Machine P) : Option (Except Halt α) × Machine P :=
  match x with
  | some x => (some (x m).1, (x m).2)
  | none => (none, m)

theorem Exec.phase_isSome (x : Option (Exec P α)) (m : Machine P) :
    (Exec.phase x m).1.isSome = x.isSome := by
  cases x <;> rfl

namespace Evaluator

def creations (E : Evaluator P) (prog : Program P) :
    List Expr → Machine P → List (Except Halt (Option Address)) × Machine P
  | [], m => ([], m)
  | e :: rest, m =>
    match E.create prog e m with
    | (.ok r, m) => ((.ok r :: (E.creations prog rest m).1), (E.creations prog rest m).2)
    | (.error halt, m) => ([.error halt], m)

def closings (prog : Program P) :
    List Address → Machine P → List (Address × Except Halt Unit) × Machine P
  | [], m => ([], m)
  | r :: rest, m =>
    let (closed, m) := close prog r m
    ((r, closed) :: (closings prog rest m).1, (closings prog rest m).2)

def handlerOf (E : Evaluator P) : Option Handler → Except Halt Signal → Option (Exec P Signal)
  | some clause, .error (.failed e) => some (E.handle clause e)
  | _, _ => none

def attemptRun (E : Evaluator P) (prog : Program P) (resources : List Expr) (body : List Stmt)
    (m : Machine P) : TryRun × Machine P :=
  let (creations, m) := E.creations prog resources m
  let (ran, m) := Exec.phase (if creations.all Except.isOk then some (E.block body) else none) m
  let run : TryRun := ⟨creations, ran, [], none, none⟩
  let (closings, m) := closings prog run.created.reverse m
  ({ run with closings }, m)

def tryRun (E : Evaluator P) (prog : Program P) (resources : List Expr) (body : List Stmt)
    (handler : Option Handler) (cleanup : Option (List Stmt)) (m : Machine P) :
    TryRun × Machine P :=
  let (run, m) := E.attemptRun prog resources body m.enterBlock
  let (handled, m) := Exec.phase (E.handlerOf handler run.attempted) m.leaveBlock
  let (cleaned, m) := Exec.phase (cleanup.map E.block) m
  ({ run with handler := handled, cleanup := cleaned }, m)

end Evaluator

-- ---------------------------------------------------------------------------
-- Halts
-- ---------------------------------------------------------------------------

theorem firstFailure_stopped (outcome : Except Halt α) (after : Option Halt) :
    Exec.firstFailure outcome (stopped after) =
      match (halt? outcome).or after with
      | some halt => .error halt
      | none => outcome := by
  cases outcome <;> cases after <;> rfl

theorem findSome?_halt?_eq_none {outcomes : List (Except Halt α)} :
    outcomes.findSome? halt? = none ↔ outcomes.all Except.isOk = true := by
  rw [List.findSome?_eq_none_iff, List.all_eq_true]
  refine forall₂_congr fun outcome _ => ?_
  cases outcome <;> simp [Except.isOk, Except.toBool]

namespace Evaluator

variable {prog : Program P} {E : Evaluator P}

theorem createAll_apply (created : List Address) (resources : List Expr) (m : Machine P) :
    E.createAll prog created resources m =
      (.ok (((E.creations prog resources m).1.filterMap (·.toOption.join)).reverse ++ created,
          stopped ((E.creations prog resources m).1.findSome? halt?)),
        (E.creations prog resources m).2) := by
  induction resources generalizing created m with
  | nil => rfl
  | cons e rest ih =>
    rcases hc : E.create prog e m with ⟨halt | (_ | r), m'⟩ <;>
      rw [createAll, Exec.bind_ok (Exec.attempt_apply hc), creations, hc]
    · rfl
    · exact ih created m'
    · simpa [Except.toOption, List.findSome?_cons] using ih (r :: created) m'

theorem closeAll_apply (created : List Address) (m : Machine P) :
    closeAll prog created m =
      (stopped ((closings prog created m).1.findSome? fun closing => halt? closing.2),
        (closings prog created m).2) := by
  induction created generalizing m with
  | nil => rfl
  | cons r rest ih =>
    rw [closeAll, Exec.andThen_apply, ih, firstFailure_stopped, closings]
    rcases close prog r m with ⟨halt | ⟨⟩, m'⟩
    · rfl
    · simp [stopped, List.findSome?_cons]

theorem withResources_apply (resources : List Expr) (body : List Stmt) (m : Machine P) :
    E.withResources prog resources body m =
      ((E.attemptRun prog resources body m).1.attempted,
        (E.attemptRun prog resources body m).2) := by
  rw [withResources_eq_whenSetUp, Exec.bind_ok (createAll_apply _ _ _), List.append_nil]
  unfold attemptRun
  rcases E.creations prog resources m with ⟨creations, m₁⟩
  dsimp only
  cases hhalt : creations.findSome? halt? with
  | none =>
    have hall := findSome?_halt?_eq_none.mp hhalt
    change (E.block body).andThen (closeAll prog _) m₁ = _
    rw [if_pos hall, Exec.andThen_apply, closeAll_apply, firstFailure_stopped]
    simp [Exec.phase, TryRun.attempted, TryRun.firstHalt, TryRun.created, hhalt]
  | some halt =>
    have hnot : ¬ creations.all Except.isOk = true := by
      rw [← findSome?_halt?_eq_none, hhalt]
      nofun
    change (throw halt : Exec P Signal).andThen (closeAll prog _) m₁ = _
    rw [if_neg hnot, Exec.andThen_apply, closeAll_apply, firstFailure_stopped]
    have hthrow : (throw halt : Exec P Signal) m₁ = (.error halt, m₁) := rfl
    simp [Exec.phase, TryRun.attempted, TryRun.firstHalt, TryRun.created, hhalt, hthrow]

theorem guarded_apply (attempted : Exec P Signal) (handler : Option Handler) (m : Machine P) :
    E.guarded attempted handler m =
      ((Exec.phase (E.handlerOf handler (attempted m).1) (attempted m).2).1.getD (attempted m).1,
        (Exec.phase (E.handlerOf handler (attempted m).1) (attempted m).2).2) := by
  cases handler with
  | none => rfl
  | some clause =>
    rw [guarded]
    rcases hm : attempted m with ⟨(e | _) | signal, m'⟩
    · exact Exec.recover_failed hm
    · exact Exec.recover_outOfFuel hm
    · exact Exec.recover_ok hm

theorem tryBlock_apply (resources : List Expr) (body : List Stmt) (handler : Option Handler)
    (cleanup : Option (List Stmt)) (m : Machine P)
    (h : (E.tryBlock prog resources body handler cleanup m).1 ≠ .error .outOfFuel) :
    E.tryBlock prog resources body handler cleanup m =
      ((E.tryRun prog resources body handler cleanup m).1.outcome,
        (E.tryRun prog resources body handler cleanup m).2) := by
  unfold tryBlock at h ⊢
  unfold tryRun
  have hattempt : Exec.withScope (E.withResources prog resources body) m =
      ((E.attemptRun prog resources body m.enterBlock).1.attempted,
        (E.attemptRun prog resources body m.enterBlock).2.leaveBlock) := by
    rw [Exec.withScope_apply, withResources_apply]
  have hguarded := guarded_apply (E := E) (Exec.withScope (E.withResources prog resources body))
    handler m
  rw [hattempt] at hguarded
  cases cleanup with
  | none => exact hguarded
  | some cleanup =>
    dsimp only at h hguarded ⊢
    rw [Exec.finish_apply hguarded]
    · rfl
    · intro hfuel
      rw [hfuel] at hguarded
      exact h (by rw [Exec.finish_outOfFuel hguarded])

theorem closings_resources (resources : List Address) (m : Machine P) :
    (closings prog resources m).1.map Prod.fst = resources := by
  induction resources generalizing m with
  | nil => rfl
  | cons r rest ih => exact congrArg (r :: ·) (ih _)

theorem creations_length {resources : List Expr} {m : Machine P}
    (h : ∀ creation ∈ (E.creations prog resources m).1, creation.isOk = true) :
    (E.creations prog resources m).1.length = resources.length := by
  induction resources generalizing m with
  | nil => rfl
  | cons e rest ih =>
    rw [creations] at h ⊢
    rcases hc : E.create prog e m with ⟨halt | r, m'⟩ <;> rw [hc] at h
    · exact absurd (h _ List.mem_cons_self) nofun
    · exact congrArg (· + 1) (ih fun creation hm => h creation (List.mem_cons_of_mem _ hm))

theorem attemptRun_body {resources : List Expr} {body : List Stmt} {m : Machine P}
    {ended : Except Halt Signal} (h : (E.attemptRun prog resources body m).1.body = some ended) :
    ∃ n, ended = (E.block body n).1 := by
  rw [attemptRun] at h
  dsimp only at h
  split at h
  · exact ⟨_, (Option.some.inj h).symm⟩
  · cases h

theorem attemptRun_phases (E : Evaluator P) (prog : Program P) (resources : List Expr)
    (body : List Stmt) (m : Machine P) :
    ((E.attemptRun prog resources body m).1.body.isSome ↔
        ∀ creation ∈ (E.attemptRun prog resources body m).1.creations, creation.isOk = true) ∧
      (E.attemptRun prog resources body m).1.closings.map Prod.fst =
        (E.attemptRun prog resources body m).1.created.reverse := by
  refine ⟨?_, closings_resources _ _⟩
  unfold attemptRun
  rcases E.creations prog resources m with ⟨creations, m₁⟩
  dsimp only
  rw [← List.all_eq_true]
  by_cases hall : creations.all Except.isOk = true <;> simp [Exec.phase, hall]

theorem handlerOf_isSome {handler : Option Handler} {outcome : Except Halt Signal} :
    (E.handlerOf (P := P) handler outcome).isSome ↔
      handler.isSome ∧ ∃ e, outcome = .error (.failed e) := by
  rcases handler with _ | clause <;> rcases outcome with (e | _) | signal <;> simp [handlerOf]

section

variable {resources : List Expr} {body : List Stmt} {handler : Option Handler}
  {cleanup : Option (List Stmt)} {m m' : Machine P} {run : TryRun}
  (hrun : E.tryRun prog resources body handler cleanup m = (run, m'))
include hrun

theorem tryRun_body : run.body.isSome ↔
    run.creations.length = resources.length ∧
      ∀ creation ∈ run.creations, creation.isOk = true := by
  obtain ⟨hbody, -⟩ := attemptRun_phases E prog resources body m.enterBlock
  obtain ⟨rfl, -⟩ := Prod.ext_iff.mp hrun
  exact ⟨fun hran => ⟨creations_length (hbody.mp hran), hbody.mp hran⟩,
    fun h => hbody.mpr h.2⟩

theorem tryRun_closings : run.closings.map Prod.fst = run.created.reverse := by
  obtain ⟨-, hclosings⟩ := attemptRun_phases E prog resources body m.enterBlock
  obtain ⟨rfl, -⟩ := Prod.ext_iff.mp hrun
  exact hclosings

theorem tryRun_handler :
    run.handler.isSome ↔ handler.isSome ∧ ∃ e, run.attempted = .error (.failed e) := by
  obtain ⟨rfl, -⟩ := Prod.ext_iff.mp hrun
  rw [tryRun, Exec.phase_isSome]
  exact handlerOf_isSome

theorem tryRun_cleanup : run.cleanup.isSome ↔ cleanup.isSome := by
  obtain ⟨rfl, -⟩ := Prod.ext_iff.mp hrun
  rw [tryRun, Exec.phase_isSome, Option.isSome_map]

theorem tryRun_last {block : List Stmt} (h : cleanup = some block) :
    ∃ n, run.cleanup = some (E.block block n).1 ∧ m' = (E.block block n).2 := by
  subst h
  obtain ⟨rfl, rfl⟩ := Prod.ext_iff.mp hrun
  exact ⟨_, rfl, rfl⟩

end

end Evaluator

/-- What an attempt fails with is what the first resource that was not set up did, or the body, or
the first resource that was not closed. -/
theorem TryRun.attempted_cases {run : TryRun} {halt : Halt}
    (hbody : (∀ creation ∈ run.creations, creation.isOk = true) → run.body.isSome)
    (h : run.attempted = .error halt) :
    .error halt ∈ run.creations ∨ run.body = some (.error halt) ∨
      (∃ signal, run.body = some (.ok signal)) ∧
        ∃ closing ∈ run.closings, closing.2 = .error halt := by
  rw [attempted, firstHalt] at h
  cases hcreations : run.creations.findSome? halt? with
  | some first =>
    obtain rfl : first = halt := by simpa [hcreations] using h
    obtain ⟨creation, hmem, hhalt⟩ := List.exists_of_findSome?_eq_some hcreations
    cases creation with
    | ok => cases hhalt
    | error =>
      cases hhalt
      exact .inl hmem
  | none =>
    have hall := List.all_eq_true.mp (findSome?_halt?_eq_none.mp hcreations)
    obtain ⟨ended, hended⟩ := Option.isSome_iff_exists.mp (hbody hall)
    cases ended with
    | error => exact .inr (.inl (by simpa [hcreations, hended] using h))
    | ok signal =>
      cases hclosings : run.closings.findSome? fun closing => halt? closing.2 with
      | none => simp [hcreations, hended, hclosings] at h
      | some first =>
        obtain rfl : first = halt := by simpa [hcreations, hended, hclosings] using h
        obtain ⟨⟨r, closed⟩, hmem, hhalt⟩ := List.exists_of_findSome?_eq_some hclosings
        cases closed with
        | ok => cases hhalt
        | error =>
          cases hhalt
          exact .inr (.inr ⟨⟨signal, hended⟩, _, hmem, rfl⟩)

/-- A `try` statement that does not run out of steps ends as the list of its phases says. The body
is run if all resources were set up. What was set up is closed in reverse order, before the handler.
That is run if there is one and the attempt has failed, which after a body that has not is for a
resource that cannot be closed. The cleanup, if there is one, is run in any case, and is the last to
change the machine. -/
theorem tryBlock_phases (E : Evaluator P) (prog : Program P) (resources : List Expr)
    (body : List Stmt) (handler : Option Handler) (cleanup : Option (List Stmt)) (m : Machine P)
    (h : (E.tryBlock prog resources body handler cleanup m).1 ≠ .error .outOfFuel) :
    ∃ run m', E.tryRun prog resources body handler cleanup m = (run, m') ∧
      E.tryBlock prog resources body handler cleanup m = (run.outcome, m') ∧
      (run.body.isSome ↔ run.creations.length = resources.length ∧
        ∀ creation ∈ run.creations, creation.isOk = true) ∧
      run.closings.map Prod.fst = run.created.reverse ∧
      (run.handler.isSome ↔ handler.isSome ∧ ∃ e, run.attempted = .error (.failed e)) ∧
      (∀ signal, run.body = some (.ok signal) → run.handler.isSome →
        ∃ closing ∈ run.closings, ∃ e, closing.2 = .error (.failed e)) ∧
      (run.cleanup.isSome ↔ cleanup.isSome) ∧
      ∀ block, cleanup = some block →
        ∃ n, run.cleanup = some (E.block block n).1 ∧ m' = (E.block block n).2 := by
  have happly := Evaluator.tryBlock_apply _ _ _ _ _ h
  rcases hrun : E.tryRun prog resources body handler cleanup m with ⟨run, m'⟩
  rw [hrun] at happly
  have hbody := Evaluator.tryRun_body hrun
  have hhandler := Evaluator.tryRun_handler hrun
  refine ⟨run, m', rfl, happly, hbody, Evaluator.tryRun_closings hrun, hhandler, ?_,
    Evaluator.tryRun_cleanup hrun, fun block => Evaluator.tryRun_last hrun⟩
  intro signal hsignal hhandled
  obtain ⟨-, e, hfailed⟩ := hhandler.mp hhandled
  obtain ⟨-, hall⟩ := hbody.mp (Option.isSome_of_eq_some hsignal)
  -- Nothing that comes before the end of such a body has failed.
  rcases TryRun.attempted_cases (fun _ => Option.isSome_of_eq_some hsignal) hfailed with
    hcreation | hended | ⟨-, closing, hmem, hclosed⟩
  · exact absurd (hall _ hcreation) nofun
  · exact absurd (hended.symm.trans hsignal) (by simp)
  · exact ⟨closing, hmem, e, hclosed⟩

namespace Workbench

def both : List Expr :=
  [variableNamed "outer", variableNamed "inner"]

def returnOne : Stmt :=
  ⟨.ret (some ⟨.int 1, here⟩), here⟩

def returnText : Handler :=
  ⟨"e", [⟨.ret (some (variableNamed "e")), here⟩]⟩

/-- The statement `try (outer, inner) { return 1 } catch (e) { return e } finally {}`. -/
def tryReturning : Exec platform Signal :=
  (bare.evaluator 3).tryBlock bare both [returnOne] (some returnText) (some [])

def tryReturningRun : TryRun :=
  ((bare.evaluator 3).tryRun bare both [returnOne] (some returnText) (some []) supplied).1

/-- The body returns, but then the inner resource fails to close, and the
handler returns instead. -/
theorem tryReturning_phases : (tryReturning supplied).1 ≠ .error .outOfFuel ∧
    returned? (tryReturning supplied).1 = some "cannot close inner" ∧
    (tryReturning supplied).1 = tryReturningRun.outcome ∧ tryReturningRun.body.isSome ∧
    tryReturningRun.closings.map Prod.fst = [1, 0] ∧ tryReturningRun.handler.isSome ∧
    tryReturningRun.cleanup.isSome := by
  have hends : returned? (tryReturning supplied).1 = some "cannot close inner" := by decide +kernel
  have hcreated : tryReturningRun.created = [0, 1] := by decide +kernel
  have hran : tryReturningRun.body.isSome ∧ tryReturningRun.handler.isSome := by decide +kernel
  have hfuel : (tryReturning supplied).1 ≠ .error .outOfFuel := by
    intro h
    rw [h] at hends
    cases hends
  obtain ⟨run, m', hrun, hm, -, hclosings, -, -, hcleanup, -⟩ :=
    tryBlock_phases (bare.evaluator 3) bare both [returnOne] (some returnText)
      (some []) supplied hfuel
  obtain rfl : tryReturningRun = run := congrArg Prod.fst hrun
  have houtcome : (tryReturning supplied).1 = tryReturningRun.outcome := by rw [tryReturning, hm]
  rw [hcreated] at hclosings
  exact ⟨hfuel, hends, houtcome, hran.1, hclosings, hran.2, hcleanup.mpr rfl⟩

end Workbench

end HostScript
