import HostScript.Calculator.Task
import HostScript.Proofs.Calculator.Basic
import Mathlib.Logic.Relation

/-!
# Tasks on a stack of their own

A calculator has one stack. A step that runs others on an empty one puts the operands aside, in a
guard that lies on those of the steps around it, and the guard puts them back when it is lifted: at
the end of the steps inside, or on the way of a panic out of them. Followed one by one, the steps do
what `Step.run` says (`steps_reach`). So whatever a task does to the stack that it is given, the
stack around it is afterwards what it was, and makes no difference to the task (`tasks_isolated`).
-/

namespace HostScript

def Step.inside? : Step → Option (List Step)
  | .calculate steps | .isolated steps | .guarded steps => some steps
  | _ => none

def Step.isolates : Step → Bool
  | .calculate _ | .isolated _ => true
  | _ => false

def Step.conclude (inner : List (Answer × Operands)) (left : Operands) : Step → Answer
  | .calculate _ =>
    if inner.any (·.1.isPanic) then .panicked
    else match inner.findSome? (·.1.failure?) with
      | some e => .failed e
      | none => .calculated left.head? inner
  | .isolated _ => if inner.any (·.1.isPanic) then .panicked else .isolated left.length inner
  | .guarded _ => .guarded (inner.any (·.1.isPanic))
  | _ => .done

/-- A step that others run inside of: what was on the stack when it began, what had been answered
before it, and what is to be done after it. -/
structure Guard where
  step : Step
  saved : Operands
  answers : List (Answer × Operands)
  rest : List Step

structure Progress where
  stack : Operands
  todo : List Step
  answers : List (Answer × Operands)
  guards : List Guard

namespace Progress

variable {view : View} {base base' : List Guard} {p p' : Progress}

def answered (result : Answer × Operands) (rest : List Step) (answers : List (Answer × Operands))
    (guards : List Guard) : Progress :=
  ⟨result.2, if result.1.isPanic then [] else rest, answers ++ [result], guards⟩

def next? (view : View) : Progress → Option Progress
  | ⟨stack, step :: rest, answers, guards⟩ =>
    match step.inside? with
    | some steps =>
      some ⟨if step.isolates then [] else stack, steps, [],
        ⟨step, stack, answers, rest⟩ :: guards⟩
    | none => some (answered (step.run view stack) rest answers guards)
  | ⟨stack, [], inner, ⟨step, saved, answers, rest⟩ :: guards⟩ =>
    some (answered (step.conclude inner stack, if step.isolates then saved else stack) rest answers
      guards)
  | ⟨_, [], _, []⟩ => none

/-- One thing is done under guards of which these are not lifted. -/
structure Leads (view : View) (base : List Guard) (p p' : Progress) : Prop where
  next : p.next? view = some p'
  before : base <:+ p.guards
  after : base <:+ p'.guards

abbrev Reaches (view : View) (base : List Guard) : Progress → Progress → Prop :=
  Relation.ReflTransGen (Leads view base)

theorem Reaches.mono (h : Reaches view base p p') (hbase : base' <:+ base) :
    Reaches view base' p p' :=
  Relation.ReflTransGen.mono
    (fun _ _ h => ⟨h.next, hbase.trans h.before, hbase.trans h.after⟩) p p' h

end Progress

open Progress

/-- A step with others inside answers what it concludes from them, over a stack of their own or over
the one that it finds. -/
theorem Step.run_inside {view : View} {step : Step} {steps : List Step}
    (h : step.inside? = some steps) (s : Operands) :
    step.run view s =
      let (inner, left) := runSteps view steps (if step.isolates then [] else s)
      (step.conclude inner left, if step.isolates then s else left) := by
  cases step <;> cases h
  case calculate =>
    simp only [Step.run, isolates, conclude, if_true]
    cases (runSteps view steps []).1.any (·.1.isPanic) with
    | true => rfl
    | false => cases (runSteps view steps []).1.findSome? (·.1.failure?) <;> rfl
  case isolated =>
    simp only [Step.run, isolates, conclude, if_true]
    split <;> rfl
  case guarded => simp [Step.run, isolates, conclude]

theorem Step.inside?_lt {step : Step} {steps : List Step} (h : step.inside? = some steps) :
    sizeOf steps < sizeOf step := by
  cases step <;> cases h <;> simp

mutual

theorem step_reaches (view : View) (step : Step) (s : Operands) (rest : List Step)
    (answers : List (Answer × Operands)) (guards : List Guard) :
    Reaches view guards ⟨s, step :: rest, answers, guards⟩
      (answered (step.run view s) rest answers guards) := by
  cases hinside : step.inside? with
  | none => exact .single ⟨by simp [next?, hinside], List.suffix_rfl, List.suffix_rfl⟩
  | some steps =>
    -- Until it is lifted, the guard of the step stays below those of the steps inside.
    have hlt := Step.inside?_lt hinside
    have hbelow := List.suffix_cons (⟨step, s, answers, rest⟩ : Guard) guards
    have hinner := (steps_reach view steps (if step.isolates then [] else s) []
      (⟨step, s, answers, rest⟩ :: guards)).mono hbelow
    refine .head ⟨?_, List.suffix_rfl, hbelow⟩ (hinner.tail ⟨?_, hbelow, List.suffix_rfl⟩)
    · simp [next?, hinside]
    · simp [next?, Step.run_inside hinside]
termination_by sizeOf step

theorem steps_reach (view : View) (steps : List Step) (s : Operands)
    (answers : List (Answer × Operands)) (guards : List Guard) :
    Reaches view guards ⟨s, steps, answers, guards⟩
      ⟨(runSteps view steps s).2, [], answers ++ (runSteps view steps s).1, guards⟩ := by
  cases steps with
  | nil => simpa [runSteps] using Relation.ReflTransGen.refl
  | cons step rest =>
    have hstep := step_reaches view step s rest answers guards
    cases hpanic : (step.run view s).1.isPanic with
    | true => simpa [runSteps, answered, hpanic] using hstep
    | false =>
      have hrest := steps_reach view rest (step.run view s).2 (answers ++ [step.run view s]) guards
      simpa [runSteps, answered, hpanic] using hstep.trans (by simpa [answered, hpanic] using hrest)
termination_by sizeOf steps

end

-- ---------------------------------------------------------------------------
-- Stacks of their own
-- ---------------------------------------------------------------------------

theorem Answer.isPanic_iff {a : Answer} : a.isPanic ↔ a = .panicked := by
  cases a <;> simp [isPanic]

theorem Answer.failure?_eq_some {a : Answer} {e : Failure} :
    a.failure? = some e ↔ a = .failed e := by
  cases a <;> simp [failure?]

inductive Calculates (inner : List (Answer × Operands)) (left : Operands) : Answer → Prop
  | panicked {s : Operands} (h : (.panicked, s) ∈ inner) : Calculates inner left .panicked
  | failed {before after : List (Answer × Operands)} {e : Failure} {s : Operands}
      (hcalm : ∀ s, (.panicked, s) ∉ inner) (h : inner = before ++ (.failed e, s) :: after)
      (hbefore : ∀ e s, (.failed e, s) ∉ before) : Calculates inner left (.failed e)
  | returned (hcalm : ∀ s, (.panicked, s) ∉ inner) (h : ∀ e s, (.failed e, s) ∉ inner) :
      Calculates inner left (.calculated left.head? inner)

theorem any_isPanic_iff {inner : List (Answer × Operands)} :
    inner.any (·.1.isPanic) ↔ ∃ s, (.panicked, s) ∈ inner := by
  simp [List.any_eq_true, Answer.isPanic_iff]

theorem calculates_conclude (steps : List Step) (inner : List (Answer × Operands))
    (left : Operands) : Calculates inner left ((Step.calculate steps).conclude inner left) := by
  simp only [Step.conclude]
  split
  next hpanic =>
    obtain ⟨s, hs⟩ := any_isPanic_iff.mp hpanic
    exact .panicked hs
  next hcalm =>
    rw [any_isPanic_iff, not_exists] at hcalm
    cases hfirst : inner.findSome? (·.1.failure?) with
    | none =>
      refine .returned hcalm fun e s h => ?_
      simpa [Answer.failure?] using List.findSome?_eq_none_iff.mp hfirst _ h
    | some e =>
      obtain ⟨before, ⟨a, s⟩, after, h, ha, hbefore⟩ := List.findSome?_eq_some_iff.mp hfirst
      obtain rfl := Answer.failure?_eq_some.mp ha
      refine .failed hcalm h fun e' s' h' => ?_
      simpa [Answer.failure?] using hbefore _ h'

/-- A step runs others on an empty stack and answers the same over any operands. These are put aside
while the others run, under a guard that stays until they have ended in whatever way, and then they
are on the stack again. -/
structure Step.Isolates (view : View) (step : Step) (steps : List Step) (answer : Answer) :
    Prop where
  run (s : Operands) : step.run view s = (answer, s)
  begins (s : Operands) (rest : List Step) (answers : List (Answer × Operands))
      (guards : List Guard) :
    next? view ⟨s, step :: rest, answers, guards⟩ =
      some ⟨[], steps, [], ⟨step, s, answers, rest⟩ :: guards⟩
  goes (g : Guard) (guards : List Guard) :
    Reaches view (g :: guards) ⟨[], steps, [], g :: guards⟩
      ⟨(runSteps view steps []).2, [], (runSteps view steps []).1, g :: guards⟩
  ends (s : Operands) (rest : List Step) (answers : List (Answer × Operands))
      (guards : List Guard) :
    next? view ⟨(runSteps view steps []).2, [], (runSteps view steps []).1,
        ⟨step, s, answers, rest⟩ :: guards⟩ =
      some ⟨s, if answer.isPanic then [] else rest, answers ++ [(answer, s)], guards⟩

theorem Step.isolates_conclude {view : View} {step : Step} {steps : List Step}
    (hinside : step.inside? = some steps) (h : step.isolates = true) :
    step.Isolates view steps
      (step.conclude (runSteps view steps []).1 (runSteps view steps []).2) where
  run s := by simp [run_inside hinside, h]
  begins s rest answers guards := by simp [next?, hinside, h]
  goes g guards := steps_reach view steps [] [] (g :: guards)
  ends s rest answers guards := by simp [next?, answered, h]

/-- A task on a stack of its own starts on an empty one. What comes of it does not depend on the
stack around it, and this is afterwards what it was, whether the task ends well, fails or panics,
and whatever it runs on further stacks of their own. `calculate` gives the top of what the task
leaves, if it leaves anything, unless it fails or panics, and does like it then. -/
theorem tasks_isolated (view : View) :
    (∀ (α : Type) (task : Calculator α) (s : Operands),
      Calculator.isolated task s = ((task []).1, s)) ∧
    (∀ (task : Calculator Unit) (s : Operands), Calculator.calculate task s =
      ((task []).1.map fun _ => (task []).2.head?, s)) ∧
    ∀ steps : List Step,
      (∃ answer, (Step.calculate steps).Isolates view steps answer ∧
        Calculates (runSteps view steps []).1 (runSteps view steps []).2 answer) ∧
      ∃ answer, (Step.isolated steps).Isolates view steps answer ∧
        (answer.isPanic ↔ ∃ s, (.panicked, s) ∈ (runSteps view steps []).1) := by
  refine ⟨fun α task s => rfl, fun task s => ?_, fun steps => ⟨?_, ?_⟩⟩
  · rw [Calculator.calculate_apply]
    rcases task [] with ⟨_ | _, _⟩ <;> rfl
  · exact ⟨_, Step.isolates_conclude rfl rfl, calculates_conclude _ _ _⟩
  · refine ⟨_, Step.isolates_conclude rfl rfl, ?_⟩
    rw [← any_isPanic_iff, Step.conclude]
    cases (runSteps view steps []).1.any (·.1.isPanic) <;> simp [Answer.isPanic]

end HostScript
