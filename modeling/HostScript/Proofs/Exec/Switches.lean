import HostScript.Proofs.Exec.Positions
import HostScript.Workbench.Scripts

/-!
# How a switch runs

The values of the cases of a switch are candidates, in the order in which they stand. A run of a
switch passes over candidates that do not match up to the first that does; then it is the body of
that case that runs (`Evaluator.SwitchRuns`). `Program.switch_runs` says that switches run so and in
no other way.
-/

namespace HostScript

variable {P : Platform}

/-- Whether a value matches: it equals the subject or, without one, is true. A value that cannot be
compared, or is no truth value, gives a failure. -/
def View.answer (view : View) : Option Value → Value → Except Failure Bool
  | some subject, v => view.equals subject v
  | none, v => view.asBool v

theorem View.answer_matches {view : View} {subject : Option Value} {v : Value} :
    Evaluator.caseMatches view subject v = true ↔ view.answer subject v = .ok true := by
  cases subject <;> simp only [Evaluator.caseMatches, answer]
  · rcases view.asBool v with e | (_ | _) <;> simp [Except.toOption]
  · rcases view.equals _ v with e | (_ | _) <;> simp [Except.toOption]

def candidates (cases : List Case) : List (Case × Expr) :=
  cases.flatMap fun c => c.values.map (c, ·)

theorem candidates_cons (c : Case) (rest : List Case) :
    candidates (c :: rest) = c.values.map (c, ·) ++ candidates rest := rfl

namespace Evaluator

variable {E : Evaluator P} {m m' : Machine P}

-- ---------------------------------------------------------------------------
-- The search for a match
-- ---------------------------------------------------------------------------

section
variable {subject : Option Value}

def find (E : Evaluator P) (subject : Option Value) : List (Case × Expr) → Exec P (Option Case)
  | [] => return none
  | (c, e) :: rest => do
    let v ← E.value e "case"
    if caseMatches (← Exec.view) subject v then return some c else E.find subject rest

theorem find_values (c : Case) (es : List Expr) (rest : List (Case × Expr)) :
    E.find subject (es.map (c, ·) ++ rest) = (do
      if ← E.anyMatches subject es then return some c else E.find subject rest) := by
  induction es with
  | nil => rfl
  | cons e es ih =>
    simp only [List.map_cons, List.cons_append, find, anyMatches, ih, bind_assoc]
    congr 1
    funext v
    congr 1
    funext view
    split <;> rfl

theorem firstMatch_eq_find (cases : List Case) :
    E.firstMatch subject cases = E.find subject (candidates cases) := by
  induction cases with
  | nil => rfl
  | cons c rest ih => rw [candidates_cons, find_values, firstMatch, ih]

theorem find_value {c : Case} {e : Expr} {v : Value} {rest : List (Case × Expr)}
    (h : E.isolated e m = (.ok (some v), m')) :
    E.find subject ((c, e) :: rest) m =
      if caseMatches m'.world.view subject v then (.ok (some c), m')
      else E.find subject rest m' := by
  rw [find, Exec.bind_ok (value_ok h), Exec.bind_ok (Exec.view_apply m')]
  split <;> rfl

/-- Candidates are evaluated one after the other, and none of them matches: each has a value that is
no match or about which that cannot be told. -/
inductive Passes (E : Evaluator P) (subject : Option Value) :
    List (Case × Expr) → Machine P → Machine P → Prop
  | nil (m : Machine P) : Passes E subject [] m m
  | cons {c : Case} {e : Expr} {v : Value} {rest : List (Case × Expr)} {m m₁ m₂ : Machine P} :
    E.isolated e m = (.ok (some v), m₁) →
    (m₁.world.view.answer subject v = .ok false ∨
      ∃ failure, m₁.world.view.answer subject v = .error failure) →
    Passes E subject rest m₁ m₂ → Passes E subject ((c, e) :: rest) m m₂

theorem Passes.find {passed : List (Case × Expr)} (h : E.Passes subject passed m m')
    (rest : List (Case × Expr)) : E.find subject (passed ++ rest) m = E.find subject rest m' := by
  induction h with
  | nil => rfl
  | cons he hanswer _ ih =>
    rw [List.cons_append, find_value he, if_neg, ih]
    rw [View.answer_matches]
    rcases hanswer with hanswer | ⟨_, hanswer⟩ <;> simp [hanswer]

theorem Passes.find_all {list : List (Case × Expr)} (h : E.Passes subject list m m') :
    E.find subject list m = (.ok none, m') := by
  rw [← List.append_nil list, h.find]
  rfl

theorem passes_or (E : Evaluator P) (subject : Option Value) (list : List (Case × Expr))
    (m : Machine P) :
    (∃ m', E.Passes subject list m m') ∨
      ∃ passed c e later m₁, list = passed ++ (c, e) :: later ∧
        E.Passes subject passed m m₁ ∧
        ((∃ halt m', E.Stops e "case" m₁ halt m') ∨
          ∃ v m', E.isolated e m₁ = (.ok (some v), m') ∧
            m'.world.view.answer subject v = .ok true) := by
  induction list generalizing m with
  | nil => exact .inl ⟨m, .nil m⟩
  | cons candidate rest ih =>
    obtain ⟨c, e⟩ := candidate
    rcases E.gives_or_stops e "case" m with ⟨v, m₁, he⟩ | hstops
    · by_cases htrue : m₁.world.view.answer subject v = .ok true
      · exact .inr ⟨[], c, e, rest, m, rfl, .nil m, .inr ⟨v, m₁, he, htrue⟩⟩
      have hanswer : m₁.world.view.answer subject v = .ok false ∨
          ∃ failure, m₁.world.view.answer subject v = .error failure := by
        rcases h : m₁.world.view.answer subject v with failure | (_ | _)
        · exact .inr ⟨failure, rfl⟩
        · exact .inl rfl
        · exact absurd h htrue
      rcases ih m₁ with ⟨m', hall⟩ | ⟨passed, c', e', later, m₂, rfl, hpassed, hend⟩
      · exact .inl ⟨m', .cons he hanswer hall⟩
      · exact .inr ⟨(c, e) :: passed, c', e', later, m₂, rfl, .cons he hanswer hpassed, hend⟩
    · exact .inr ⟨[], c, e, rest, m, rfl, .nil m, .inl hstops⟩

end

-- ---------------------------------------------------------------------------
-- Switches
-- ---------------------------------------------------------------------------

inductive HasSubject (E : Evaluator P) (m : Machine P) :
    Option Expr → Option Value → Machine P → Prop
  | none : HasSubject E m none none m
  | some {e : Expr} {v : Value} {m' : Machine P} :
    E.isolated e m = (.ok (some v), m') → HasSubject E m (some e) (some v) m'

theorem HasSubject.evaluated {subject : Option Expr} {s : Option Value}
    (h : E.HasSubject m subject s m') : E.subject subject m = (.ok s, m') := by
  cases h with
  | none => rfl
  | some h =>
    rw [Evaluator.subject, Exec.bind_ok (value_ok h)]
    rfl

inductive SwitchRuns (E : Evaluator P) (subject : Option Expr) (cases : List Case)
    (default : Option (List Stmt)) (m : Machine P) : Except Halt Signal × Machine P → Prop
  | subjectStops {e : Expr} {halt : Halt} {m' : Machine P} :
    subject = some e → E.Stops e "switch" m halt m' →
      SwitchRuns E subject cases default m (.error halt, m')
  | candidateStops {s : Option Value} {passed later : List (Case × Expr)} {c : Case} {e : Expr}
      {halt : Halt} {m₁ m₂ m' : Machine P} :
    E.HasSubject m subject s m₁ → candidates cases = passed ++ (c, e) :: later →
    E.Passes s passed m₁ m₂ → E.Stops e "case" m₂ halt m' →
      SwitchRuns E subject cases default m (.error halt, m')
  | matched {s : Option Value} {passed later : List (Case × Expr)} {c : Case}
    {e : Expr} {v : Value}
      {m₁ m₂ m₃ : Machine P} :
    E.HasSubject m subject s m₁ → candidates cases = passed ++ (c, e) :: later →
    E.Passes s passed m₁ m₂ → E.isolated e m₂ = (.ok (some v), m₃) →
    m₃.world.view.answer s v = .ok true →
      SwitchRuns E subject cases default m (E.block c.body m₃)
  | defaulted {s : Option Value} {body : List Stmt} {m₁ m₂ : Machine P} :
    E.HasSubject m subject s m₁ → E.Passes s (candidates cases) m₁ m₂ →
      default = some body →
      SwitchRuns E subject cases default m (E.block body m₂)
  | nothing {s : Option Value} {m₁ m₂ : Machine P} :
    E.HasSubject m subject s m₁ → E.Passes s (candidates cases) m₁ m₂ → default = none →
      SwitchRuns E subject cases default m (.ok .normal, m₂)

def selected (E : Evaluator P) (default : Option (List Stmt)) : Option Case → Exec P Signal
  | some c => E.block c.body
  | none => default.elim (pure .normal) E.block

section
variable {subject : Option Expr} {cases : List Case} {default : Option (List Stmt)}

theorem switch_eq (hE : E.Positions) :
    E.switch subject cases default = (do
      E.selected default (← E.find (← E.subject subject) (candidates cases))) := by
  have hlocated (c : Case) : Exec.located c.pos (E.block c.body) = E.block c.body :=
    Exec.Positioned.located_eq (block_positioned hE c.body) c.pos
  simp only [switch, firstMatch_eq_find, hlocated]
  refine bind_congr fun s => bind_congr fun found => ?_
  cases found <;> cases default <;> rfl

theorem switch_searches (hE : E.Positions) {s : Option Value} (h : E.HasSubject m subject s m') :
    E.switch subject cases default m =
      (E.find s (candidates cases) >>= E.selected default) m' := by
  rw [switch_eq hE, Exec.bind_ok h.evaluated]

theorem find_positioned (hE : E.Positions) (s : Option Value) (list : List (Case × Expr)) :
    (E.find s list).Positioned := by
  induction list with
  | nil => exact .pure _
  | cons candidate rest ih =>
    refine (value_positioned hE candidate.2 "case").bind fun v =>
      .bind (fun _ _ => nofun) fun view => ?_
    split
    · exact .pure _
    · exact ih

theorem switch_positioned (hE : E.Positions) : (E.switch subject cases default).Positioned := by
  rw [switch_eq hE]
  refine .bind ?_ fun s => (find_positioned hE s _).bind fun found => ?_
  · cases subject with
    | none => exact .pure _
    | some e => exact (value_positioned hE e "switch").bind fun v => .pure _
  · cases found with
    | some c => exact block_positioned hE c.body
    | none =>
      cases default with
      | some body => exact block_positioned hE body
      | none => exact .pure _

theorem SwitchRuns.switch (hE : E.Positions) {r : Except Halt Signal × Machine P}
    (h : E.SwitchRuns subject cases default m r) : E.switch subject cases default m = r := by
  cases h with
  | subjectStops hs h =>
    subst hs
    rw [Evaluator.switch, Exec.bind_error]
    rw [Evaluator.subject, Exec.bind_error h.value]
  | candidateStops hs hsplit hpassed h =>
    rw [switch_searches hE hs, Exec.bind_error]
    rw [hsplit, hpassed.find, find, Exec.bind_error h.value]
  | @matched s passed later c e v m₁ m₂ m₃ hs hsplit hpassed he hanswer =>
    have hfind : E.find s (candidates cases) m₁ = (.ok (some c), m₃) := by
      rw [hsplit, hpassed.find, find_value he, if_pos (View.answer_matches.mpr hanswer)]
    rw [switch_searches hE hs, Exec.bind_ok hfind]
    rfl
  | defaulted hs hpassed hd =>
    rw [switch_searches hE hs, Exec.bind_ok hpassed.find_all, hd]
    rfl
  | nothing hs hpassed hd =>
    rw [switch_searches hE hs, Exec.bind_ok hpassed.find_all, hd]
    rfl

theorem switchRuns_exists (E : Evaluator P) (subject : Option Expr) (cases : List Case)
    (default : Option (List Stmt)) (m : Machine P) :
    ∃ r, E.SwitchRuns subject cases default m r := by
  have hsubject : (∃ s m₁, E.HasSubject m subject s m₁) ∨
      ∃ e halt m', subject = some e ∧ E.Stops e "switch" m halt m' := by
    cases subject with
    | none => exact .inl ⟨none, m, .none⟩
    | some e =>
      rcases E.gives_or_stops e "switch" m with ⟨v, m₁, he⟩ | ⟨halt, m', he⟩
      · exact .inl ⟨some v, m₁, .some he⟩
      · exact .inr ⟨e, halt, m', rfl, he⟩
  rcases hsubject with ⟨s, m₁, hs⟩ | ⟨e, halt, m', hs, he⟩
  · rcases E.passes_or s (candidates cases) m₁ with
      ⟨m₂, hall⟩ | ⟨passed, c, e, later, m₂, hsplit, hpassed,
        ⟨halt, m', he⟩ | ⟨v, m₃, he, hv⟩⟩
    · cases hd : default with
      | none => exact ⟨_, .nothing hs hall rfl⟩
      | some body => exact ⟨_, .defaulted hs hall rfl⟩
    · exact ⟨_, .candidateStops hs hsplit hpassed he⟩
    · exact ⟨_, .matched hs hsplit hpassed he hv⟩
  · exact ⟨_, .subjectStops hs he⟩

end

end Evaluator

/-- A switch first evaluates its subject, then candidates in order up to the first that matches,
each of these once and on the machine that the one before has left. The body of the case of that
candidate then is all that runs, or the default if none matches, and how it ends is how the switch
ends. An expression that stops ends the switch, while a value about which no answer can be given
does not match. -/
theorem Program.switch_runs (prog : Program P) (fuel : Nat) (subject : Option Expr)
    (cases : List Case) (default : Option (List Stmt)) (p : Position) (m : Machine P)
    (r : Except Halt Signal × Machine P) :
    prog.execStmt (fuel + 1) ⟨.switch subject cases default, p⟩ m = r ↔
      (prog.evaluator fuel).SwitchRuns subject cases default m r := by
  have hE := prog.evaluator_positions fuel
  have hswitch : prog.execStmt (fuel + 1) ⟨.switch subject cases default, p⟩ =
      (prog.evaluator fuel).switch subject cases default :=
    Exec.Positioned.located_eq (Evaluator.switch_positioned hE) p
  rw [hswitch]
  constructor
  · rintro rfl
    obtain ⟨r, hr⟩ := (prog.evaluator fuel).switchRuns_exists subject cases default m
    rwa [hr.switch hE]
  · exact fun h => h.switch hE

-- Null is no truth value, so it does not match, and the switch goes on to the next case.
open Workbench in
example : returned? (bare.execStmt 4
    ⟨.switch none
      [⟨[⟨.null, here⟩], [⟨.ret (some ⟨.str "first", here⟩), here⟩], here⟩,
        ⟨[⟨.bool true, here⟩], [⟨.ret (some ⟨.str "second", here⟩), here⟩], here⟩]
        none, here⟩
    idle).1 = some "second" := by rfl

end HostScript
