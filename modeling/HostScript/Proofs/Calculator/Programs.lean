import HostScript.Proofs.Operator.Unification

/-!
# Stack programs

An instruction takes its operands off the top of the stack and never looks below them. So a program
does over any further operands what it does without them, unless it lacks operands; and the
instruction that stops it has taken its operands, unless it lacked some (`programs_framed`). The
routine `between` lacks none: it is two comparisons and their conjunction (`between_compares`).
-/

namespace HostScript

variable {view : View} {i : Instruction} {program : List Instruction}
  {operands s t : Operands} {result : Except Failure Operands} {e : Failure} {a b v x : Value}
  {name : String}

-- ---------------------------------------------------------------------------
-- Instructions
-- ---------------------------------------------------------------------------

/-- What an instruction takes off the stack, the top first, and what it puts there instead unless
its operator fails. -/
inductive Instruction.Takes (view : View) :
    Instruction → Operands → Except Failure Operands → Prop
  | push (v : Value) : Takes view (.push v) [] (.ok [v])
  | swap (a b : Value) : Takes view .swap [b, a] (.ok [a, b])
  | dup (a : Value) : Takes view .dup [a] (.ok [a, a])
  | drop (a : Value) : Takes view .drop [a] (.ok [])
  | dupSecond (a b : Value) : Takes view .dupSecond [b, a] (.ok [a, b, a])
  | rot (a b c : Value) : Takes view .rot [c, b, a] (.ok [a, c, b])
  | unary {name : String} {v w : Value} (h : view.unaryNamed name v = .ok w) :
      Takes view (.unary name) [v] (.ok [w])
  | unaryFails {name : String} {v : Value} {e : Failure} (h : view.unaryNamed name v = .error e) :
      Takes view (.unary name) [v] (.error e)
  | binary {name : String} {a b w : Value} (h : view.binaryNamed name a b = .ok w) :
      Takes view (.binary name) [b, a] (.ok [w])
  | binaryFails {name : String} {a b : Value} {e : Failure}
      (h : view.binaryNamed name a b = .error e) : Takes view (.binary name) [b, a] (.error e)

theorem View.unaryNamed_cause (h : view.unaryNamed name v = .error e) :
    e.cause ≠ .emptyStack := by
  intro hempty
  cases hop : UnaryOp.ofSymbol? name with
  | none =>
    simp only [unaryNamed, hop, Except.error.injEq] at h
    simp [← h, Failure.of] at hempty
  | some op =>
    have hsymbol : view.unaryNamed op.symbol v = .error e := by
      simpa [unaryNamed, hop, op.ofSymbol?_symbol] using h
    exact (view.unaryNamed_ordinary op v e hsymbol).cause (by simp [hempty, Cause.IsMisuse])

theorem View.binaryNamed_cause (h : view.binaryNamed name a b = .error e) :
    e.cause ≠ .emptyStack := by
  intro hempty
  cases hop : BinaryOp.ofSymbol? name with
  | none =>
    simp only [binaryNamed, hop, Except.error.injEq] at h
    simp [← h, Failure.of] at hempty
  | some op =>
    have hsymbol : view.binaryNamed op.symbol a b = .error e := by
      simpa [binaryNamed, hop, op.ofSymbol?_symbol] using h
    exact (view.binaryNamed_ordinary op a b e hsymbol).cause (by simp [hempty, Cause.IsMisuse])

theorem Instruction.Takes.cause (h : i.Takes view operands (.error e)) :
    e.cause ≠ .emptyStack := by
  cases h with
  | unaryFails h => exact View.unaryNamed_cause h
  | binaryFails h => exact View.binaryNamed_cause h

namespace Calculator

theorem perform_takes (h : i.Takes view operands result) (below : Operands) :
    perform view i (operands ++ below) =
      match result with
      | .ok new => (.ok (), new ++ below)
      | .error e => (.error e, below) := by
  cases h with
  | unary h | unaryFails h => simp [perform, unary_apply, h]
  | binary h | binaryFails h => simp [perform, binary_apply, h]
  | _ => rfl

theorem takes_or_lacks (view : View) (i : Instruction) (s : Operands) :
    (∃ operands result below, s = operands ++ below ∧ i.Takes view operands result) ∨
      perform view i s = (.error (.of .emptyStack), s) := by
  have hfinds {operands result below} (h : i.Takes view operands result) :
      (∃ operands' result' below', operands ++ below = operands' ++ below' ∧
          i.Takes view operands' result') ∨
        perform view i (operands ++ below) = (.error (.of .emptyStack), operands ++ below) :=
    .inl ⟨operands, result, below, rfl, h⟩
  match i, s with
  | .push v, s => exact hfinds (.push v)
  | .swap, b :: a :: s => exact hfinds (.swap a b)
  | .dup, a :: s => exact hfinds (.dup a)
  | .drop, a :: s => exact hfinds (.drop a)
  | .dupSecond, b :: a :: s => exact hfinds (.dupSecond a b)
  | .rot, c :: b :: a :: s => exact hfinds (.rot a b c)
  | .unary name, v :: s =>
    cases h : view.unaryNamed name v with
    | ok w => exact hfinds (.unary h)
    | error e => exact hfinds (.unaryFails h)
  | .binary name, b :: a :: s =>
    cases h : view.binaryNamed name a b with
    | ok w => exact hfinds (.binary h)
    | error e => exact hfinds (.binaryFails h)
  -- These stacks are too short for the instruction.
  | .swap, [] | .swap, [_] | .dup, [] | .drop, [] | .dupSecond, [] | .dupSecond, [_]
  | .rot, [] | .rot, [_] | .rot, [_, _] | .unary _, [] | .binary _, [] | .binary _, [_] =>
    exact .inr rfl

theorem perform_fails (h : perform view i s = (.error e, t)) :
    (e = .of .emptyStack ∧ t = s) ∨
      (e.cause ≠ .emptyStack ∧ ∃ operands, i.Takes view operands (.error e) ∧
        s = operands ++ t) := by
  obtain ⟨operands, result, below, rfl, htakes⟩ | hlacks := takes_or_lacks view i s
  · rw [perform_takes htakes] at h
    cases result with
    | ok new => cases h
    | error e' =>
      cases h
      exact .inr ⟨htakes.cause, operands, htakes, rfl⟩
  · cases hlacks.symm.trans h
    exact .inl ⟨rfl, rfl⟩

-- ---------------------------------------------------------------------------
-- Programs
-- ---------------------------------------------------------------------------

theorem process_cons (i : Instruction) (program : List Instruction) (s : Operands) :
    process view (i :: program) s =
      match perform view i s with
      | (.ok (), s) => process view program s
      | (.error e, s) => (.error e, s) := by
  rw [process, bind_apply]
  rcases perform view i s with ⟨_ | _, _⟩ <;> rfl

theorem process_framed {outcome : Except Failure Unit}
    (h : process view program s = (outcome, t))
    (hfull : ∀ e, outcome = .error e → e.cause ≠ .emptyStack) (below : Operands) :
    process view program (s ++ below) = (outcome, t ++ below) := by
  induction program generalizing s with
  | nil =>
    cases h
    rfl
  | cons i program ih =>
    rw [process_cons] at h ⊢
    obtain ⟨operands, result, beneath, rfl, htakes⟩ | hlacks := takes_or_lacks view i s
    · rw [perform_takes htakes] at h
      rw [List.append_assoc, perform_takes htakes]
      cases result with
      -- What is put there lies on what was beneath, with the further operands below that.
      | ok new => simpa using ih h
      | error e =>
        cases h
        rfl
    · rw [hlacks] at h
      cases h
      exact absurd rfl (hfull _ rfl)

theorem process_stopped (h : process view program s = (.error e, t)) :
    ∃ before i after s', program = before ++ i :: after ∧
      process view before s = (.ok (), s') ∧ perform view i s' = (.error e, t) := by
  induction program generalizing s with
  | nil => cases h
  | cons i program ih =>
    rw [process_cons] at h
    rcases hi : perform view i s with ⟨_ | ⟨⟩, s₁⟩
    · simp only [hi] at h
      exact ⟨[], i, program, s, rfl, rfl, hi.trans h⟩
    · simp only [hi] at h
      obtain ⟨before, j, after, s', rfl, hbefore, hj⟩ := ih h
      exact ⟨i :: before, j, after, s', rfl, by simpa [process_cons, hi] using hbefore, hj⟩

/-- A program does over any further operands what it does without them, whether it succeeds or
fails, unless it lacks operands. An instruction that lacks operands leaves the stack as it was, and
one whose operator fails has taken its operands and no more; one such instruction has stopped each
program that fails. -/
theorem programs_framed (view : View) :
    (∀ program s outcome t, process view program s = (outcome, t) →
      (∀ e, outcome = .error e → e.cause ≠ .emptyStack) →
      ∀ below, process view program (s ++ below) = (outcome, t ++ below)) ∧
    (∀ i s e t, perform view i s = (.error e, t) →
      (e.cause = .emptyStack → t = s) ∧
      (e.cause ≠ .emptyStack →
        ∃ operands, i.Takes view operands (.error e) ∧ s = operands ++ t)) ∧
    ∀ program s e t, process view program s = (.error e, t) →
      ∃ before i after s', program = before ++ i :: after ∧
        process view before s = (.ok (), s') ∧ perform view i s' = (.error e, t) := by
  refine ⟨fun program s outcome t => process_framed, fun i s e t h => ?_,
    fun program s e t => process_stopped⟩
  obtain ⟨rfl, rfl⟩ | ⟨hcause, htakes⟩ := perform_fails h
  · exact ⟨fun _ => rfl, fun hcause => absurd rfl hcause⟩
  · exact ⟨fun hempty => absurd hempty hcause, fun _ => htakes⟩

end Calculator

-- ---------------------------------------------------------------------------
-- Between
-- ---------------------------------------------------------------------------

theorem BinaryOp.onUnified_bool {op : BinaryOp} (hop : op = .gtEq ∨ op = .ltEq)
    (h : op.onUnified a b = .ok (some x)) : ∃ p, x = .bool p := by
  obtain rfl | rfl := hop <;> cases a <;> cases b <;>
    simp [onUnified, onInts, onFloats, onStrings, onBools] at h <;> exact ⟨_, h.symm⟩

theorem View.compared_bool (op : BinaryOp) (hop : op = .gtEq ∨ op = .ltEq)
    (h : view.binaryNamed op.symbol a b = .ok x) : ∃ p, x = .bool p := by
  rw [binaryNamed_symbol, applyBinary] at h
  cases hunify : view.unify a b with
  | error e => simp [hunify, bind, Except.bind] at h
  | ok operands =>
    simp only [hunify, bind, Except.bind] at h
    split at h
    · cases h
    next answer hanswer =>
      split at h
      · cases h
        exact BinaryOp.onUnified_bool hop hanswer
      · cases h

theorem View.asBool_bool (view : View) (p : Bool) : view.asBool (.bool p) = .ok p := by
  simp [asBool, view.scalar_of_kind? (v := .bool p) rfl, Value.bool?]

namespace Calculator

theorem and_bools (view : View) (p q : Bool) :
    view.binaryNamed "&&" (.bool p) (.bool q) = .ok (.bool (p && q)) :=
  View.binaryNamed_ok .and (view.unify_alike (k := .bool) rfl rfl) rfl

/-- The routine succeeds exactly if both comparisons do, and then it gives their conjunction. If the
first fails it fails like it, and if only the second does, like that. Whatever is on the stack, the
program never lacks operands, and if it succeeds it has put a truth value there; the routine leaves
the stack as it was. -/
theorem between_compares (view : View) (v low high : Value) (s : Operands) :
    ((∃ inside, (between view v low high s).1 = .ok inside) ↔
      (∃ above, view.binaryNamed ">=" v low = .ok above) ∧
        ∃ below, view.binaryNamed "<=" v high = .ok below) ∧
    (∀ above below, view.binaryNamed ">=" v low = .ok above →
      view.binaryNamed "<=" v high = .ok below →
      ∃ p q, above = .bool p ∧ below = .bool q ∧
        (between view v low high s).1 = .ok (p && q)) ∧
    (∀ e, view.binaryNamed ">=" v low = .error e →
      (between view v low high s).1 = .error e) ∧
    (∀ above e, view.binaryNamed ">=" v low = .ok above →
      view.binaryNamed "<=" v high = .error e → (between view v low high s).1 = .error e) ∧
    (between view v low high s).2 = s ∧
    ((∃ inside, process view (betweenProgram v low high) s = (.ok (), .bool inside :: s)) ∨
      ∃ e t, process view (betweenProgram v low high) s = (.error e, t) ∧
        e.cause ≠ .emptyStack) := by
  rw [between_apply, process_between]
  cases habove : view.binaryNamed ">=" v low with
  | error e =>
    refine ⟨by simp [bind, Except.bind], by simp, by simp [bind, Except.bind], by simp, rfl, ?_⟩
    exact .inr ⟨e, _, rfl, View.binaryNamed_cause habove⟩
  | ok above =>
    obtain ⟨p, rfl⟩ := View.compared_bool .gtEq (.inl rfl) habove
    -- The second comparison finds a truth value below its operands, whatever kinds these are.
    cases hbelow : view.binaryNamed "<=" v high with
    | error e =>
      refine ⟨by simp [bind, Except.bind], by simp, by simp,
        by simp [bind, Except.bind], rfl, ?_⟩
      exact .inr ⟨e, _, rfl, View.binaryNamed_cause hbelow⟩
    | ok below =>
      obtain ⟨q, rfl⟩ := View.compared_bool .ltEq (.inr rfl) hbelow
      simp only [bind, Except.bind, and_bools, View.asBool_bool]
      refine ⟨⟨fun _ => ⟨⟨_, rfl⟩, _, rfl⟩, fun _ => ⟨_, rfl⟩⟩, ?_, by simp,
        by simp, trivial, .inl ⟨_, rfl⟩⟩
      rintro _ _ ⟨⟩ ⟨⟩
      exact ⟨p, q, rfl, rfl, rfl⟩

end Calculator

end HostScript
