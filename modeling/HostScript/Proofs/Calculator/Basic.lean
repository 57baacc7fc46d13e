import HostScript.Calculator.Program

/-!
# Laws of the calculator

What operators and programs make of a stack that has the operands they need. The routine `between`
is three operators and a coercion, and touches no stack but its own (`between_apply`).
-/

namespace HostScript.Calculator

variable {α β : Type}

theorem bind_apply (x : Calculator α) (f : α → Calculator β) (s : Operands) :
    (x >>= f) s = match x s with
      | (.ok a, s) => f a s
      | (.error e, s) => (.error e, s) := by
  simp only [bind, ExceptT.bind, ExceptT.mk, StateT.bind]
  rcases x s with ⟨_ | _, _⟩ <;> rfl

theorem binary_apply (view : View) (name : String) (a b : Value) (rest : Operands) :
    binary view name (b :: a :: rest) =
      match view.binaryNamed name a b with
      | .ok v => (.ok (), v :: rest)
      | .error e => (.error e, rest) := by
  have hpop : popTwo (b :: a :: rest) = (.ok (a, b), rest) := rfl
  have hop : ofExcept (view.binaryNamed name a b) rest = (view.binaryNamed name a b, rest) := rfl
  rw [binary, bind_apply, hpop]
  dsimp only
  rw [bind_apply, hop]
  cases view.binaryNamed name a b <;> rfl

theorem unary_apply (view : View) (name : String) (v : Value) (rest : Operands) :
    unary view name (v :: rest) =
      match view.unaryNamed name v with
      | .ok v => (.ok (), v :: rest)
      | .error e => (.error e, rest) := by
  have hpop : pop (v :: rest) = (.ok v, rest) := rfl
  have hop : ofExcept (view.unaryNamed name v) rest = (view.unaryNamed name v, rest) := rfl
  rw [unary, bind_apply, hpop]
  dsimp only
  rw [bind_apply, hop]
  cases view.unaryNamed name v <;> rfl

theorem process_step {view : View} {i : Instruction} {operands : Operands} (operands' : Operands)
    (h : perform view i operands = (.ok (), operands')) (program : List Instruction) :
    process view (i :: program) operands = process view program operands' := by
  rw [process, bind_apply, h]

theorem process_binary (view : View) (name : String) (program : List Instruction) (a b : Value)
    (rest : Operands) :
    process view (.binary name :: program) (b :: a :: rest) =
      match view.binaryNamed name a b with
      | .ok v => process view program (v :: rest)
      | .error e => (.error e, rest) := by
  rw [process, bind_apply, perform, binary_apply]
  cases view.binaryNamed name a b <;> rfl

theorem calculate_apply (task : Calculator Unit) (operands : Operands) :
    calculate task operands =
      match task [] with
      | (.ok (), rest) => (.ok rest.head?, operands)
      | (.error e, _) => (.error e, operands) := by
  unfold calculate isolated
  rw [bind_apply]
  rcases task [] with ⟨_ | _, _⟩ <;> rfl

/-- Two comparisons and their conjunction. If one of them fails, the other operands that the program
has pushed by then stay. -/
theorem process_between (view : View) (v low high : Value) (s : Operands) :
    process view (betweenProgram v low high) s =
      match view.binaryNamed ">=" v low with
      | .error e => (.error e, v :: s)
      | .ok above =>
        match view.binaryNamed "<=" v high with
        | .error e => (.error e, above :: s)
        | .ok below =>
          match view.binaryNamed "&&" above below with
          | .error e => (.error e, s)
          | .ok inside => (.ok (), inside :: s) := by
  have hstart : process view (betweenProgram v low high) s =
      process view [.binary ">=", .swap, .push high, .binary "<=", .binary "&&"]
        (low :: v :: v :: s) := by
    rw [betweenProgram, process_step (v :: s) rfl, process_step (v :: v :: s) rfl,
      process_step (low :: v :: v :: s) rfl]
  have hswap (above : Value) :
      process view [.swap, .push high, .binary "<=", .binary "&&"] (above :: v :: s) =
        process view [.binary "<=", .binary "&&"] (high :: v :: above :: s) := by
    rw [process_step (v :: above :: s) rfl, process_step (high :: v :: above :: s) rfl]
  rw [hstart, process_binary]
  cases view.binaryNamed ">=" v low with
  | error e => rfl
  | ok above =>
    simp only [hswap, process_binary]
    cases view.binaryNamed "<=" v high with
    | error e => rfl
    | ok below =>
      dsimp only
      cases view.binaryNamed "&&" above below <;> rfl

theorem between_apply (view : View) (v low high : Value) (operands : Operands) :
    between view v low high operands = (do
      let above ← view.binaryNamed ">=" v low
      let below ← view.binaryNamed "<=" v high
      let inside ← view.binaryNamed "&&" above below
      view.asBool inside, operands) := by
  rw [between, bind_apply, calculate_apply, process_between]
  cases view.binaryNamed ">=" v low with
  | error e => rfl
  | ok above =>
    cases view.binaryNamed "<=" v high with
    | error e => rfl
    | ok below =>
      simp only [bind, Except.bind]
      cases view.binaryNamed "&&" above below <;> rfl

end HostScript.Calculator
