import HostScript.Syntax.Placement

/-!
# Stray jumps

Where a statement occurs in a body is told by a route, which names by number the statement to start
with, then a clause of it, a statement of that clause, and so on; routes in lexicographic order are
the statements in the order of the source. A jump is stray if none of the clauses around it is the
body of a loop. The check fails exactly if there is a stray jump, and blames the first one
(`placement_exact`).
-/

namespace HostScript

def Jump.form : Jump → StmtForm
  | .brk => .brk
  | .cont => .cont

inductive Clause where
  | block
  | consequent | alternative
  | forBody | rangeBody | whileBody | doBody | repeatBody
  | case | default
  | guarded | handler | cleanup

def Clause.isLoop : Clause → Bool
  | .forBody | .rangeBody | .whileBody | .doBody | .repeatBody => true
  | .block | .consequent | .alternative | .case | .default | .guarded | .handler | .cleanup => false

def StmtForm.clauses : StmtForm → List (Clause × List Stmt)
  | .block body => [(.block, body)]
  | .ite _ yes otherwise => (.consequent, yes) :: otherwise.toList.map fun s => (.alternative, [s])
  | .forLoop _ _ _ body => [(.forBody, body)]
  | .forRange _ _ _ _ body => [(.rangeBody, body)]
  | .whileLoop _ body => [(.whileBody, body)]
  | .doWhile body _ => [(.doBody, body)]
  | .repeatUntil body _ => [(.repeatBody, body)]
  | .switch _ cases default =>
    (cases.map fun c => (.case, c.body)) ++ default.toList.map fun body => (.default, body)
  | .tryBlock _ body handler cleanup =>
    (.guarded, body) :: ((handler.toList.map fun h => (.handler, h.body)) ++
      cleanup.toList.map fun body => (.cleanup, body))
  | .expr _ | .ret _ | .brk | .cont | .empty => []

/-- A statement occurs in a body, at the end of a route and within clauses, the outermost first. -/
inductive Occurs : List Stmt → List Nat → List Clause → Stmt → Prop
  | here {body : List Stmt} {i : Nat} {s : Stmt} (hs : body[i]? = some s) : Occurs body [i] [] s
  | inside {body inner : List Stmt} {i k : Nat} {s t : Stmt} {clause : Clause} {route : List Nat}
      {around : List Clause} (hs : body[i]? = some s)
      (hclause : s.form.clauses[k]? = some (clause, inner)) (h : Occurs inner route around t) :
      Occurs body (i :: k :: route) (clause :: around) t

def StrayIn (body : List Stmt) (route : List Nat) (jump : Jump) (pos : Position) : Prop :=
  ∃ around, Occurs body route around ⟨jump.form, pos⟩ ∧
    ∀ clause ∈ around, ¬ clause.isLoop

theorem Occurs.unique {body : List Stmt} {route : List Nat} {around around' : List Clause}
    {s s' : Stmt} (h : Occurs body route around s) (h' : Occurs body route around' s') :
    around = around' ∧ s = s' := by
  induction h generalizing around' with
  | here hs =>
    cases h' with
    | here hs' => exact ⟨rfl, Option.some.inj (hs.symm.trans hs')⟩
  | inside hs hclause _ ih =>
    cases h' with
    | inside hs' hclause' h' =>
      cases hs.symm.trans hs'
      cases hclause.symm.trans hclause'
      obtain ⟨rfl, rfl⟩ := ih h'
      exact ⟨rfl, rfl⟩

-- ---------------------------------------------------------------------------
-- The check, clause by clause
-- ---------------------------------------------------------------------------

theorem mem_optional {α β : Type} {part : Option α} {f : α → β} {c : β} :
    c ∈ part.toList.map f ↔ ∃ x, part = some x ∧ f x = c := by
  simp only [List.mem_map, Option.mem_toList]

theorem StmtForm.sizeOf_clause {form : StmtForm} {c : Clause × List Stmt}
    (h : c ∈ form.clauses) :
    sizeOf c.2 < sizeOf form := by
  cases form with
  | ite cond yes otherwise =>
    have hyes : 0 < sizeOf yes := by
      cases yes <;> simp only [List.nil.sizeOf_spec, List.cons.sizeOf_spec] <;> omega
    rcases List.mem_cons.mp h with rfl | h
    · simp only [ite.sizeOf_spec]
      omega
    · obtain ⟨s, rfl, rfl⟩ := mem_optional.mp h
      simp only [ite.sizeOf_spec, Option.some.sizeOf_spec, List.cons.sizeOf_spec,
        List.nil.sizeOf_spec]
      omega
  | switch subject cases default =>
    rcases List.mem_append.mp h with h | h
    · obtain ⟨c, hc, rfl⟩ := List.mem_map.mp h
      have hcase : sizeOf c.body < sizeOf c := by
        cases c
        simp only [Case.mk.sizeOf_spec]
        omega
      have hcases := List.sizeOf_lt_of_mem hc
      simp only [switch.sizeOf_spec]
      omega
    · obtain ⟨body, rfl, rfl⟩ := mem_optional.mp h
      simp only [switch.sizeOf_spec, Option.some.sizeOf_spec]
      omega
  | tryBlock resources body handler cleanup =>
    rcases List.mem_cons.mp h with rfl | h
    · simp only [tryBlock.sizeOf_spec]
      omega
    rcases List.mem_append.mp h with h | h
    · obtain ⟨⟨name, body⟩, rfl, rfl⟩ := mem_optional.mp h
      simp only [tryBlock.sizeOf_spec, Option.some.sizeOf_spec, Handler.mk.sizeOf_spec]
      omega
    · obtain ⟨body, rfl, rfl⟩ := mem_optional.mp h
      simp only [tryBlock.sizeOf_spec, Option.some.sizeOf_spec]
      omega
  | expr _ | ret _ | brk | cont | empty => cases h
  | _ =>
    obtain rfl := List.mem_singleton.mp h
    simp only [block.sizeOf_spec, forLoop.sizeOf_spec, forRange.sizeOf_spec,
      whileLoop.sizeOf_spec, doWhile.sizeOf_spec, repeatUntil.sizeOf_spec]
    omega

/-- What holds of a body if it holds of the clauses of its statements holds of all bodies. -/
@[elab_as_elim]
theorem body_induction {motive : List Stmt → Prop}
    (step : ∀ body, (∀ s ∈ body, ∀ c ∈ s.form.clauses, motive c.2) → motive body)
    (body : List Stmt) : motive body := by
  induction hsize : sizeOf body using Nat.strongRecOn generalizing body with
  | ind size ih =>
    refine step body fun s hs c hc => ih _ ?_ c.2 rfl
    have hform : sizeOf s.form < sizeOf s := by
      cases s
      simp only [Stmt.mk.sizeOf_spec]
      omega
    have hclause := StmtForm.sizeOf_clause hc
    have hmem := List.sizeOf_lt_of_mem hs
    omega

theorem findSome?_cons_or {α β : Type} (f : α → Option β) (x : α) (xs : List α) :
    (x :: xs).findSome? f = (f x).or (xs.findSome? f) := by
  rw [List.findSome?_cons]
  cases f x <;> rfl

theorem misplacedIn?_eq_findSome? (loops : Nat) (body : List Stmt) :
    misplacedIn? loops body = body.findSome? (·.misplaced? loops) := by
  induction body with
  | nil => rfl
  | cons s rest ih => rw [misplacedIn?, ih, findSome?_cons_or]

theorem misplacedCase?_eq_findSome? (loops : Nat) (cases : List Case) :
    misplacedCase? loops cases = cases.findSome? fun c => misplacedIn? loops c.body := by
  induction cases with
  | nil => rfl
  | cons c rest ih =>
    obtain ⟨values, body, pos⟩ := c
    rw [misplacedCase?, ih, findSome?_cons_or]

theorem misplacedBody?_eq_findSome? (loops : Nat) (body : Option (List Stmt)) :
    misplacedBody? loops body = body.toList.findSome? (misplacedIn? loops) := by
  cases body <;> simp [misplacedBody?, findSome?_cons_or]

theorem misplacedHandler?_eq_findSome? (loops : Nat) (handler : Option Handler) :
    misplacedHandler? loops handler =
      handler.toList.findSome? fun h => misplacedIn? loops h.body := by
  rcases handler with _ | ⟨name, body⟩ <;> simp [misplacedHandler?, findSome?_cons_or]

theorem misplacedOtherwise?_eq_findSome? (loops : Nat) (otherwise : Option Stmt) :
    misplacedOtherwise? loops otherwise =
      otherwise.toList.findSome? fun s => misplacedIn? loops [s] := by
  cases otherwise <;> simp [misplacedOtherwise?, misplacedIn?, findSome?_cons_or]

theorem Stmt.misplaced?_jump (jump : Jump) (pos : Position) (loops : Nat) :
    (⟨jump.form, pos⟩ : Stmt).misplaced? loops =
      if loops = 0 then some (misplaced jump pos) else none := by
  cases jump <;> rfl

theorem StmtForm.misplaced?_clauses {form : StmtForm} (hform : ∀ jump : Jump, form ≠ jump.form)
    (loops : Nat) (pos : Position) :
    form.misplaced? loops pos = form.clauses.findSome? fun c =>
      misplacedIn? (if c.1.isLoop then loops + 1 else loops) c.2 := by
  cases form with
  | brk => exact absurd rfl (hform .brk)
  | cont => exact absurd rfl (hform .cont)
  | ite cond yes otherwise =>
    simp [misplaced?, clauses, misplacedOtherwise?_eq_findSome?, Clause.isLoop, findSome?_cons_or,
      List.findSome?_map, Function.comp_def]
  | switch subject cases default =>
    simp [misplaced?, clauses, misplacedCase?_eq_findSome?, misplacedBody?_eq_findSome?,
      Clause.isLoop, List.findSome?_append, List.findSome?_map, Function.comp_def]
  | tryBlock resources body handler cleanup =>
    simp [misplaced?, clauses, misplacedHandler?_eq_findSome?, misplacedBody?_eq_findSome?,
      Clause.isLoop, findSome?_cons_or, List.findSome?_append, List.findSome?_map,
      Function.comp_def, Option.or_assoc]
  | _ => simp [misplaced?, clauses, Clause.isLoop, findSome?_cons_or]

theorem misplacedIn?_in_loop (loops : Nat) (body : List Stmt) :
    misplacedIn? (loops + 1) body = none := by
  induction body using body_induction generalizing loops with
  | step body ih =>
    rw [misplacedIn?_eq_findSome?, List.findSome?_eq_none_iff]
    rintro ⟨form, pos⟩ hs
    by_cases hjump : ∃ jump : Jump, form = jump.form
    · obtain ⟨jump, rfl⟩ := hjump
      exact Stmt.misplaced?_jump jump pos (loops + 1)
    · rw [Stmt.misplaced?, StmtForm.misplaced?_clauses (not_exists.mp hjump),
        List.findSome?_eq_none_iff]
      intro c hc
      split
      · exact ih _ hs c hc (loops + 1)
      · exact ih _ hs c hc loops

-- ---------------------------------------------------------------------------
-- The first stray jump
-- ---------------------------------------------------------------------------

/-- The failure of the first of the stray jumps along some routes, or nothing if there are none. -/
inductive BlamesFirst (strays : List Nat → Jump → Position → Prop) : Option Failure → Prop
  | nothing (h : ∀ route jump pos, ¬ strays route jump pos) : BlamesFirst strays none
  | first {route : List Nat} {jump : Jump} {pos : Position} (h : strays route jump pos)
      (hleast : ∀ route' jump' pos', strays route' jump' pos' → ¬ route' < route) :
      BlamesFirst strays (some (misplaced jump pos))

/-- If each part of a list is searched for its first stray jump, the first that is found is the
first in the list. -/
theorem BlamesFirst.along {α : Type} (strays : α → List Nat → Jump → Position → Prop)
    {search : α → Option Failure} {xs : List α}
    (h : ∀ x ∈ xs, BlamesFirst (strays x) (search x)) :
    BlamesFirst (fun route jump pos =>
        ∃ i rest x, route = i :: rest ∧ xs[i]? = some x ∧ strays x rest jump pos)
      (xs.findSome? search) := by
  induction xs with
  | nil => exact .nothing (by simp)
  | cons x xs ih =>
    have hx := h x List.mem_cons_self
    have hxs := ih fun y hy => h y (List.mem_cons_of_mem x hy)
    rw [findSome?_cons_or]
    generalize search x = found at hx ⊢
    generalize xs.findSome? search = later at hxs ⊢
    cases hx with
    | @first route jump pos hstray hleast =>
      refine .first ⟨0, route, x, rfl, rfl, hstray⟩ ?_
      rintro _ jump' pos' ⟨i, rest, y, rfl, hy, hstray'⟩
      rw [List.cons_lt_cons_iff]
      cases i with
      | zero =>
        obtain rfl := Option.some.inj hy
        simpa using hleast _ _ _ hstray'
      | succ i => simp
    | nothing hnone =>
      cases hxs with
      | nothing hlater =>
        refine .nothing ?_
        rintro _ jump pos ⟨i, rest, y, rfl, hy, hstray⟩
        cases i with
        | zero =>
          obtain rfl := Option.some.inj hy
          exact hnone _ _ _ hstray
        | succ i => exact hlater _ _ _ ⟨i, rest, y, rfl, hy, hstray⟩
      | @first route jump pos hstray hleast =>
        obtain ⟨i, rest, y, rfl, hy, hstray⟩ := hstray
        refine .first ⟨i + 1, rest, y, rfl, hy, hstray⟩ ?_
        rintro _ jump' pos' ⟨i', rest', y', rfl, hy', hstray'⟩
        cases i' with
        | zero =>
          obtain rfl := Option.some.inj hy'
          exact absurd hstray' (hnone _ _ _)
        | succ i' =>
          have hlater := hleast _ _ _ ⟨i', rest', y', rfl, hy', hstray'⟩
          simpa [List.cons_lt_cons_iff] using hlater

theorem BlamesFirst.congr {strays strays' : List Nat → Jump → Position → Prop}
    {found : Option Failure} (h : BlamesFirst strays found)
    (hsame : ∀ route jump pos, strays' route jump pos ↔ strays route jump pos) :
    BlamesFirst strays' found := by
  have heq : strays' = strays := by
    funext route jump pos
    exact propext (hsame route jump pos)
  exact heq ▸ h

inductive Stmt.Stray : Stmt → List Nat → Jump → Position → Prop
  | itself {jump : Jump} {pos : Position} : Stray ⟨jump.form, pos⟩ [] jump pos
  | inside {s : Stmt} {k : Nat} {clause : Clause} {inner : List Stmt}
    {route : List Nat} {jump : Jump}
      {pos : Position} (hclause : s.form.clauses[k]? = some (clause, inner))
      (hloop : ¬ clause.isLoop) (h : StrayIn inner route jump pos) : Stray s (k :: route) jump pos

theorem strayIn_iff {body : List Stmt} {route : List Nat} {jump : Jump} {pos : Position} :
    StrayIn body route jump pos ↔
      ∃ i rest s, route = i :: rest ∧ body[i]? = some s ∧ s.Stray rest jump pos := by
  constructor
  · rintro ⟨around, h, hloops⟩
    cases h with
    | here hs => exact ⟨_, _, _, rfl, hs, .itself⟩
    | inside hs hclause h =>
      obtain ⟨hloop, hloops⟩ := List.forall_mem_cons.mp hloops
      exact ⟨_, _, _, rfl, hs, .inside hclause hloop ⟨_, h, hloops⟩⟩
  · rintro ⟨i, rest, s, rfl, hs, hstray⟩
    cases hstray with
    | itself => exact ⟨[], .here hs, nofun⟩
    | inside hclause hloop h =>
      obtain ⟨around, h, hloops⟩ := h
      exact ⟨_, .inside hs hclause h, List.forall_mem_cons.mpr ⟨hloop, hloops⟩⟩

theorem blames_first (body : List Stmt) : BlamesFirst (StrayIn body) (misplacedIn? 0 body) := by
  induction body using body_induction with
  | step body ih =>
    rw [misplacedIn?_eq_findSome?]
    refine (BlamesFirst.along Stmt.Stray ?_).congr fun _ _ _ => strayIn_iff
    rintro ⟨form, pos⟩ hs
    by_cases hjump : ∃ jump : Jump, form = jump.form
    · obtain ⟨jump, rfl⟩ := hjump
      rw [Stmt.misplaced?_jump, if_pos rfl]
      exact .first .itself fun route' _ _ _ => List.not_lt_nil route'
    · have hform := not_exists.mp hjump
      rw [Stmt.misplaced?, StmtForm.misplaced?_clauses hform]
      refine (BlamesFirst.along
        (fun c route jump pos => ¬ c.1.isLoop ∧ StrayIn c.2 route jump pos) ?_).congr ?_
      · intro c hc
        split
        next hloop =>
          rw [misplacedIn?_in_loop]
          exact .nothing fun _ _ _ h => h.1 hloop
        next hloop => exact (ih _ hs c hc).congr fun _ _ _ => and_iff_right hloop
      · intro route jump pos
        constructor
        · rintro (_ | ⟨hclause, hloop, h⟩)
          · exact absurd rfl (hform _)
          · exact ⟨_, _, _, rfl, hclause, hloop, h⟩
        · rintro ⟨k, rest, c, rfl, hclause, hloop, h⟩
          exact .inside hclause hloop h

/-- The check of a function fails exactly if a jump in its body is stray, and then it blames the
first of them in the order of the source, by its keyword and its position. -/
theorem placement_exact (f : Declaration) :
    ((∃ e, f.checkPlacement = .error e) ↔ ∃ route jump pos, StrayIn f.body route jump pos) ∧
    ∀ e, f.checkPlacement = .error e ↔
      ∃ route jump pos, StrayIn f.body route jump pos ∧
        (∀ route' jump' pos', StrayIn f.body route' jump' pos' → ¬ route' < route) ∧
        e = ⟨.invalidControl jump, some pos, none⟩ := by
  have hfirst := blames_first f.body
  unfold Declaration.checkPlacement
  generalize misplacedIn? 0 f.body = found at hfirst ⊢
  cases hfirst with
  | nothing hnone => simp [hnone]
  | @first route jump pos hstray hleast =>
    refine ⟨⟨fun _ => ⟨route, jump, pos, hstray⟩, fun _ => ⟨_, rfl⟩⟩,
      fun e => ⟨?_, ?_⟩⟩
    · rintro ⟨⟩
      exact ⟨route, jump, pos, hstray, hleast, rfl⟩
    · rintro ⟨route', jump', pos', hstray', hleast', rfl⟩
      -- Both routes are least, so they are one and lead to one statement.
      obtain rfl := List.le_antisymm (List.not_lt.mp (hleast _ _ _ hstray'))
        (List.not_lt.mp (hleast' _ _ _ hstray))
      obtain ⟨around, h, -⟩ := hstray
      obtain ⟨around', h', -⟩ := hstray'
      obtain ⟨-, hsame⟩ := h.unique h'
      cases jump <;> cases jump' <;> cases hsame <;> rfl

-- The first jump is one of the loop around it, the second stands in a `finally` block.
example (p q r : Position) :
    Declaration.checkPlacement ⟨"f", [],
      [⟨.whileLoop ⟨.bool true, p⟩ [⟨.brk, p⟩], p⟩,
        ⟨.tryBlock [] [] none (some [⟨.cont, q⟩]), p⟩,
        ⟨.brk, r⟩], p⟩ = .error ⟨.invalidControl .cont, some q, none⟩ :=
  rfl

end HostScript
