import HostScript.Exec.Place
import HostScript.Proofs.Syntax.Placement
import Mathlib.Data.List.Basic

/-!
# What stands in a piece of code

A failure tells where it comes from by the position of a node and by the positions of the calls that
led there. `sites` lists both for a piece of code: the positions of its nodes, and the calls in it
with theirs. A part of a construct has no sites that the construct does not have.
-/

namespace HostScript

/-- What stands at a position of a script. A call is one of a name, and if the host makes it, it
stands nowhere. -/
inductive Site where
  | node (p : Position)
  | call (name : String) (site : Option Position)
  deriving DecidableEq

mutual

def Expr.sites : Expr → List Site
  | ⟨form, pos⟩ => .node pos :: form.sites

def ExprForm.sites : ExprForm → List Site
  | .assign target _ value => target.sites ++ value.sites
  | .ternary cond yes no => cond.sites ++ (yes.sites ++ no.sites)
  | .binary first rest => first.sites ++ operandSites rest
  | .unary _ operand => operand.sites
  | .path path => path.sites
  | .incDec target _ _ => target.sites
  | .paren inner => inner.sites
  | .call call => call.sites
  | .keyValue _ value => value.sites
  | .int _ | .float _ | .str _ | .bool _ | .null => []

def Call.sites : Call → List Site
  | ⟨name, args, _, pos⟩ => .call name (some pos) :: exprSites args

def Path.sites : Path → List Site
  | ⟨segments⟩ => segmentSites segments

def operandSites : List (BinaryOp × Expr) → List Site
  | [] => []
  | (_, e) :: rest => e.sites ++ operandSites rest

def segmentSites : List Segment → List Site
  | [] => []
  | ⟨_, index⟩ :: rest => exprSites index ++ segmentSites rest

def exprSites : List Expr → List Site
  | [] => []
  | e :: rest => e.sites ++ exprSites rest

end

def optionalSites : Option Expr → List Site
  | none => []
  | some e => e.sites

mutual

def Stmt.sites : Stmt → List Site
  | ⟨form, pos⟩ => .node pos :: form.sites

def StmtForm.sites : StmtForm → List Site
  | .block body => stmtSites body
  | .expr e => e.sites
  | .ite cond yes otherwise => cond.sites ++ (stmtSites yes ++ otherwiseSites otherwise)
  | .forLoop init cond step body =>
    optionalSites init ++ (optionalSites cond ++ (optionalSites step ++ stmtSites body))
  | .forRange _ _ _ source body => source.sites ++ stmtSites body
  | .whileLoop cond body => cond.sites ++ stmtSites body
  | .doWhile body cond => stmtSites body ++ cond.sites
  | .repeatUntil body cond => stmtSites body ++ cond.sites
  | .ret value => optionalSites value
  | .switch subject cases default => optionalSites subject ++ (caseSites cases ++ bodySites default)
  | .tryBlock resources body handler cleanup =>
    exprSites resources ++ (stmtSites body ++ (handlerSites handler ++ bodySites cleanup))
  | .brk | .cont | .empty => []

def otherwiseSites : Option Stmt → List Site
  | none => []
  | some s => s.sites

def bodySites : Option (List Stmt) → List Site
  | none => []
  | some body => stmtSites body

def handlerSites : Option Handler → List Site
  | none => []
  | some ⟨_, body⟩ => stmtSites body

def caseSites : List Case → List Site
  | [] => []
  | ⟨values, body, pos⟩ :: rest =>
    .node pos :: (exprSites values ++ (stmtSites body ++ caseSites rest))

def stmtSites : List Stmt → List Site
  | [] => []
  | s :: rest => s.sites ++ stmtSites rest

end

def Declaration.sites (f : Declaration) : List Site :=
  stmtSites f.body

-- ---------------------------------------------------------------------------
-- Parts
-- ---------------------------------------------------------------------------

theorem Expr.sites_eq (e : Expr) : e.sites = .node e.pos :: e.form.sites := by
  cases e
  rfl

theorem Stmt.sites_eq (s : Stmt) : s.sites = .node s.pos :: s.form.sites := by
  cases s
  rfl

theorem Call.sites_eq (call : Call) :
    call.sites = .call call.name (some call.pos) :: exprSites call.args := by
  cases call
  rfl

theorem Path.sites_eq (p : Path) : p.sites = segmentSites p.segments := by
  cases p
  rfl

section
variable {region : List Site}

theorem Expr.node_mem {e : Expr} (h : e.sites ⊆ region) : .node e.pos ∈ region :=
  h (e.sites_eq ▸ List.mem_cons_self)

theorem Expr.form_subset {e : Expr} (h : e.sites ⊆ region) : e.form.sites ⊆ region :=
  fun _ hs => h (e.sites_eq ▸ List.mem_cons_of_mem _ hs)

theorem Stmt.node_mem {s : Stmt} (h : s.sites ⊆ region) : .node s.pos ∈ region :=
  h (s.sites_eq ▸ List.mem_cons_self)

theorem Stmt.form_subset {s : Stmt} (h : s.sites ⊆ region) : s.form.sites ⊆ region :=
  fun _ hs => h (s.sites_eq ▸ List.mem_cons_of_mem _ hs)

theorem Call.site_mem {call : Call} (h : call.sites ⊆ region) :
    .call call.name (some call.pos) ∈ region :=
  h (call.sites_eq ▸ List.mem_cons_self)

theorem Call.args_subset {call : Call} (h : call.sites ⊆ region) :
    exprSites call.args ⊆ region :=
  fun _ hs => h (call.sites_eq ▸ List.mem_cons_of_mem _ hs)

theorem exprSites_subset {es : List Expr} (h : exprSites es ⊆ region) :
    ∀ e ∈ es, e.sites ⊆ region := by
  induction es with
  | nil => exact List.forall_mem_nil _
  | cons e rest ih =>
    obtain ⟨he, hrest⟩ := List.append_subset.mp h
    exact List.forall_mem_cons.mpr ⟨he, ih hrest⟩

theorem stmtSites_subset {body : List Stmt} (h : stmtSites body ⊆ region) :
    ∀ s ∈ body, s.sites ⊆ region := by
  induction body with
  | nil => exact List.forall_mem_nil _
  | cons s rest ih =>
    obtain ⟨hs, hrest⟩ := List.append_subset.mp h
    exact List.forall_mem_cons.mpr ⟨hs, ih hrest⟩

theorem caseSites_subset {cases : List Case} (h : caseSites cases ⊆ region) :
    ∀ c ∈ cases, .node c.pos ∈ region ∧ stmtSites c.body ⊆ region := by
  induction cases with
  | nil => exact List.forall_mem_nil _
  | cons c rest ih =>
    obtain ⟨values, body, pos⟩ := c
    obtain ⟨hpos, h⟩ := List.cons_subset.mp h
    obtain ⟨-, h⟩ := List.append_subset.mp h
    obtain ⟨hbody, hrest⟩ := List.append_subset.mp h
    exact List.forall_mem_cons.mpr ⟨⟨hpos, hbody⟩, ih hrest⟩

theorem segmentSites_subset {segments : List Segment} (h : segmentSites segments ⊆ region) :
    ∀ s ∈ segments, exprSites s.index ⊆ region := by
  induction segments with
  | nil => exact List.forall_mem_nil _
  | cons s rest ih =>
    obtain ⟨name, index⟩ := s
    obtain ⟨hs, hrest⟩ := List.append_subset.mp h
    exact List.forall_mem_cons.mpr ⟨hs, ih hrest⟩

theorem Path.accesses_subset {p : Path} (h : p.sites ⊆ region) {e : Expr}
    (he : .index e ∈ p.accesses) : e.sites ⊆ region := by
  suffices ∃ s ∈ p.segments, e ∈ s.index by
    obtain ⟨s, hs, hindex⟩ := this
    exact exprSites_subset (segmentSites_subset (p.sites_eq ▸ h) s hs) e hindex
  unfold accesses at he
  split at he
  · cases he
  · rename_i first rest hp
    simp only [hp, List.mem_cons, exists_eq_or_imp]
    simpa using he

end

-- ---------------------------------------------------------------------------
-- Jumps
-- ---------------------------------------------------------------------------

section
variable {region : List Site} {loops : Nat} {e : Failure}

theorem StmtForm.clause_subset {form : StmtForm} (h : form.sites ⊆ region) :
    ∀ c ∈ form.clauses, stmtSites c.2 ⊆ region := by
  intro c hc
  cases form with
  | ite cond yes otherwise =>
    obtain ⟨-, h⟩ := List.append_subset.mp h
    obtain ⟨hyes, hotherwise⟩ := List.append_subset.mp h
    rcases List.mem_cons.mp hc with rfl | hc
    · exact hyes
    · obtain ⟨s, rfl, rfl⟩ := mem_optional.mp hc
      exact List.append_subset.mpr ⟨hotherwise, List.nil_subset _⟩
  | switch subject cases default =>
    obtain ⟨-, h⟩ := List.append_subset.mp h
    obtain ⟨hcases, hdefault⟩ := List.append_subset.mp h
    rcases List.mem_append.mp hc with hc | hc
    · obtain ⟨c, hmem, rfl⟩ := List.mem_map.mp hc
      exact (caseSites_subset hcases c hmem).2
    · obtain ⟨body, rfl, rfl⟩ := mem_optional.mp hc
      exact hdefault
  | tryBlock resources body handler cleanup =>
    obtain ⟨-, h⟩ := List.append_subset.mp h
    obtain ⟨hbody, h⟩ := List.append_subset.mp h
    obtain ⟨hhandler, hcleanup⟩ := List.append_subset.mp h
    rcases List.mem_cons.mp hc with rfl | hc
    · exact hbody
    rcases List.mem_append.mp hc with hc | hc
    · obtain ⟨⟨name, body⟩, rfl, rfl⟩ := mem_optional.mp hc
      exact hhandler
    · obtain ⟨body, rfl, rfl⟩ := mem_optional.mp hc
      exact hcleanup
  | block body =>
    obtain rfl := List.mem_singleton.mp hc
    exact h
  | forLoop init cond step body =>
    obtain rfl := List.mem_singleton.mp hc
    obtain ⟨-, h⟩ := List.append_subset.mp h
    obtain ⟨-, h⟩ := List.append_subset.mp h
    exact (List.append_subset.mp h).2
  | forRange | whileLoop =>
    obtain rfl := List.mem_singleton.mp hc
    exact (List.append_subset.mp h).2
  | doWhile | repeatUntil =>
    obtain rfl := List.mem_singleton.mp hc
    exact (List.append_subset.mp h).1
  | expr _ | ret _ | brk | cont | empty => cases hc

theorem misplacedIn?_site {body : List Stmt} (hs : stmtSites body ⊆ region)
    (h : misplacedIn? loops body = some e) :
    ∃ jump p, .node p ∈ region ∧ e = misplaced jump p := by
  induction body using body_induction generalizing loops with
  | step body ih =>
    rw [misplacedIn?_eq_findSome?] at h
    obtain ⟨⟨form, pos⟩, hmem, h⟩ := List.exists_of_findSome?_eq_some h
    have hstmt := stmtSites_subset hs _ hmem
    by_cases hjump : ∃ jump : Jump, form = jump.form
    · obtain ⟨jump, rfl⟩ := hjump
      rw [Stmt.misplaced?_jump, Option.ite_none_right_eq_some, Option.some.injEq] at h
      exact ⟨jump, pos, Stmt.node_mem hstmt, h.2.symm⟩
    · rw [Stmt.misplaced?, StmtForm.misplaced?_clauses (not_exists.mp hjump)] at h
      obtain ⟨c, hc, h⟩ := List.exists_of_findSome?_eq_some h
      exact ih _ hmem c hc (StmtForm.clause_subset (Stmt.form_subset hstmt) c hc) h

theorem Stmt.misplaced?_site {s : Stmt} (hs : s.sites ⊆ region)
    (h : s.misplaced? loops = some e) :
    ∃ jump p, .node p ∈ region ∧ e = misplaced jump p := by
  have hbody : stmtSites [s] ⊆ region := List.append_subset.mpr ⟨hs, List.nil_subset _⟩
  have hfirst : misplacedIn? loops [s] = some e := by
    rw [misplacedIn?, h, Option.some_or]
  exact misplacedIn?_site hbody hfirst

end

end HostScript
