import HostScript.Proofs.Exec.Positions
import HostScript.Proofs.Object.Acts
import HostScript.Proofs.Object.Signature
import HostScript.Proofs.Syntax.Sites

/-!
# What every computation of a program has, wherever it stands

Much of what can be said of a run holds of all its parts alike, but may depend on the code that a
part stands in. A `Regime` names for every region of code, of which it tells what stands there, a
property of the computations that leave the operands alone, one of those that evaluate an
expression, and one of those that put a value on the stack. The smallest computations have these
properties in every region; a computation that tells of a position has it where that position is;
and a call has it where a call of the function stands, if the body of the function has it in the
region of that body. Then every expression and every statement has them wherever all of it stands
(`Regime.evalExpr`, `Regime.execStmt`), and so has all that a host can ask of a session
(`Regime.enter`).
-/

namespace HostScript

variable {P : Platform}

def Exec.asBody (params : List String) (args : List Value) (x : Exec P Signal) :
    Exec P (Option Value) := do
  Evaluator.bindParams params args
  match ← Exec.traced x with
  | .ret v => return some v
  | _ => return none

theorem Evaluator.body_eq (E : Evaluator P) (f : Declaration) (args : List Value) :
    E.body f args = Exec.asBody f.params args (E.stmts f.body) := rfl

/-- In a region stands a call of a function, at a position or as one by the host: a call of a name
that the function is found by from some unit. -/
def Program.CallSite (prog : Program P) (region : List Site) (f : Declaration)
    (site : Option Position) : Prop :=
  ∃ name unit, .call name site ∈ region ∧ prog.functions.lookup? unit name = some f

def Entry.sites : Entry → List Site
  | .main => [.call "main" none]
  | .call name _ => [.call name none]
  | .execute s => s.sites
  | .evaluate e => e.sites

/-- Regions of code: what stands in each of them, and the units that the name of a call there can be
looked up from. The bodies of functions are in regions, and so is what a host asks for. -/
structure Regions where
  Region : Type
  sites : Region → List Site
  body : Declaration → Region
  entry : Entry → Region
  finds : Region → Option Position → String → Prop
  sites_body (f : Declaration) : sites (body f) = f.sites
  sites_entry (e : Entry) : sites (entry e) = e.sites
  finds_host (region : Region) : finds region none Position.hostUnit

namespace Regions

def code : Regions where
  Region := List Site
  sites region := region
  body := Declaration.sites
  entry := Entry.sites
  finds _ _ _ := True
  sites_body _ := rfl
  sites_entry _ := rfl
  finds_host _ := trivial

def Calls (G : Regions) (prog : Program P) (region : G.Region) (f : Declaration)
    (site : Option Position) : Prop :=
  ∃ name unit, .call name site ∈ G.sites region ∧ G.finds region site unit ∧
    prog.functions.lookup? unit name = some f

theorem Calls.callSite {G : Regions} {prog : Program P} {region : G.Region} {f : Declaration}
    {site : Option Position} (h : G.Calls prog region f site) :
    prog.CallSite (G.sites region) f site := by
  obtain ⟨name, unit, hmem, -, hf⟩ := h
  exact ⟨name, unit, hmem, hf⟩

end Regions

/-- Properties of computations, for each region of code, that the smallest ones of a program have,
and that putting computations together keeps. -/
structure Regime (prog : Program P) extends Regions where
  /-- Said of what leaves the operands as they are. -/
  keeps : {α : Type} → Region → Exec P α → Prop
  /-- Said of what puts a value on the stack, or nothing. -/
  yields : Region → Exec P Unit → Prop
  puts : Region → Exec P Unit → Prop
  pure {α : Type} {region : Region} (a : α) : keeps region (pure a : Exec P α)
  bind {α β : Type} {region : Region} {x : Exec P α} {f : α → Exec P β} :
    keeps region x → (∀ a, keeps region (f a)) → keeps region (x >>= f)
  fail {α : Type} {region : Region} {cause : Cause} :
    ¬ cause.IsMisuse → keeps region (Exec.fail cause : Exec P α)
  outOfFuel {α : Type} {region : Region} : keeps region (throw .outOfFuel : Exec P α)
  world {region : Region} : keeps region (Exec.world : Exec P (World P))
  root {region : Region} (name : String) : keeps region (Exec.root prog name)
  callee {α : Type} {region : Region} {call : Call} {next : Option (Callee P) → Exec P α} :
    (∀ m, finds region (some call.pos) (Program.callingUnit m call) →
      keeps region (next (prog.callee? m call))) → keeps region (Exec.callee prog call >>= next)
  act {α : Type} {region : Region} {x : Act P α} :
    prog.host.Serves x → keeps region (Exec.act x)
  invoked {region : Region} {view : View} {f : Callable P} {given args : List Value} :
    f.signature.bind view given = .ok args → keeps region (Exec.note (.invoked f args))
  advance {region : Region} (cursor : Cursor) : keeps region (Evaluator.advance prog cursor)
  define {region : Region} (name : String) (v : Value) :
    keeps region (Exec.scoping (P := P) (·.define name v))
  store {region : Region} (name : String) (v : Value) :
    keeps region (Exec.scoping (P := P) (·.store name v))
  located {α : Type} {region : Region} {p : Position} {x : Exec P α} :
    .node p ∈ sites region → keeps region x → keeps region (Exec.located p x)
  recover {α : Type} {region : Region} {x : Exec P α} {handler : Failure → Exec P α} :
    keeps region x → (∀ e, keeps region (handler e)) →
      (∀ e e' : Failure, e.text = e'.text → handler e = handler e') →
      keeps region (x.recover handler)
  finish {region : Region} {x cleanup : Exec P Signal} :
    keeps region x → keeps region cleanup → keeps region (x.finish cleanup)
  withScope {α : Type} {region : Region} {x : Exec P α} :
    keeps region x → keeps region (Exec.withScope x)
  /-- What runs in a call runs in the region of the body of the function. -/
  withFunction {region : Region} {f : Declaration} {site : Option Position}
    {args : List Value} {x : Exec P Signal} :
    toRegions.Calls prog region f site → keeps (body f) x →
      x.Positioned → keeps region (Exec.withFunction f site (Exec.asBody f.params args x))
  holding {region : Region} {p : Position} {v : Option Value} {body : Exec P Signal} :
    .node p ∈ sites region → keeps region body → keeps region (Exec.holding prog p v body)
  top {region : Region} {x : Exec P Unit} : yields region x → keeps region (Exec.top x)
  skip {region : Region} : yields region (Pure.pure ())
  stuck {region : Region} : yields region (throw .outOfFuel)
  after {α : Type} {region : Region} {x : Exec P α} {f : α → Exec P Unit} :
    keeps region x → (∀ a, yields region (f a)) → yields region (x >>= f)
  placed {region : Region} {p : Position} {x : Exec P Unit} :
    .node p ∈ sites region → yields region x → yields region (Exec.located p x)
  weaken {region : Region} {x : Exec P Unit} : puts region x → yields region x
  push {region : Region} (v : Value) : puts region (Exec.push v)
  operand {region : Region} {p : Position} {x : Exec P Unit} :
    .node p ∈ sites region → yields region x → puts region (Exec.operand p x)
  unary {region : Region} {x : Exec P Unit} (op : UnaryOp) :
    puts region x → puts region (x >>= fun _ => Exec.unary op)
  binary {region : Region} {x y : Exec P Unit} {p : Position} (op : BinaryOp) :
    .node p ∈ sites region → puts region x → yields region y →
      puts region (x >>= fun _ => Exec.operand p y >>= fun _ => Exec.binary op)

namespace Regime

variable {α : Type} {prog : Program P} (R : Regime prog) {E : Evaluator P} {region : R.Region}

structure Parts (E : Evaluator P) : Prop where
  expr :
    ∀ {region : R.Region} (e : Expr), e.sites ⊆ R.sites region → R.yields region (E.expr e)
  stmt :
    ∀ {region : R.Region} (s : Stmt), s.sites ⊆ R.sites region → R.keeps region (E.stmt s)
  positions : E.Positions

-- ---------------------------------------------------------------------------
-- Looking at things
-- ---------------------------------------------------------------------------

theorem throws {e : Failure} (h : e.Plain) : R.keeps region (throw (.failed e) : Exec P α) := by
  rw [h.eq]
  exact R.fail h.cause

theorem ofExcept {r : Except Failure α} (h : Ordinary r) :
    R.keeps region (Exec.ofExcept r : Exec P α) := by
  cases r with
  | error e => exact R.throws (h e rfl)
  | ok a => exact R.pure a

theorem view : R.keeps region (Exec.view : Exec P View) :=
  R.bind R.world fun _ => R.pure _

theorem index (container key : Value) : R.keeps region (Exec.index prog container key) :=
  R.act (.index container key)

theorem items (v : Value) : R.keeps region (Exec.items prog v) :=
  R.act (.items v)

theorem field (v : Value) (name : String) : R.keeps region (Exec.field prog v name) := by
  refine R.bind R.world fun w => ?_
  cases prog.host.project? w v name with
  | none => exact R.fail fun h => h
  | some v => exact R.pure v

-- ---------------------------------------------------------------------------
-- Parts
-- ---------------------------------------------------------------------------

section
variable {R} (hE : R.Parts E)
include hE

theorem isolated {e : Expr} (he : e.sites ⊆ R.sites region) : R.keeps region (E.isolated e) :=
  R.top (hE.expr e he)

theorem value {e : Expr} (he : e.sites ⊆ R.sites region) (what : String) :
    R.keeps region (E.value e what) := by
  refine R.bind (R.isolated hE he) fun v => ?_
  cases v with
  | none => exact R.located (Expr.node_mem he) (R.fail fun h => h)
  | some v => exact R.pure v

theorem condition {e : Expr} (he : e.sites ⊆ R.sites region) :
    R.keeps region (E.condition e) := by
  refine R.bind (R.value hE he "condition") fun v => ?_
  refine R.located (Expr.node_mem he) (R.bind R.view fun view => ?_)
  exact R.ofExcept (view.asBool_ordinary v)

theorem discard {e : Option Expr} (he : optionalSites e ⊆ R.sites region) :
    R.keeps region (E.discard e) := by
  cases e with
  | none => exact R.pure ()
  | some e => exact R.bind (R.isolated hE he) fun _ => R.pure ()

theorem stmts {body : List Stmt} (hb : stmtSites body ⊆ R.sites region) :
    R.keeps region (E.stmts body) := by
  induction body with
  | nil => exact R.pure Signal.normal
  | cons s rest ih =>
    obtain ⟨hs, hrest⟩ := List.append_subset.mp hb
    refine R.bind (hE.stmt s hs) fun signal => ?_
    cases signal with
    | normal => exact ih hrest
    | _ => exact R.pure _

theorem block {body : List Stmt} (hb : stmtSites body ⊆ R.sites region) :
    R.keeps region (E.block body) :=
  R.withScope (R.stmts hE hb)

-- ---------------------------------------------------------------------------
-- Places
-- ---------------------------------------------------------------------------

theorem follow (v : Value) {accesses : List Access}
    (h : ∀ e, .index e ∈ accesses → e.sites ⊆ R.sites region) :
    R.keeps region (E.follow prog v accesses) := by
  induction accesses generalizing v with
  | nil => exact R.pure v
  | cons access rest ih =>
    have hrest := fun v => ih v fun e he => h e (List.mem_cons_of_mem _ he)
    cases access with
    | field name => exact R.bind (R.field v name) hrest
    | index e =>
      have he := h e List.mem_cons_self
      refine R.bind (R.value hE he "index") fun key => ?_
      exact R.bind (R.located (Expr.node_mem he) (R.index v key)) hrest

theorem read {p : Path} (hp : p.sites ⊆ R.sites region) : R.keeps region (E.read prog p) :=
  R.bind (R.root p.root) fun v => R.follow hE v fun _ he => Path.accesses_subset hp he

theorem place {p : Path} (hp : p.sites ⊆ R.sites region) : R.keeps region (E.place prog p) := by
  unfold Evaluator.place
  cases hlast : p.accesses.getLast? with
  | none => exact R.pure _
  | some last =>
    refine R.bind (R.root p.root) fun v => ?_
    refine R.bind (R.follow hE v fun e he => ?_) fun container => ?_
    · exact Path.accesses_subset hp (List.dropLast_subset _ he)
    · cases last with
      | field name => exact R.pure _
      | index e =>
        have he := Path.accesses_subset hp (List.mem_of_getLast? hlast)
        exact R.bind (R.value hE he "index") fun key => R.pure _

omit hE in
theorem readPlace (place : Place) : R.keeps region (place.read prog) := by
  cases place with
  | binding name => exact R.root name
  | field container name => exact R.field container name
  | index container key => exact R.index container key

omit hE in
theorem writePlace (place : Place) (v : Value) : R.keeps region (place.write prog v) := by
  cases place with
  | binding name => exact R.store name v
  | field container name =>
    rw [Place.write]
    cases container.unwrapped with
    | ref r =>
      refine R.bind R.world fun w => ?_
      cases h : prog.host.fieldsOf? w r with
      | none => exact R.fail fun h => h
      | some fields => exact R.act (.putField h name v)
    | _ => exact R.fail fun h => h
  | index container key =>
    refine R.bind R.world fun w => ?_
    dsimp only
    cases container.unwrapped with
    | ref r =>
      dsimp only
      cases h : prog.host.indexedOf? w r with
      | none => exact R.fail fun h => h
      | some indexed => exact R.act (.putIndexed h key v)
    | _ => exact R.fail fun h => h

theorem assign {target : Path} (op : AssignOp) {e : Expr} (ht : target.sites ⊆ R.sites region)
    (he : e.sites ⊆ R.sites region) : R.keeps region (E.assign prog target op e) := by
  refine R.bind (R.value hE he "assignment") fun v => ?_
  cases op with
  | declare =>
    dsimp only
    split
    · exact R.bind (R.define target.root v) fun _ => R.pure v
    · exact R.fail fun h => h
  | set =>
    refine R.bind (R.place hE ht) fun place => ?_
    exact R.bind (R.writePlace place v) fun _ => R.pure v
  | compound op =>
    refine R.bind (R.place hE ht) fun place => ?_
    refine R.bind (R.readPlace place) fun old => ?_
    refine R.bind R.view fun view => ?_
    refine R.bind (R.ofExcept (view.binaryNamed_ordinary op old v)) fun new => ?_
    exact R.bind (R.writePlace place new) fun _ => R.pure new

theorem incDec {target : Path} (increment before : Bool) (ht : target.sites ⊆ R.sites region) :
    R.keeps region (E.incDec prog target increment before) := by
  refine R.bind (R.place hE ht) fun place => ?_
  refine R.bind (R.readPlace place) fun old => ?_
  refine R.bind R.view fun view => ?_
  refine R.bind (R.ofExcept (view.binaryNamed_ordinary _ old _)) fun new => ?_
  exact R.bind (R.writePlace place new) fun _ => R.pure _

-- ---------------------------------------------------------------------------
-- Calls
-- ---------------------------------------------------------------------------

theorem values {args : List Expr} (ha : exprSites args ⊆ R.sites region) :
    R.keeps region (E.values args) := by
  induction args with
  | nil => exact R.pure _
  | cons e rest ih =>
    obtain ⟨he, hrest⟩ := List.append_subset.mp ha
    refine R.bind (R.value hE he "argument") fun v => ?_
    exact R.bind (ih hrest) fun vs => R.pure _

theorem arguments {call : Call} (ha : exprSites call.args ⊆ R.sites region) :
    R.keeps region (E.arguments prog call) := by
  refine R.bind (R.values hE ha) fun args => ?_
  split
  · split
    · rename_i hlast
      have he := exprSites_subset ha _ (List.mem_of_getLast? hlast)
      exact R.bind (R.located (Expr.node_mem he) (R.items _)) fun items => R.pure _
    · exact R.fail fun h => h
  · exact R.pure args

omit hE in
theorem invoke {view : View} {f : Callable P} {given args : List Value}
    (h : f.signature.bind view given = .ok args) :
    R.keeps region (Evaluator.invoke prog f args) := by
  refine R.bind (R.invoked h) fun _ => ?_
  refine R.bind (R.act (.call f args)) fun results => ?_
  exact R.act (.collect results)

theorem callHost (f : Callable P) {call : Call} (ha : exprSites call.args ⊆ R.sites region) :
    R.keeps region (E.callHost prog f call) := by
  refine R.bind (R.arguments hE ha) fun args => ?_
  refine R.bind R.view fun view => ?_
  cases h : f.signature.bind view args with
  | ok args => exact R.invoke h
  | error blamed =>
    obtain ⟨index, e⟩ := blamed
    have he : e.Plain := Signature.bind_plain h
    dsimp only
    cases harg : index.bind (call.args[·]?) with
    | none => exact R.throws he
    | some arg =>
      obtain ⟨i, -, hi⟩ := Option.bind_eq_some_iff.mp harg
      have hnode := Expr.node_mem (exprSites_subset ha arg (List.mem_of_getElem? hi))
      exact R.located hnode (R.throws he)

theorem callScript (f : Declaration) (args : List Value) {site : Option Position}
    (hs : R.Calls prog region f site) : R.keeps region (E.callScript f args site) := by
  unfold Evaluator.callScript
  split
  · rw [Evaluator.body_eq]
    exact R.withFunction hs (R.stmts hE (R.sites_body f ▸ List.Subset.refl f.sites))
      (Evaluator.stmts_positioned hE.positions f.body)
  · exact R.fail fun h => h

theorem call {call : Call} (h : call.sites ⊆ R.sites region) :
    R.keeps region (E.call prog call) := by
  refine R.callee fun m hfinds => ?_
  unfold Program.callee?
  cases prog.registry.builtin? call.name with
  | some f => exact R.callHost hE f (Call.args_subset h)
  | none =>
    cases hf : prog.functions.lookup? (Program.callingUnit m call) call.name with
    | some f =>
      refine R.bind (R.arguments hE (Call.args_subset h)) fun args => ?_
      exact R.callScript hE f args ⟨call.name, _, Call.site_mem h, hfinds, hf⟩
    | none =>
      cases prog.hostCallee? m call.name with
      | none => exact R.fail fun h => h
      | some f => exact R.callHost hE f (Call.args_subset h)

-- ---------------------------------------------------------------------------
-- Expressions
-- ---------------------------------------------------------------------------

theorem chain {x : Exec P Unit} (hx : R.puts region x) {rest : List (BinaryOp × Expr)}
    (h : operandSites rest ⊆ R.sites region) : R.puts region (x >>= fun _ => E.chain rest) := by
  -- What is on the stack so far takes in one more operator with each step.
  induction rest generalizing x with
  | nil => simpa [Evaluator.chain] using hx
  | cons entry rest ih =>
    obtain ⟨op, e⟩ := entry
    obtain ⟨he, hrest⟩ := List.append_subset.mp h
    have hchain := ih (R.binary (p := e.pos) op (Expr.node_mem he) hx (hE.expr e he)) hrest
    simpa only [Evaluator.chain, Evaluator.operand, bind_assoc] using hchain

theorem operandOf {e : Expr} (he : e.sites ⊆ R.sites region) : R.puts region (E.operand e) :=
  R.operand (Expr.node_mem he) (hE.expr e he)

omit hE in
theorem pushed {x : Exec P Value} {f : Value → Value} (h : R.keeps region x) :
    R.yields region (x >>= fun v => Exec.push (f v)) :=
  R.after h fun v => R.weaken (R.push (f v))

theorem exprForm {form : ExprForm} (h : form.sites ⊆ R.sites region) :
    R.yields region (E.exprForm prog form) := by
  cases form with
  | int | float | str | bool | null => exact R.weaken (R.push _)
  | paren inner => exact hE.expr inner h
  | path path => exact R.pushed (f := id) (R.read hE h)
  | unary op operand => exact R.weaken (R.unary op (R.operandOf hE h))
  | binary first rest =>
    obtain ⟨hfirst, hrest⟩ := List.append_subset.mp h
    exact R.weaken (R.chain hE (R.operandOf hE hfirst) hrest)
  | ternary cond yes no =>
    obtain ⟨hcond, h⟩ := List.append_subset.mp h
    obtain ⟨hyes, hno⟩ := List.append_subset.mp h
    refine R.after (R.condition hE hcond) fun b => ?_
    cases b with
    | true => exact hE.expr yes hyes
    | false => exact hE.expr no hno
  | assign target op value =>
    obtain ⟨htarget, hvalue⟩ := List.append_subset.mp h
    exact R.pushed (f := id) (R.assign hE op htarget hvalue)
  | incDec target increment before =>
    exact R.pushed (f := id) (R.incDec hE increment before h)
  | call call =>
    refine R.after (R.call hE h) fun v => ?_
    cases v with
    | none => exact R.skip
    | some v => exact R.weaken (R.push v)
  | keyValue key value => exact R.pushed (f := .pair key) (R.value hE h _)

theorem exprNode {e : Expr} (he : e.sites ⊆ R.sites region) :
    R.yields region (E.evalExpr prog e) :=
  R.placed (Expr.node_mem he) (R.exprForm hE (Expr.form_subset he))

-- ---------------------------------------------------------------------------
-- Selection and iteration
-- ---------------------------------------------------------------------------

theorem conditional {cond : Expr} {yes : List Stmt} {otherwise : Option Stmt}
    (hcond : cond.sites ⊆ R.sites region) (hyes : stmtSites yes ⊆ R.sites region)
    (hotherwise : otherwiseSites otherwise ⊆ R.sites region) :
    R.keeps region (E.conditional cond yes otherwise) := by
  refine R.bind (R.condition hE hcond) fun b => ?_
  cases b with
  | true => exact R.block hE hyes
  | false =>
    cases otherwise with
    | none => exact R.pure _
    | some s => exact hE.stmt s hotherwise

theorem anyMatches (subject : Option Value) {values : List Expr}
    (h : exprSites values ⊆ R.sites region) : R.keeps region (E.anyMatches subject values) := by
  induction values with
  | nil => exact R.pure _
  | cons e rest ih =>
    obtain ⟨he, hrest⟩ := List.append_subset.mp h
    refine R.bind (R.value hE he "case") fun v => ?_
    refine R.bind R.view fun view => ?_
    split
    · exact R.pure _
    · exact ih hrest

theorem subject {subject : Option Expr} (h : optionalSites subject ⊆ R.sites region) :
    R.keeps region (E.subject subject) := by
  cases subject with
  | none => exact R.pure _
  | some e => exact R.bind (R.value hE h "switch") fun v => R.pure _

theorem firstMatch (subject : Option Value) {cases : List Case} {next : Option Case → Exec P α}
    (hcases : caseSites cases ⊆ R.sites region) (hnone : R.keeps region (next none))
    (hsome : ∀ c ∈ cases, R.keeps region (next (some c))) :
    R.keeps region (E.firstMatch subject cases >>= next) := by
  induction cases with
  | nil => simpa [Evaluator.firstMatch] using hnone
  | cons c rest ih =>
    obtain ⟨values, body, pos⟩ := c
    obtain ⟨-, hcases⟩ := List.cons_subset.mp hcases
    obtain ⟨hvalues, hcases⟩ := List.append_subset.mp hcases
    obtain ⟨-, hrest⟩ := List.append_subset.mp hcases
    rw [Evaluator.firstMatch, bind_assoc]
    refine R.bind (R.anyMatches hE subject hvalues) fun found => ?_
    cases found with
    | true => simpa using hsome _ List.mem_cons_self
    | false => exact ih hrest fun c hc => hsome c (List.mem_cons_of_mem _ hc)

theorem switch {subject : Option Expr} {cases : List Case} {default : Option (List Stmt)}
    (hsubject : optionalSites subject ⊆ R.sites region)
    (hcases : caseSites cases ⊆ R.sites region)
    (hdefault : bodySites default ⊆ R.sites region) :
    R.keeps region (E.switch subject cases default) := by
  refine R.bind (R.subject hE hsubject) fun subject => ?_
  refine R.firstMatch hE subject hcases ?_ fun c hc => ?_
  · cases default with
    | none => exact R.pure _
    | some body => exact R.block hE hdefault
  · obtain ⟨hpos, hbody⟩ := caseSites_subset hcases c hc
    exact R.located hpos (R.block hE hbody)

theorem holds (wanted : Bool) {cond : Option Expr} (h : optionalSites cond ⊆ R.sites region) :
    R.keeps region (E.holds wanted cond) := by
  cases cond with
  | none => exact R.pure _
  | some cond => exact R.bind (R.condition hE h) fun b => R.pure _

structure Around (sites : List Site) (loop : Loop) : Prop where
  init : optionalSites loop.init ⊆ sites
  pre : optionalSites loop.pre ⊆ sites
  body : stmtSites loop.body ⊆ sites
  step : optionalSites loop.step ⊆ sites
  post : optionalSites loop.post ⊆ sites

theorem goRound {loop : Loop} (h : Around (R.sites region) loop) (n : Nat) :
    R.keeps region (E.goRound loop n) := by
  induction n with
  | zero => exact R.outOfFuel
  | succ n ih =>
    have hrest : R.keeps region (do
        E.discard loop.step
        if ← E.holds loop.wanted loop.post then E.goRound loop n else return .normal) := by
      refine R.bind (R.discard hE h.step) fun _ => ?_
      refine R.bind (R.holds hE loop.wanted h.post) fun b => ?_
      cases b with
      | true => exact ih
      | false => exact R.pure _
    refine R.bind (R.holds hE loop.wanted h.pre) fun b => ?_
    cases b with
    | false => exact R.pure _
    | true =>
      refine R.bind (R.block hE h.body) fun signal => ?_
      cases signal with
      | brk => exact R.pure _
      | ret v => exact R.pure _
      | normal => exact hrest
      | cont => exact hrest

theorem loop {loop : Loop} (h : Around (R.sites region) loop) : R.keeps region (E.loop loop) :=
  R.withScope (R.bind (R.discard hE h.init) fun _ => R.goRound hE h E.rounds)

omit hE in
theorem setVariable (name : Option String) (v : Value) :
    R.keeps region (Evaluator.setVariable name v : Exec P Unit) := by
  cases name with
  | none => exact R.pure ()
  | some name => exact R.store name v

omit hE in
theorem declareVariable (name : Option String) :
    R.keeps region (Evaluator.declareVariable name : Exec P Unit) := by
  cases name with
  | none => exact R.pure ()
  | some name => exact R.define name .nil

theorem walk {range : Range} (hsource : .node range.source ∈ R.sites region)
    (hbody : stmtSites range.body ⊆ R.sites region) (n : Nat) (cursor : Cursor) :
    R.keeps region (E.walk prog range n cursor) := by
  induction n generalizing cursor with
  | zero => exact R.outOfFuel
  | succ n ih =>
    refine R.bind (R.located hsource (R.advance cursor)) fun next => ?_
    rcases next with _ | ⟨⟨key, v⟩, cursor⟩
    · exact R.pure _
    · refine R.bind (R.setVariable range.key key) fun _ => ?_
      refine R.bind (R.setVariable range.value v) fun _ => ?_
      refine R.bind (R.block hE hbody) fun signal => ?_
      cases signal with
      | brk => exact R.pure _
      | ret v => exact R.pure _
      | normal => exact ih cursor
      | cont => exact ih cursor

theorem range (key value : Option String) (declare : Bool) {source : Expr} {body : List Stmt}
    (hsource : source.sites ⊆ R.sites region) (hbody : stmtSites body ⊆ R.sites region) :
    R.keeps region (E.range prog key value declare source body) := by
  have hnode := Expr.node_mem hsource
  refine R.bind (R.value hE hsource "range") fun v => ?_
  refine R.bind (R.located hnode (R.bind R.world fun w =>
    R.ofExcept (Cursor.start_ordinary prog.host w v))) fun cursor => ?_
  refine R.withScope ?_
  cases declare with
  | true =>
    refine R.bind (R.declareVariable key) fun _ => ?_
    exact R.bind (R.declareVariable value) fun _ => R.walk hE hnode hbody _ cursor
  | false => exact R.walk hE hnode hbody _ cursor

-- ---------------------------------------------------------------------------
-- Resources and failures
-- ---------------------------------------------------------------------------

theorem nested {body : Exec P Signal} (hb : R.keeps region body) {resources : List Expr}
    (h : exprSites resources ⊆ R.sites region) :
    R.keeps region (E.nested prog body resources) := by
  induction resources with
  | nil => exact hb
  | cons e rest ih =>
    obtain ⟨he, hrest⟩ := List.append_subset.mp h
    exact R.bind (R.isolated hE he) fun v => R.holding (Expr.node_mem he) (ih hrest)

theorem withResources {resources : List Expr} {body : List Stmt}
    (hresources : exprSites resources ⊆ R.sites region)
    (hbody : stmtSites body ⊆ R.sites region) :
    R.keeps region (E.withResources prog resources body) := by
  rw [Evaluator.withResources_eq_nested]
  exact R.nested hE (R.block hE hbody) hresources

theorem handle {clause : Handler} (h : stmtSites clause.body ⊆ R.sites region) (e : Failure) :
    R.keeps region (E.handle (P := P) clause e) :=
  R.withScope (R.bind (R.define clause.name _) fun _ => R.stmts hE h)

theorem guarded {attempted : Exec P Signal} (h : R.keeps region attempted)
    {handler : Option Handler} (hhandler : handlerSites handler ⊆ R.sites region) :
    R.keeps region (E.guarded attempted handler) := by
  cases handler with
  | none => exact h
  | some clause =>
    obtain ⟨name, body⟩ := clause
    refine R.recover h (R.handle hE hhandler) fun e e' htext => ?_
    rw [Evaluator.handle, Evaluator.handle, htext]

theorem tryBlock {resources : List Expr} {body : List Stmt} {handler : Option Handler}
    {cleanup : Option (List Stmt)} (hresources : exprSites resources ⊆ R.sites region)
    (hbody : stmtSites body ⊆ R.sites region) (hhandler : handlerSites handler ⊆ R.sites region)
    (hcleanup : bodySites cleanup ⊆ R.sites region) :
    R.keeps region (E.tryBlock prog resources body handler cleanup) := by
  have hattempted := R.withScope (R.withResources hE hresources hbody)
  have hhandled := R.guarded hE hattempted hhandler
  cases cleanup with
  | none => exact hhandled
  | some cleanup => exact R.finish hhandled (R.block hE hcleanup)

-- ---------------------------------------------------------------------------
-- Statements
-- ---------------------------------------------------------------------------

theorem stmtForm {form : StmtForm} (h : form.sites ⊆ R.sites region) :
    R.keeps region (E.stmtForm prog form) := by
  have hnone : optionalSites none ⊆ R.sites region := List.nil_subset _
  cases form with
  | block body => exact R.block hE h
  | expr e => exact R.bind (R.isolated hE h) fun _ => R.pure _
  | ite cond yes otherwise =>
    obtain ⟨hcond, h⟩ := List.append_subset.mp h
    obtain ⟨hyes, hotherwise⟩ := List.append_subset.mp h
    exact R.conditional hE hcond hyes hotherwise
  | forLoop init cond step body =>
    obtain ⟨hinit, h⟩ := List.append_subset.mp h
    obtain ⟨hcond, h⟩ := List.append_subset.mp h
    obtain ⟨hstep, hbody⟩ := List.append_subset.mp h
    exact R.loop hE ⟨hinit, hcond, hbody, hstep, hnone⟩
  | whileLoop cond body =>
    obtain ⟨hcond, hbody⟩ := List.append_subset.mp h
    exact R.loop hE ⟨hnone, hcond, hbody, hnone, hnone⟩
  | doWhile body cond | repeatUntil body cond =>
    obtain ⟨hbody, hcond⟩ := List.append_subset.mp h
    exact R.loop hE ⟨hnone, hnone, hbody, hnone, hcond⟩
  | forRange key value declare source body =>
    obtain ⟨hsource, hbody⟩ := List.append_subset.mp h
    exact R.range hE key value declare hsource hbody
  | ret value =>
    cases value with
    | none => exact R.pure _
    | some e => exact R.bind (R.value hE h "return") fun v => R.pure _
  | brk | cont | empty => exact R.pure _
  | switch subject cases default =>
    obtain ⟨hsubject, h⟩ := List.append_subset.mp h
    obtain ⟨hcases, hdefault⟩ := List.append_subset.mp h
    exact R.switch hE hsubject hcases hdefault
  | tryBlock resources body handler cleanup =>
    obtain ⟨hresources, h⟩ := List.append_subset.mp h
    obtain ⟨hbody, h⟩ := List.append_subset.mp h
    obtain ⟨hhandler, hcleanup⟩ := List.append_subset.mp h
    exact R.tryBlock hE hresources hbody hhandler hcleanup

theorem stmtNode {s : Stmt} (h : s.sites ⊆ R.sites region) : R.keeps region (E.execStmt prog s) :=
  R.located (Stmt.node_mem h) (R.stmtForm hE (Stmt.form_subset h))

end

-- ---------------------------------------------------------------------------
-- Runs
-- ---------------------------------------------------------------------------

/-- Parts that are evaluated in so many steps have the properties: one step more is a node of the
tree whose parts are evaluated in one step less. -/
theorem parts (n : Nat) : R.Parts (prog.evaluator n) := by
  induction n with
  | zero => exact ⟨fun _ _ => R.stuck, fun _ _ => R.outOfFuel, prog.evaluator_positions 0⟩
  | succ n ih =>
    exact ⟨fun e he => R.exprNode ih he, fun s hs => R.stmtNode ih hs,
      prog.evaluator_positions _⟩

end Regime

namespace Regime

variable {prog : Program P} (R : Regime prog) {region : R.Region}

theorem runMain (n : Nat) (h : .call "main" none ∈ R.sites region) :
    R.keeps region (prog.runMain n) := by
  unfold Program.runMain
  cases hf : prog.functions.lookup? Position.hostUnit "main" with
  | none => exact R.fail fun h => h
  | some f =>
    have hsite : R.Calls prog region f none := ⟨_, _, h, R.finds_host region, hf⟩
    exact R.bind (R.callScript (R.parts n) f [] hsite) fun _ => R.pure ()

theorem callByName (n : Nat) (name : String) (args : List Value)
    (h : .call name none ∈ R.sites region) : R.keeps region (prog.callByName n name args) := by
  unfold Program.callByName
  cases hf : prog.functions.lookup? Position.hostUnit name with
  | some f => exact R.callScript (R.parts n) f args ⟨name, _, h, R.finds_host region, hf⟩
  | none =>
    cases prog.registry.builtin? name with
    | none => exact R.fail fun h => h
    | some f =>
      refine R.bind R.view fun view => ?_
      cases h : f.signature.bind view args with
      | ok args => exact R.invoke h
      | error blamed => exact R.throws (Signature.bind_plain h)

theorem execute (n : Nat) {s : Stmt} (hs : s.sites ⊆ R.sites region) :
    R.keeps region (prog.execute n s) := by
  refine R.bind ?_ fun _ => (R.parts n).stmt s hs
  unfold Stmt.checkPlacement
  cases h : s.misplaced? 0 with
  | none => exact R.pure ()
  | some e =>
    obtain ⟨jump, p, hp, rfl⟩ := s.misplaced?_site hs h
    have hjump : R.keeps region (Exec.fail (.invalidControl jump) : Exec P Unit) :=
      R.fail fun h => h
    exact R.located hp hjump

theorem evaluate (n : Nat) {e : Expr} (he : e.sites ⊆ R.sites region) :
    R.keeps region (prog.evaluate n e) :=
  R.isolated (R.parts n) he

theorem enter (n : Nat) (entry : Entry) : R.keeps (R.entry entry) (prog.enter n entry) := by
  have hsites : entry.sites ⊆ R.sites (R.entry entry) :=
    R.sites_entry entry ▸ List.Subset.refl entry.sites
  cases entry with
  | main => exact R.bind (R.runMain n (hsites List.mem_cons_self)) fun _ => R.pure _
  | call name args =>
    exact R.bind (R.callByName n name args (hsites List.mem_cons_self)) fun _ => R.pure _
  | execute s => exact R.bind (R.execute n hsites) fun _ => R.pure _
  | evaluate e => exact R.bind (R.evaluate n hsites) fun _ => R.pure _

end Regime

end HostScript
