import HostScript.Proofs.Exec.Paths
import HostScript.Proofs.Exec.Storage

/-!
# Assignments store all or nothing

An assignment, an increment or a decrement works out first what goes where, and stores then. When it
fails, all that it has done is to evaluate its value and its indices as far as it came; when it
succeeds, one slot holds what was to be stored, and all others hold what they did
(`Evaluator.update_stores`). The slot is a name in a scope, a position of a list or a key of a map;
only the blank name stands for none.
-/

namespace HostScript

variable {P : Platform}

-- ---------------------------------------------------------------------------
-- Slots
-- ---------------------------------------------------------------------------

inductive Part where
  | position (n : Nat)
  | key (name : String)
  deriving DecidableEq

namespace Object

def part? : Object P → Part → Option Value
  | .list items, .position n => items[n]?
  | .map entries, .key name => entries.get? name
  | _, _ => none

def withPart (v : Value) : Object P → Part → Object P
  | .list items, .position n => .list (items.setIfInBounds n v)
  | .map entries, .key name => .map (entries.insert name v)
  | o, _ => o

/-- The parts that an object has room for. A list has no more positions than items, a map room for
any key. -/
inductive Takes : Object P → Part → Prop
  | position {items : Array Value} {n : Nat} (h : n < items.size) :
    Takes (.list items) (.position n)
  | key (entries : Entries) (name : String) : Takes (.map entries) (.key name)

theorem part?_withPart {o : Object P} {part : Part} (h : o.Takes part) (v : Value) (other : Part) :
    (o.withPart v part).part? other = if other = part then some v else o.part? other := by
  cases h with
  | @position items n h =>
    cases other with
    | position i =>
      by_cases hi : i = n <;> simp [withPart, part?, hi, h, Ne.symm]
    | key name => simp [withPart, part?]
  | key entries name =>
    cases other with
    | position i => simp [withPart, part?]
    | key other => simp [withPart, part?, Entries.get?_insert]

end Object

inductive Slot where
  | binding (scope : Handle) (name : String)
  | part (object : Address) (part : Part)
  deriving DecidableEq

namespace Machine

def content? (m : Machine P) : Slot → Option Value
  | .binding scope name => (m.scopes.bindings scope).get? name
  | .part r part => (m.world.object? r).bind (·.part? part)

def fill (m : Machine P) (v : Value) : Option Slot → Machine P
  | none => m
  | some (.binding scope name) => { m with scopes := m.scopes.defineIn scope name v }
  | some (.part r part) =>
    match m.world.object? r with
    | some o => { m with world := m.world.put r (o.withPart v part) }
    | none => m

@[simp] theorem fill_operands (m : Machine P) (v : Value) (slot : Option Slot) :
    (m.fill v slot).operands = m.operands := by
  unfold fill
  split
  · rfl
  · rfl
  · split <;> rfl

inductive Room (m : Machine P) : Option Slot → Prop
  | none : Room m none
  | binding {scope : Handle} {name : String} (hscope : scope < m.scopes.cells.size)
      (hname : name ≠ blank) : Room m (some (.binding scope name))
  | part {r : Address} {part : Part} {o : Object P} (ho : m.world.object? r = some o)
      (h : o.Takes part) : Room m (some (.part r part))

theorem content?_fill {m : Machine P} {slot : Option Slot} (h : m.Room slot) (v : Value)
    (other : Slot) :
    (m.fill v slot).content? other = if slot = some other then some v else m.content? other := by
  cases h with
  | none => rfl
  | @binding scope name hscope hname =>
    cases other with
    | part r part => simp [fill, content?]
    | binding scope' other =>
      by_cases hs : scope' = scope
      · subst hs
        simp [fill, content?, Scopes.get?_defineIn name v hscope, hname, eq_comm]
      · simp [fill, content?, Scopes.bindings_defineIn_ne _ _ _ hs, Ne.symm hs]
  | @part r part o ho h =>
    cases other with
    | binding scope name => simp [fill, content?, ho]
    | part r' other =>
      by_cases hr : r' = r
      · subst hr
        simp [fill, content?, ho, World.object?_put_self ho, Object.part?_withPart h, eq_comm]
      · simp [fill, content?, ho, World.object?_put_ne hr, Ne.symm hr]

end Machine

-- ---------------------------------------------------------------------------
-- Where assignments store
-- ---------------------------------------------------------------------------

inductive Destination where
  | declared (name : String)
  | resolved (place : Place)

/-- The slot that a place denotes: a name where it is bound, or else in the current scope, an item
of a list by the number that the key is, or an entry of a map by its name or by the string that the
key is. The blank name denotes none. -/
inductive Place.Denotes (m : Machine P) : Place → Option Slot → Prop
  | blank : Denotes m (.binding blank) none
  | binding {name : String} (hname : name ≠ HostScript.blank) :
      Denotes m (.binding name)
        (some (.binding ((m.scopes.binder? m.scopes.current name).getD m.scopes.current) name))
  | field {container : Value} {r : Address} {entries : Entries} (hr : container.unwrapped = .ref r)
      (ho : m.world.object? r = some (.map entries)) (name : String) :
      Denotes m (.field container name) (some (.part r (.key name)))
  | item {container key : Value} {r : Address} {items : Array Value} {index : Int64}
    {position : Nat}
      (hr : container.unwrapped = .ref r) (ho : m.world.object? r = some (.list items))
      (hindex : (m.world.viewWithin [r]).asInt key = .ok index)
      (hposition : placeIn items.size index = .ok position) :
      Denotes m (.index container key) (some (.part r (.position position)))
  | entry {container key : Value} {r : Address} {entries : Entries} {name : String}
      (hr : container.unwrapped = .ref r) (ho : m.world.object? r = some (.map entries))
      (hname : m.world.view.asString key = .ok name) :
      Denotes m (.index container key) (some (.part r (.key name)))

inductive Destination.Denotes (m : Machine P) : Destination → Option Slot → Prop
  | blank : Denotes m (.declared blank) none
  | declared {name : String} (hname : name ≠ HostScript.blank) :
      Denotes m (.declared name) (some (.binding m.scopes.current name))
  | resolved {place : Place} {slot : Option Slot} (h : place.Denotes m slot) :
      Denotes m (.resolved place) slot

theorem Place.Denotes.room {m : Machine P} {place : Place} {slot : Option Slot}
    (h : place.Denotes m slot) : m.Room slot := by
  cases h with
  | blank => exact .none
  | @binding name hname =>
    refine .binding ?_ hname
    cases hb : m.scopes.binder? m.scopes.current name with
    | none => exact m.scopes.current_lt
    | some scope =>
      exact Nat.lt_of_le_of_lt (Scopes.le_of_mem_chain (Scopes.binder?_eq_some hb).1)
        m.scopes.current_lt
  | field hr ho name => exact .part ho (.key _ name)
  | item hr ho hindex hposition => exact .part ho (.position (placeIn_lt hposition))
  | entry hr ho hname => exact .part ho (.key _ _)

theorem Destination.Denotes.room {m : Machine P} {destination : Destination} {slot : Option Slot}
    (h : destination.Denotes m slot) : m.Room slot := by
  cases h with
  | blank => exact .none
  | declared hname => exact .binding m.scopes.current_lt hname
  | resolved h => exact h.room

-- ---------------------------------------------------------------------------
-- Storing
-- ---------------------------------------------------------------------------

theorem Scopes.store_eq (s : Scopes) (name : String) (v : Value) :
    s.store name v = s.defineIn ((s.binder? s.current name).getD s.current) name v := by
  unfold store assign assignFrom define
  cases s.binder? s.current name <;> rfl

theorem Scopes.defineIn_blank (s : Scopes) (h : Handle) (v : Value) : s.defineIn h blank v = s :=
  if_pos rfl

theorem Machine.fill_part {m : Machine P} {r : Address} {o : Object P}
    (ho : m.world.object? r = some o) (v : Value) (part : Part) :
    m.fill v (some (.part r part)) = { m with world := m.world.put r (o.withPart v part) } := by
  rw [fill, ho]

namespace Host

variable {w : World P} {r : Address}

theorem fieldsOf?_cases (H : Host P)
    (h : ∀ cell, w.object? r = some (.foreign cell) → H.fields? r cell = none) :
    H.fieldsOf? w r = none ∨ (∃ entries, w.object? r = some (.map entries)) ∨
      ∃ p, H.fieldsOf? w r = some (.ofPackage p) := by
  unfold fieldsOf?
  split
  next entries ho => exact .inr (.inl ⟨entries, ho⟩)
  next p ho => exact .inr (.inr ⟨p, rfl⟩)
  next cell ho => exact .inl (h cell ho)
  next => exact .inl rfl

theorem indexedOf?_cases (H : Host P)
    (h : ∀ cell, w.object? r = some (.foreign cell) → H.indexed? r cell = none) :
    H.indexedOf? w r = none ∨ w.IsContainer r := by
  unfold indexedOf?
  split
  next items ho => exact .inr (.inl ⟨items, ho⟩)
  next entries ho => exact .inr (.inr ⟨entries, ho⟩)
  next cell ho => exact .inl (h cell ho)
  next => exact .inl rfl

end Host

namespace Place

variable {prog : Program P} {m : Machine P} {place : Place} {slot : Option Slot}
  {container key v : Value} {r : Address}

theorem write_index_fails (hr : container.unwrapped = .ref r)
    (hi : prog.host.indexedOf? m.world r = none) (key : Value) :
    (Place.index container key).write prog v m =
      (.error (.failed (.of (.cannotSet (m.world.view.valueType (.ref r) ++ "["
        ++ m.world.view.text key ++ "]")))), m) := by
  rw [write, Exec.bind_ok (Exec.world_apply m), hr]
  dsimp only
  rw [hi]
  rfl

theorem Denotes.write_fills (h : place.Denotes m slot) (prog : Program P) (v : Value) :
    place.write prog v m = (.ok (), m.fill v slot) := by
  have hbinding (name : String) : (Place.binding name).write prog v m =
      (.ok (), { m with scopes := m.scopes.store name v }) := rfl
  cases h with
  | blank => rw [hbinding, Scopes.store_eq, Scopes.defineIn_blank, Machine.fill]
  | binding hname => rw [hbinding, Scopes.store_eq, Machine.fill]
  | field hr ho name =>
    rw [write_field hr (prog.host.fieldsOf?_map ho), Exec.act_ok (Fields.ofMap_put ho name v),
      Machine.fill_part ho]
    rfl
  | @item container key r items index position hr ho hindex hposition =>
    have hput : (Indexed.ofList r).put key v m.world =
        (.ok (), m.world.put r (.list (items.setIfInBounds position v))) := by
      rw [Indexed.ofList_put_eq ho, except_bind_eq_ok.mpr ⟨index, hindex, hposition⟩]
    rw [write_index hr (prog.host.indexedOf?_list ho), Exec.act_ok hput, Machine.fill_part ho]
    rfl
  | @entry container key r entries name hr ho hname =>
    have hput : (Indexed.ofMap r).put key v m.world =
        (.ok (), m.world.put r (.map (entries.insert name v))) := by
      rw [Indexed.ofMap_put_eq ho, hname]
    rw [write_index hr (prog.host.indexedOf?_map ho), Exec.act_ok hput, Machine.fill_part ho]
    rfl

/-- What the place lies in is not an object of the host's own that has a way to store into it. -/
def Ordinary (prog : Program P) (w : World P) : Place → Prop
  | .binding _ => True
  | .field container _ => ∀ r cell, container.unwrapped = .ref r →
      w.object? r = some (.foreign cell) → prog.host.fields? r cell = none
  | .index container _ => ∀ r cell, container.unwrapped = .ref r →
      w.object? r = some (.foreign cell) → prog.host.indexed? r cell = none

def Refuses (prog : Program P) (m : Machine P) (v : Value) (place : Place) : Prop :=
  ∃ halt m', place.write prog v m = (.error halt, m') ∧ m.Still m'

theorem field_refuses {name : String} (h : (Place.field container name).Ordinary prog m.world)
    (hno : ∀ slot, ¬ (Place.field container name).Denotes m slot) :
    (Place.field container name).Refuses prog m v := by
  cases hr : container.unwrapped with
  | ref r =>
    rcases prog.host.fieldsOf?_cases (h r · hr) with hnone | ⟨entries, ho⟩ | ⟨p, hpackage⟩
    · exact ⟨_, _, write_field_fails hr hnone name, .inl rfl⟩
    · exact absurd (.field hr ho name) (hno _)
    · have hput : (Fields.ofPackage p).put name v m.world =
          (.error (.of (.cannotSet name)), m.world) := rfl
      exact ⟨_, _, (write_field hr hpackage name).trans (Exec.act_error hput),
        .inr ⟨_, rfl⟩⟩
  | _ => exact ⟨_, m, by rw [write, hr]; rfl, .inl rfl⟩

theorem index_refuses (h : (Place.index container key).Ordinary prog m.world)
    (hno : ∀ slot, ¬ (Place.index container key).Denotes m slot) :
    (Place.index container key).Refuses prog m v := by
  cases hr : container.unwrapped with
  | ref r =>
    rcases prog.host.indexedOf?_cases (h r · hr) with hnone | ⟨items, ho⟩ | ⟨entries, ho⟩
    · exact ⟨_, _, write_index_fails hr hnone key, .inl rfl⟩
    · cases hfound : (do placeIn items.size (← (m.world.viewWithin [r]).asInt key)) with
      | ok position =>
        obtain ⟨index, hindex, hposition⟩ := except_bind_eq_ok.mp hfound
        exact absurd (.item hr ho hindex hposition) (hno _)
      | error e =>
        have hput : (Indexed.ofList r).put key v m.world = (.error e, m.world) := by
          rw [Indexed.ofList_put_eq ho, hfound]
        exact ⟨_, _,
          (write_index hr (prog.host.indexedOf?_list ho) key).trans (Exec.act_error hput),
          .inr ⟨e, rfl⟩⟩
    · cases hname : m.world.view.asString key with
      | ok name => exact absurd (.entry hr ho hname) (hno _)
      | error e =>
        have hput : (Indexed.ofMap r).put key v m.world = (.error e, m.world) := by
          rw [Indexed.ofMap_put_eq ho, hname]
        exact ⟨_, _,
          (write_index hr (prog.host.indexedOf?_map ho) key).trans (Exec.act_error hput),
          .inr ⟨e, rfl⟩⟩
  | _ => exact ⟨_, m, by rw [write, hr]; rfl, .inl rfl⟩

/-- A place that denotes no slot, and is not left to the host, takes no value. -/
theorem refuses (h : place.Ordinary prog m.world)
    (hno : ∀ slot, ¬ place.Denotes m slot) (v : Value) :
    place.Refuses prog m v := by
  cases place with
  | binding name =>
    by_cases hname : name = blank
    · subst hname
      exact absurd .blank (hno _)
    · exact absurd (.binding hname) (hno _)
  | field container name => exact field_refuses h hno
  | index container key => exact index_refuses h hno

end Place

namespace Destination

variable {prog : Program P} {m : Machine P} {destination : Destination}

def store (prog : Program P) (v : Value) : Destination → Exec P Unit
  | .declared name => Exec.scoping (·.define name v)
  | .resolved place => place.write prog v

def Ordinary (prog : Program P) (w : World P) : Destination → Prop
  | .declared _ => True
  | .resolved place => place.Ordinary prog w

theorem Denotes.store_fills {slot : Option Slot} (h : destination.Denotes m slot) (prog : Program P)
    (v : Value) : destination.store prog v m = (.ok (), m.fill v slot) := by
  have hdeclared (name : String) : (Destination.declared name).store prog v m =
      (.ok (), { m with scopes := m.scopes.define name v }) := rfl
  cases h with
  | blank => rw [hdeclared, Scopes.define, Scopes.defineIn_blank, Machine.fill]
  | declared hname => rw [hdeclared, Scopes.define, Machine.fill]
  | resolved h => exact h.write_fills prog v

theorem store_refused (h : destination.Ordinary prog m.world)
    (hno : ∀ slot, ¬ destination.Denotes m slot) (v : Value) :
    ∃ halt m', destination.store prog v m = (.error halt, m') ∧ m.Still m' := by
  cases destination with
  | declared name =>
    by_cases hname : name = blank
    · subst hname
      exact absurd .blank (hno _)
    · exact absurd (.declared hname) (hno _)
  | resolved place => exact place.refuses h (fun slot hslot => hno slot (.resolved hslot)) v

end Destination

-- ---------------------------------------------------------------------------
-- Assignments
-- ---------------------------------------------------------------------------

inductive Update where
  | assign (target : Path) (op : AssignOp) (value : Expr)
  | step (target : Path) (increment before : Bool)

structure Plan where
  destination : Destination
  stored : Value
  result : Value

namespace Update

def form : Update → ExprForm
  | .assign target op value => .assign target op value
  | .step target increment before => .incDec target increment before

/-- What is evaluated for it: its value first, and then the indices of its target. -/
def evaluations : Update → List (Expr × String)
  | .assign target _ value => (value, "assignment") :: target.uses
  | .step target _ _ => target.uses

def operate (prog : Program P) (op : BinaryOp) (place : Place) (v : Value) :
    Exec P (Value × Value) := do
  let old ← place.read prog
  let new ← Exec.ofExcept ((← Exec.view).binaryNamed op.symbol old v)
  return (old, new)

def workOut (E : Evaluator P) (prog : Program P) : Update → Exec P Plan
  | .assign target op value => do
    let v ← E.value value "assignment"
    match op with
    | .declare =>
      if target.isSimple then return ⟨.declared target.root, v, v⟩
      else Exec.fail (.cannotSet target.text)
    | .set => return ⟨.resolved (← E.place prog target), v, v⟩
    | .compound op =>
      let place ← E.place prog target
      let (_, new) ← operate prog op place v
      return ⟨.resolved place, new, new⟩
  | .step target increment before => do
    let place ← E.place prog target
    let (old, new) ← operate prog (if increment then .add else .sub) place (.int 1)
    return ⟨.resolved place, new, if before then new else old⟩

theorem exprForm_eq (E : Evaluator P) (prog : Program P) (u : Update) :
    E.exprForm prog u.form = (do
      let plan ← u.workOut E prog
      plan.destination.store prog plan.stored
      Exec.push plan.result) := by
  cases u with
  | assign target op value =>
    cases op with
    | declare =>
      cases hsimple : target.isSimple with
      | true =>
        simp [form, Evaluator.exprForm, Evaluator.assign, workOut, hsimple, Destination.store]
      | false =>
        simp [form, Evaluator.exprForm, Evaluator.assign, workOut, hsimple, Exec.fail]
    | set => simp [form, Evaluator.exprForm, Evaluator.assign, workOut, Destination.store]
    | compound op =>
      simp [form, Evaluator.exprForm, Evaluator.assign, workOut, operate, Destination.store]
  | step target increment before =>
    simp [form, Evaluator.exprForm, Evaluator.incDec, workOut, operate, Destination.store]

theorem evaluates_operate (E : Evaluator P) (prog : Program P) (op : BinaryOp) (place : Place)
    (v : Value) : E.Evaluates [] (operate prog op place v) :=
  (Evaluator.Evaluates.reading place).bind_nil fun _ =>
    (Evaluator.Evaluates.unchanged fun _ => rfl).bind_nil fun _ =>
      (Evaluator.Evaluates.ofExcept _).bind_nil fun _ => .pure _

/-- Working out what is to be stored is evaluating the value and the indices, and nothing more. -/
theorem evaluates_workOut (E : Evaluator P) (prog : Program P) (u : Update) :
    E.Evaluates u.evaluations (u.workOut E prog) := by
  cases u with
  | assign target op value =>
    refine (Evaluator.Evaluates.value value "assignment").bind fun v => ?_
    cases op with
    | declare =>
      change E.Evaluates target.uses (if target.isSimple then _ else _)
      split
      next hsimple =>
        rw [Path.uses_of_isSimple hsimple]
        exact .pure _
      next => exact .stop _ _
    | set => exact (Evaluator.Evaluates.place target).bind_nil fun place => .pure _
    | compound op =>
      exact (Evaluator.Evaluates.place target).bind_nil fun place =>
        (evaluates_operate E prog op place v).bind_nil fun _ => .pure _
  | step target increment before =>
    exact (Evaluator.Evaluates.place target).bind_nil fun place =>
      (evaluates_operate E prog _ place _).bind_nil fun _ => .pure _

end Update

/-- An assignment, an increment or a decrement stores all or nothing, unless the host has its own
way to store into what its target lies in. It fails if it cannot work out what is to be stored
where, or if that denotes no slot; then all that it has done is to evaluate its value and the
indices of its target, as far as it came. Otherwise it has evaluated all of them, each of them once
and in order; then the slot, if it is not the blank name, holds what was worked out, and all the
others hold what they did. -/
theorem Evaluator.update_stores (E : Evaluator P) (prog : Program P) (u : Update) (pos : Position)
    (m : Machine P)
    (hordinary : ∀ plan k, u.workOut E prog m = (.ok plan, k) →
      plan.destination.Ordinary prog k.world) :
    (∃ halt m', E.evalExpr prog ⟨u.form, pos⟩ m = (.error halt, m') ∧
      E.CutShort u.evaluations m m' ∧
      ∀ plan k slot, u.workOut E prog m = (.ok plan, k) →
        ¬ plan.destination.Denotes k slot) ∨
    ∃ plan k slot, E.inOrder u.evaluations m = (.ok (), k) ∧
      u.workOut E prog m = (.ok plan, k) ∧
      plan.destination.Denotes k slot ∧
      E.evalExpr prog ⟨u.form, pos⟩ m =
        (.ok (), { k.fill plan.stored slot with operands := plan.result :: k.operands }) ∧
      ∀ other, (k.fill plan.stored slot).content? other =
        if slot = some other then some plan.stored else k.content? other := by
  rw [evalExpr, u.exprForm_eq]
  rcases hwork : u.workOut E prog m with ⟨halt | plan, k⟩
  · left
    obtain ⟨halt', hfails⟩ := Exec.located_error (p := pos) (Exec.bind_error hwork)
    exact ⟨halt', k, hfails, (u.evaluates_workOut E prog).error hwork, fun _ _ _ => nofun⟩
  · have hall := (u.evaluates_workOut E prog).ok hwork
    by_cases hdenotes : ∃ slot, plan.destination.Denotes k slot
    · right
      obtain ⟨slot, hdenotes⟩ := hdenotes
      refine ⟨plan, k, slot, hall, rfl, hdenotes, Exec.located_ok ?_,
        Machine.content?_fill hdenotes.room plan.stored⟩
      rw [Exec.bind_ok hwork, Exec.bind_ok (hdenotes.store_fills prog plan.stored),
        ← k.fill_operands plan.stored slot]
      rfl
    · left
      have hno : ∀ slot, ¬ plan.destination.Denotes k slot := not_exists.mp hdenotes
      obtain ⟨halt, m', hstore, hstill⟩ :=
        Destination.store_refused (hordinary plan k hwork) hno plan.stored
      have hbody : (u.workOut E prog >>= fun plan => do
          plan.destination.store prog plan.stored
          Exec.push plan.result) m = (.error halt, m') := by
        rw [Exec.bind_ok hwork, Exec.bind_error hstore]
      obtain ⟨halt', hfails⟩ := Exec.located_error (p := pos) hbody
      refine ⟨halt', m', hfails,
        ⟨u.evaluations, List.prefix_rfl, .inr ⟨k, hall, hstill⟩⟩, ?_⟩
      rintro plan' k' slot ⟨⟩
      exact hno slot

namespace Workbench

/-- The assignment `row["1"] = "two"`. -/
def secondItemAssignment : Update :=
  .assign ⟨[⟨"row", [⟨.str "1", here⟩]⟩]⟩ .set ⟨.str "two", here⟩

theorem secondItem_assigned :
    (∀ plan k, secondItemAssignment.workOut (bare.evaluator 1) bare shelved = (.ok plan, k) →
      plan.destination.Ordinary bare k.world) ∧
    ∃ slot m', secondItem.Denotes shelved slot ∧
      (bare.evaluator 1).evalExpr bare ⟨secondItemAssignment.form, here⟩ shelved =
        (.ok (), m') ∧
      ∀ other, m'.content? other =
        if slot = some other then some (.str "two") else shelved.content? other := by
  have hwork : secondItemAssignment.workOut (bare.evaluator 1) bare shelved =
      (.ok ⟨.resolved secondItem, .str "two", .str "two"⟩, shelved) := by rfl
  have hordinary : ∀ plan k,
      secondItemAssignment.workOut (bare.evaluator 1) bare shelved = (.ok plan, k) →
        plan.destination.Ordinary bare k.world := by
    intro plan k h
    cases hwork.symm.trans h
    rintro r cell ⟨⟩ ho
    cases ho
  refine ⟨hordinary, ?_⟩
  rcases (bare.evaluator 1).update_stores bare secondItemAssignment here shelved hordinary with
    ⟨halt, m', hfails, -, -⟩ | ⟨plan, k, slot, -, hplan, hdenotes, hdone, hcontent⟩
  · have hdone :
        ((bare.evaluator 1).evalExpr bare ⟨secondItemAssignment.form, here⟩ shelved).1 =
        .ok () := by rfl
    rw [hfails] at hdone
    cases hdone
  · cases hwork.symm.trans hplan
    cases hdenotes with
    | resolved hdenotes => exact ⟨slot, _, hdenotes, hdone, hcontent⟩

end Workbench

end HostScript
