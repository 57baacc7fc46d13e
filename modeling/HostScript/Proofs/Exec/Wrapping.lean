import HostScript.Proofs.Exec.Rounds
import HostScript.Proofs.Object.Wrapping
import HostScript.Proofs.Syntax.Path
import HostScript.Workbench.Scripts

/-!
# Using what is named

A variable can stand for an object or for the object under names. Its fields and items are read and
stored, it is ranged over and spread, and all of that ends well for one exactly if it does for the
other, with the same values and the same effects (`wrapped_used_alike`). A method is looked for
under one name only: under more of them a call finds no methods, but still functions that stand in
fields.
-/

namespace HostScript

variable {P : Platform} {α β : Type}

def Machine.Twins (m m' : Machine P) : Prop :=
  m' = { m with scopes := m'.scopes }

/-- Two runs end well with the same value or not at all, and those that do have changed nothing but
the world and what is noted, and these alike. -/
structure EndAlike (n n' : Machine P) (r r' : Except Halt α × Machine P) : Prop where
  value : ∀ a, r.1 = .ok a ↔ r'.1 = .ok a
  here : ∀ a, r.1 = .ok a → r.2 = { n with world := r.2.world, journal := r.2.journal }
  there : ∀ a, r.1 = .ok a → r'.2 = { n' with world := r.2.world, journal := r.2.journal }

namespace Exec

def Matching (x y : Exec P α) : Prop :=
  ∀ n n', n.Twins n' → EndAlike n n' (x n) (y n')

namespace Matching

theorem bind {x y : Exec P α} {f g : α → Exec P β} (hx : Matching x y)
    (hf : ∀ a, Matching (f a) (g a)) :
    Matching (x >>= f) (y >>= g) := by
  intro n n' hn
  obtain ⟨hvalue, hhere, hthere⟩ := hx n n' hn
  rcases bind_cases x f n with ⟨halt, m, hm, hb⟩ | ⟨a, m, hm, hb⟩ <;>
    rcases bind_cases y g n' with ⟨halt', m', hm', hb'⟩ | ⟨a', m', hm', hb'⟩ <;>
    rw [hm, hm'] at hvalue <;> rw [hb, hb']
  · exact ⟨fun _ => ⟨nofun, nofun⟩, nofun, nofun⟩
  · exact nomatch (hvalue a').mpr rfl
  · exact nomatch (hvalue a).mp rfl
  · obtain rfl := Except.ok.inj ((hvalue a).mp rfl)
    rw [hm] at hhere hthere
    rw [hm'] at hthere
    have hhere := hhere a' rfl
    have hthere := hthere a' rfl
    dsimp only at hhere hthere
    have htwins : m.Twins m' := by
      rw [Machine.Twins, hhere, hthere, hn]
    obtain ⟨hvalue₂, hhere₂, hthere₂⟩ := hf a' m m' htwins
    refine ⟨hvalue₂, fun b h => ?_, fun b h => ?_⟩
    · rw [hhere₂ b h, hhere]
    · rw [hthere₂ b h, hthere]

theorem pure (a : α) : Matching (P := P) (Pure.pure a) (Pure.pure a) :=
  fun _ _ hn => ⟨fun _ => .rfl, fun _ _ => rfl, fun _ _ => by rw [hn]; rfl⟩

theorem stopped (halt halt' : Halt) : Matching (P := P) (α := α) (throw halt) (throw halt') :=
  fun _ _ _ => ⟨fun _ => ⟨nofun, nofun⟩, nofun, nofun⟩

theorem world : Matching (P := P) Exec.world Exec.world :=
  fun _ _ hn => ⟨fun _ => by rw [hn]; rfl, fun _ _ => rfl, fun _ _ => by rw [hn]; rfl⟩

theorem act (x : Act P α) : Matching (Exec.act x) (Exec.act x) := by
  intro n n' hn
  have hworld : n'.world = n.world := by rw [hn]
  rcases hx : x n.world with ⟨e | a, w⟩
  · rw [act_error hx, act_error (hworld ▸ hx)]
    exact ⟨fun _ => ⟨nofun, nofun⟩, nofun, nofun⟩
  · rw [act_ok hx, act_ok (hworld ▸ hx)]
    exact ⟨fun _ => .rfl, fun _ _ => rfl, fun _ _ => by rw [hn]⟩

theorem note (event : Event P) : Matching (Exec.note event) (Exec.note event) :=
  fun _ _ hn => ⟨fun _ => .rfl, fun _ _ => rfl, fun _ _ => by rw [hn]; rfl⟩

theorem located {x y : Exec P α} (h : Matching x y) (p p' : Position) :
    Matching (Exec.located p x) (Exec.located p' y) := by
  intro n n' hn
  obtain ⟨hvalue, hhere, hthere⟩ := h n n' hn
  rw [Exec.located, Exec.located, mapFailure_apply, mapFailure_apply]
  refine ⟨fun a => ?_, fun a ha => hhere a (changed_eq_ok.mp ha),
    fun a ha => hthere a (changed_eq_ok.mp ha)⟩
  rw [changed_eq_ok, changed_eq_ok]
  exact hvalue a

theorem ask (f : World P → Except Failure α) : Matching (Exec.ask f) (Exec.ask f) :=
  .act _

end Matching

end Exec

theorem EndAlike.after {x y : Exec P α} {f g : α → Exec P β} {m m' n n' : Machine P} {a b : α}
    (hx : x m = (.ok a, n)) (hy : y m' = (.ok b, n')) (hn : n.Twins n')
    (h : Exec.Matching (f a) (g b)) :
    EndAlike n n' ((x >>= f) m) ((y >>= g) m') := by
  rw [Exec.bind_ok hx, Exec.bind_ok hy]
  exact h n n' hn

-- ---------------------------------------------------------------------------
-- Looking through names
-- ---------------------------------------------------------------------------

section

variable {prog : Program P} {v o : Value} (h : v.unwrapped = o.unwrapped)
include h

theorem Exec.Matching.field {name : String} (hname : name ∉ Value.ownFields) :
    Matching (Exec.field prog v name) (Exec.field prog o name) := by
  refine Matching.bind .world fun w => ?_
  rw [Host.project?_unwrapped prog.host w hname v, h,
    ← Host.project?_unwrapped prog.host w hname o]
  cases prog.host.project? w o name with
  | none => exact .stopped _ _
  | some a => exact .pure a

theorem Exec.index_congr (key : Value) : Exec.index prog v key = Exec.index prog o key := by
  unfold Exec.index
  congr 1
  funext w
  rw [Host.index_unwrapped, h, ← Host.index_unwrapped]

theorem Exec.items_congr : Exec.items prog v = Exec.items prog o := by
  unfold Exec.items
  congr 1
  funext w
  rw [Host.items_unwrapped, h, ← Host.items_unwrapped]

theorem Place.write_field_congr (name : String) (new : Value) :
    (Place.field v name).write prog new = (Place.field o name).write prog new := by
  rw [Place.write, Place.write, h]

theorem Place.write_index_congr (key new : Value) :
    (Place.index v key).write prog new = (Place.index o key).write prog new := by
  rw [Place.write, Place.write, h]

theorem Cursor.start_congr (H : Host P) (w : World P) :
    Cursor.start H w v = Cursor.start H w o := by
  rw [Cursor.start_unwrapped, h, ← Cursor.start_unwrapped]

end

theorem Place.write_alike (prog : Program P) (place : Place)
    (hplace : ∀ name, place ≠ .binding name)
    (new : Value) : Exec.Matching (place.write prog new) (place.write prog new) := by
  cases place with
  | binding name => exact absurd rfl (hplace name)
  | field container name =>
    rw [Place.write]
    cases container.unwrapped with
    | ref r =>
      refine .bind .world fun w => ?_
      cases prog.host.fieldsOf? w r with
      | none => exact .stopped _ _
      | some fields => exact .act _
    | _ => exact .stopped _ _
  | index container key =>
    refine .bind .world fun w => ?_
    dsimp only
    cases container.unwrapped with
    | ref r =>
      dsimp only
      cases prog.host.indexedOf? w r with
      | none => exact .stopped _ _
      | some indexed => exact .act _
    | _ => exact .stopped _ _

-- ---------------------------------------------------------------------------
-- Variables
-- ---------------------------------------------------------------------------

def Path.member (x member : String) : Path :=
  ⟨[.named x, .named member]⟩

def Path.item (x : String) (e : Expr) : Path :=
  ⟨[⟨x, [e]⟩]⟩

theorem Path.root_item (x : String) (e : Expr) : (Path.item x e).root = x := rfl

def Expr.variable (x : String) (p : Position) : Expr :=
  ⟨.path ⟨[.named x]⟩, p⟩

/-- The machines differ in nothing but what names mean, and one name means a value in the first and
another in the second. -/
structure Machine.Rebinds (x : String) (v o : Value) (m m' : Machine P) : Prop where
  twins : m.Twins m'
  here : m.scopes.lookup x = some v
  there : m'.scopes.lookup x = some o

theorem Program.resolveRoot?_bound (prog : Program P) {m : Machine P} {x : String} {v : Value}
    (h : m.scopes.lookup x = some v) : prog.resolveRoot? m x = some v := by
  rw [resolveRoot?, h]
  rfl

theorem Program.value_variable (prog : Program P) (fuel : Nat) {m : Machine P} {x : String}
    {v : Value} (h : m.scopes.lookup x = some v) (p : Position) (what : String) :
    (prog.evaluator (fuel + 1)).value (.variable x p) what m = (.ok v, m) := by
  have hread : (prog.evaluator fuel).read prog ⟨[.named x]⟩ { m with operands := [] } =
      (.ok v, { m with operands := [] }) := by
    have hroot : prog.resolveRoot? { m with operands := [] } x = some v :=
      prog.resolveRoot?_bound h
    exact Exec.bind_ok (Exec.root_bound hroot)
  have hexpr : (prog.evaluator (fuel + 1)).expr (.variable x p) { m with operands := [] } =
      (.ok (), { m with operands := [v] }) := by
    change
      Exec.located p (do Exec.push (← (prog.evaluator fuel).read prog ⟨[.named x]⟩)) _ = _
    rw [Exec.located, Exec.mapFailure_apply, Exec.bind_ok hread]
    rfl
  have htop : (prog.evaluator (fuel + 1)).isolated (.variable x p) m = (.ok (some v), m) := by
    rw [Evaluator.isolated, Exec.top_apply, hexpr]
    rfl
  rw [Evaluator.value, Exec.bind_ok htop]
  rfl

-- ---------------------------------------------------------------------------
-- Methods
-- ---------------------------------------------------------------------------

namespace Program

variable {prog : Program P} {m : Machine P} {x member : String} {v : Value}

theorem resolve?_variable (h : m.scopes.lookup x = some v) (hdot : '.' ∉ x.toList) :
    prog.resolve? m (joinDotted [x]) = some v := by
  rw [resolve?, dottedParts_joinDotted (by simp) (by simpa using hdot)]
  dsimp only
  rw [prog.resolveRoot?_bound h]
  rfl

theorem resolve?_member (h : m.scopes.lookup x = some v)
    (hdot : ∀ part ∈ [x, member], '.' ∉ part.toList) :
    prog.resolve? m (joinDotted [x, member]) = prog.host.project? m.world v member := by
  rw [resolve?, dottedParts_joinDotted (by simp) hdot]
  dsimp only
  rw [prog.resolveRoot?_bound h, Option.bind_some, projectAll?]
  cases prog.host.project? m.world v member <;> rfl

def fieldCallable? (prog : Program P) (w : World P) (v : Value) (member : String) :
    Option (Callable P) :=
  ((prog.host.project? w v member).bind Value.address?).bind (prog.host.callableOf? w)

/-- A method of what a value refers to, which may have one name. -/
def methodCallable? (prog : Program P) (w : World P) (v : Value) (member : String) :
    Option (Callable P) :=
  match v with
  | .ref r => prog.host.methodOf? w r member
  | .pair _ v => v.address?.bind (prog.host.methodOf? w · member)
  | _ => none

theorem hostCallee?_member (h : m.scopes.lookup x = some v)
    (hdot : ∀ part ∈ [x, member], '.' ∉ part.toList) :
    prog.hostCallee? m (joinDotted [x, member]) =
      (prog.fieldCallable? m.world v member).or (prog.methodCallable? m.world v member) := by
  have hreceiver : receiverAndMember? (joinDotted [x, member]) = some (joinDotted [x], member) :=
    receiverAndMember?_joinDotted [x] (by simp) hdot
  have hx : '.' ∉ x.toList := hdot x (by simp)
  rw [hostCallee?, resolve?_member h hdot, hreceiver]
  unfold fieldCallable?
  cases ((prog.host.project? m.world v member).bind Value.address?).bind
      (prog.host.callableOf? m.world) with
  | some f => rfl
  | none =>
    dsimp only
    rw [Option.none_or, Option.bind_eq_bind, Option.bind_some]
    dsimp only
    rw [resolve?_variable h hx]
    unfold methodCallable?
    cases v <;> rfl

end Program

namespace Evaluator

variable {E : Evaluator P} {prog : Program P} {call : Call} {m m' n n' : Machine P}

theorem invoke_alike (prog : Program P) (f : Callable P) (args : List Value) :
    Exec.Matching (invoke prog f args) (invoke prog f args) :=
  .bind (.note _) fun _ => .bind (.act _) fun _ => .act _

theorem call_host {f : Callable P} (h : prog.callee? m call = some (.host f)) :
    E.call prog call m = E.callHost prog f call m := by
  have hcallee : Exec.callee prog call m = (.ok (some (.host f)), m) := by rw [← h]; rfl
  rw [Evaluator.call, Exec.bind_ok hcallee]

theorem call_undefined (h : prog.callee? m call = none) :
    E.call prog call m = (.error (.failed (.of (.undefinedFunction call.name))), m) := by
  have hcallee : Exec.callee prog call m = (.ok none, m) := by rw [← h]; rfl
  rw [Evaluator.call, Exec.bind_ok hcallee]
  rfl

theorem call_alike {found : Option (Callable P)} (h : prog.callee? m call = found.map .host)
    (h' : prog.callee? m' call = found.map .host) {args : List Value}
    (hargs : E.arguments prog call m = (.ok args, n))
    (hargs' : E.arguments prog call m' = (.ok args, n')) (hn : n.Twins n') :
    EndAlike n n' (E.call prog call m) (E.call prog call m') := by
  cases found with
  | none =>
    rw [call_undefined h, call_undefined h']
    exact ⟨fun _ => ⟨nofun, nofun⟩, nofun, nofun⟩
  | some f =>
    rw [call_host h, call_host h']
    refine .after hargs hargs' hn (.bind (.bind .world fun w => .pure w.view) fun view => ?_)
    rcases f.signature.bind view args with ⟨index, e⟩ | args
    · dsimp only
      cases index.bind (call.args[·]?) <;> exact .stopped _ _
    · exact invoke_alike prog f args

theorem values_append {init : List Expr} {e : Expr} {args : List Value} {v : Value}
    (hinit : E.values init m = (.ok args, n)) (he : E.value e "argument" n = (.ok v, n')) :
    E.values (init ++ [e]) m = (.ok (args ++ [v]), n') := by
  induction init generalizing m args with
  | nil =>
    cases hinit
    exact (Exec.bind_ok he).trans rfl
  | cons first rest ih =>
    rw [values] at hinit
    rcases Exec.bind_cases (E.value first "argument") _ m with
      ⟨halt, m₁, -, hb⟩ | ⟨a, m₁, hfirst, hb⟩ <;> rw [hb] at hinit
    · cases hinit
    · rcases Exec.bind_cases (E.values rest) (fun vs => pure (a :: vs)) m₁ with
        ⟨halt, m₂, -, hb⟩ | ⟨vs, m₂, hrest, hb⟩ <;> rw [hb] at hinit
      · cases hinit
      · cases hinit
        rw [List.cons_append, values, Exec.bind_ok hfirst, Exec.bind_ok (ih hrest)]
        rfl

theorem arguments_spreading {init : List Expr} {e : Expr} {args : List Value}
    {v : Value} {name : String} {p : Position} (hinit : E.values init m = (.ok args, n))
    (he : E.value e "argument" n = (.ok v, n')) :
    E.arguments prog ⟨name, init ++ [e], true, p⟩ m =
      (do return args ++ (← Exec.located e.pos (Exec.items prog v)) :
        Exec P (List Value)) n' := by
  rw [arguments, Exec.bind_ok (values_append hinit he)]
  simp

end Evaluator

theorem Program.callee?_host {prog : Program P} {m : Machine P} {call : Call}
    (hbuiltin : prog.registry.builtin? call.name = none)
    (hscript : prog.functions.lookup? (callingUnit m call) call.name = none) :
    prog.callee? m call = (prog.hostCallee? m call.name).map .host := by
  rw [callee?, hbuiltin]
  dsimp only
  rw [hscript]

-- ---------------------------------------------------------------------------
-- All uses
-- ---------------------------------------------------------------------------

/-- Whatever is done with a variable or its parts, calls apart, ends alike on two machines. What an
index or a value to store is evaluated to is the same on both. -/
structure UsedAlike (E : Evaluator P) (prog : Program P) (x member : String) (m m' : Machine P) :
    Prop where
  read : EndAlike m m' (E.read prog (.member x member) m) (E.read prog (.member x member) m')
  readItem :
    ∀ e key n n', E.value e "index" m = (.ok key, n) → E.value e "index" m' = (.ok key, n') →
    n.Twins n' → EndAlike n n' (E.read prog (.item x e) m) (E.read prog (.item x e) m')
  store : ∀ e v before before', E.value e "assignment" before = (.ok v, m) →
    E.value e "assignment" before' = (.ok v, m') →
      EndAlike m m' (E.assign prog (.member x member) .set e before)
        (E.assign prog (.member x member) .set e before')
  storeItem : ∀ e v before before', E.value e "assignment" before = (.ok v, m) →
    E.value e "assignment" before' = (.ok v, m') →
    ∀ i key n n', E.value i "index" m = (.ok key, n) → E.value i "index" m' = (.ok key, n') →
      n.Twins n' →
        EndAlike n n' (E.assign prog (.item x i) .set e before)
          (E.assign prog (.item x i) .set e before')
  /-- Both ranges walk the same, or neither is begun. -/
  range : ∀ key value declare p body,
    (∃ cursor, E.range prog key value declare (.variable x p) body m =
        E.rangeOver prog key value declare p body cursor m ∧
      E.range prog key value declare (.variable x p) body m' =
        E.rangeOver prog key value declare p body cursor m') ∨
    ∃ e, E.range prog key value declare (.variable x p) body m = (.error (.failed e), m) ∧
      E.range prog key value declare (.variable x p) body m' = (.error (.failed e), m')
  spread : ∀ init p name q args n n', E.values init m = (.ok args, n) →
    E.values init m' = (.ok args, n') → n.Twins n' → n.scopes.lookup x = m.scopes.lookup x →
      n'.scopes.lookup x = m'.scopes.lookup x →
        EndAlike n n' (E.arguments prog ⟨name, init ++ [.variable x p], true, q⟩ m)
          (E.arguments prog ⟨name, init ++ [.variable x p], true, q⟩ m')

theorem usedAlike {prog : Program P} {fuel : Nat} {x member : String} {v o : Value}
    {m m' : Machine P} (h : m.Rebinds x v o m') (hsame : v.unwrapped = o.unwrapped)
    (hmember : member ∉ Value.ownFields) :
    UsedAlike (prog.evaluator (fuel + 1)) prog x member m m' where
  read := .after (Exec.root_bound (prog.resolveRoot?_bound h.here))
    (Exec.root_bound (prog.resolveRoot?_bound h.there)) h.twins
    ((Exec.Matching.field hsame hmember).bind .pure)
  readItem e key n n' hkey hkey' hn := by
    have hread : Exec.Matching (Exec.index prog v key) (Exec.index prog o key) := by
      rw [Exec.index_congr hsame]
      exact .ask (prog.host.index · o key)
    rw [Evaluator.read, Path.root_item,
      Exec.bind_ok (Exec.root_bound (prog.resolveRoot?_bound h.here)),
      Exec.bind_ok (Exec.root_bound (prog.resolveRoot?_bound h.there))]
    exact .after hkey hkey' hn ((hread.located _ _).bind .pure)
  store e stored before before' hstored hstored' := by
    have hplace {u : Value} {k : Machine P} (hu : k.scopes.lookup x = some u) :
        (prog.evaluator (fuel + 1)).place prog (.member x member) k = (.ok (.field u member), k) :=
      Exec.bind_ok (Exec.root_bound (prog.resolveRoot?_bound hu))
    rw [Evaluator.assign, Exec.bind_ok hstored, Exec.bind_ok hstored']
    refine .after (hplace h.here) (hplace h.there) h.twins ?_
    rw [Place.write_field_congr hsame]
    exact (Place.write_alike prog _ (by simp) _).bind fun _ => .pure _
  storeItem e stored before before' hstored hstored' i key n n' hkey hkey' hn := by
    have hplace {u : Value} {k k' : Machine P} (hu : k.scopes.lookup x = some u)
        (hk : (prog.evaluator (fuel + 1)).value i "index" k = (.ok key, k')) :
        (prog.evaluator (fuel + 1)).place prog (.item x i) k = (.ok (.index u key), k') :=
      (Exec.bind_ok (Exec.root_bound (prog.resolveRoot?_bound hu))).trans (Exec.bind_ok hk)
    rw [Evaluator.assign, Exec.bind_ok hstored, Exec.bind_ok hstored']
    refine .after (hplace h.here hkey) (hplace h.there hkey') hn ?_
    rw [Place.write_index_congr hsame]
    exact (Place.write_alike prog _ (by simp) _).bind fun _ => .pure _
  range key value declare p body := by
    have hworld : m'.world = m.world := by rw [h.twins]
    rw [Evaluator.range_apply (prog.value_variable fuel h.here p "range"),
      Evaluator.range_apply (prog.value_variable fuel h.there p "range"), hworld,
      Cursor.start_congr hsame]
    cases Cursor.start prog.host m.world o with
    | ok cursor => exact .inl ⟨cursor, rfl, rfl⟩
    | error e => exact .inr ⟨_, rfl, rfl⟩
  spread init p name q args n n' hinit hinit' hn hsees hsees' := by
    rw [Evaluator.arguments_spreading hinit
        (prog.value_variable fuel (hsees.trans h.here) p "argument"),
      Evaluator.arguments_spreading hinit'
        (prog.value_variable fuel (hsees'.trans h.there) p "argument"), Exec.items_congr hsame]
    have hitems : Exec.Matching (Exec.items prog o) (Exec.items prog o) :=
      .ask (prog.host.items · o)
    exact ((hitems.located _ _).bind fun _ => .pure _) n n' hn

theorem Program.fieldCallable?_wrapped (prog : Program P) (w : World P) {v o : Value}
    {member : String} (h : v.unwrapped = o.unwrapped) (hmember : member ∉ Value.ownFields) :
    prog.fieldCallable? w v member = prog.fieldCallable? w o member := by
  rw [fieldCallable?, fieldCallable?, Host.project?_unwrapped _ _ hmember v, h,
    ← Host.project?_unwrapped _ _ hmember o]

/-- A variable that means an object under names is used like one that means the object. Calls of
what stands in a field are alike as well, and calls of a method if there is one name. Under more
names there is no method to call. -/
theorem wrapped_used_alike (prog : Program P) (fuel : Nat) (r : Address) (keys : List String)
    {x member : String} (hmember : member ∉ Value.ownFields) {m m' : Machine P}
    (h : m.Rebinds x ((Value.ref r).wrapped keys) (.ref r) m') :
    UsedAlike (prog.evaluator (fuel + 1)) prog x member m m' ∧
      ∀ call : Call, call.name = joinDotted [x, member] →
        (∀ part ∈ [x, member], '.' ∉ part.toList) →
        prog.registry.builtin? call.name = none →
        prog.functions.lookup? (Program.callingUnit m call) call.name = none →
          (keys.length ≤ 1 ∨ (prog.fieldCallable? m.world (.ref r) member).isSome →
            ∀ args n n', (prog.evaluator (fuel + 1)).arguments prog call m = (.ok args, n) →
              (prog.evaluator (fuel + 1)).arguments prog call m' = (.ok args, n') → n.Twins n' →
                EndAlike n n' ((prog.evaluator (fuel + 1)).call prog call m)
                  ((prog.evaluator (fuel + 1)).call prog call m')) ∧
          (2 ≤ keys.length → prog.fieldCallable? m.world (.ref r) member = none →
            (prog.evaluator (fuel + 1)).call prog call m =
              (.error (.failed (.of (.undefinedFunction call.name))), m)) := by
  have hsame : ((Value.ref r).wrapped keys).unwrapped = (Value.ref r).unwrapped :=
    Value.unwrapped_wrapped _ keys
  refine ⟨usedAlike h hsame hmember, fun call hname hdot hbuiltin hscript => ?_⟩
  have hworld : m'.world = m.world := by rw [h.twins]
  have hcurrent : m'.current = m.current := by rw [h.twins]
  have hfield := prog.fieldCallable?_wrapped m.world hsame hmember
  have hcallee : prog.callee? m call =
      ((prog.fieldCallable? m.world (.ref r) member).or
        (prog.methodCallable? m.world ((Value.ref r).wrapped keys) member)).map .host := by
    rw [prog.callee?_host hbuiltin hscript, hname, Program.hostCallee?_member h.here hdot, hfield]
  have hcallee' : prog.callee? m' call =
      ((prog.fieldCallable? m.world (.ref r) member).or
        (prog.methodCallable? m.world (.ref r) member)).map .host := by
    have hscript' : prog.functions.lookup? (Program.callingUnit m' call) call.name = none := by
      rw [← hscript, Program.callingUnit, Program.callingUnit, hcurrent]
    rw [prog.callee?_host hbuiltin hscript', hname, Program.hostCallee?_member h.there hdot, hworld]
  refine ⟨fun hfound args n n' hargs hargs' hn => ?_, fun hkeys hno => ?_⟩
  · refine Evaluator.call_alike hcallee ?_ hargs hargs' hn
    rw [hcallee']
    -- A method is found under no name and under one; a field comes before it.
    rcases hfound with hkeys | hcallable
    · match keys, hkeys with
      | [], _ => rfl
      | [key], _ => rfl
    · obtain ⟨f, hf⟩ := Option.isSome_iff_exists.mp hcallable
      rw [hf, Option.some_or, Option.some_or]
  · refine Evaluator.call_undefined ?_
    rw [hcallee, hno]
    match keys, hkeys with
    | _ :: _ :: _, _ => rfl

namespace Workbench

def withRow (row : Value) : Machine platform :=
  Session.start ⟨[], .empty, none, [("row", row)]⟩ ⟨#[.list #[.int 1, .int 2]], []⟩

def rowLength : Call :=
  ⟨joinDotted ["row", "len"], [], false, here⟩

theorem withRow_rebinds (row : Value) :
    (withRow row).Rebinds "row" row (.ref 0) (withRow (.ref 0)) :=
  ⟨rfl, rfl, rfl⟩

/-- A list that has one name has a length. -/
theorem named_length : "len" ∉ Value.ownFields ∧
    (withRow ((Value.ref 0).wrapped ["items"])).Rebinds "row"
      ((Value.ref 0).wrapped ["items"]) (.ref 0)
      (withRow (.ref 0)) ∧
    ((bare.evaluator 1).call bare rowLength (withRow ((Value.ref 0).wrapped ["items"]))).1 =
      .ok (some (.int 2)) := by
  have hmember : "len" ∉ Value.ownFields := by decide
  have hrebinds := withRow_rebinds ((Value.ref 0).wrapped ["items"])
  obtain ⟨-, hcalls⟩ := wrapped_used_alike bare 0 0 ["items"] hmember hrebinds
  obtain ⟨hcall, -⟩ := hcalls rowLength rfl (by decide) rfl rfl
  exact ⟨hmember, hrebinds, ((hcall (.inl (by decide)) [] _ _ rfl rfl rfl).value _).mpr rfl⟩

/-- A list that has two names has none. -/
theorem twice_named_length :
    (withRow ((Value.ref 0).wrapped ["rows", "items"])).Rebinds "row"
        ((Value.ref 0).wrapped ["rows", "items"]) (.ref 0) (withRow (.ref 0)) ∧
      ((bare.evaluator 1).call bare rowLength (withRow (.ref 0))).1 = .ok (some (.int 2)) ∧
      ((bare.evaluator 1).call bare rowLength
        (withRow ((Value.ref 0).wrapped ["rows", "items"]))).1 =
        .error (.failed (.of (.undefinedFunction rowLength.name))) :=
  ⟨withRow_rebinds _, rfl, rfl⟩

end Workbench

end HostScript
