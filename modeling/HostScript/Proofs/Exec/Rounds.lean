import HostScript.Proofs.Exec.Storage
import HostScript.Proofs.Names.Visibility

/-!
# The rounds of a range

A range goes round once for each element that its walk gives. A `WalkRun` lists the rounds with the
machines in between, and how the walk ended: `walk_apply` and `range_rounds` say that this is what a
range does. What holds of a cursor and a machine at the start, and is handed on by every round,
holds at every round and at the end (`HandsOn.walkRun`).
-/

namespace HostScript

variable {P : Platform}

/-- Once round a range: what the body receives, the machine on which that was asked for, the one on
which the body started, and how and on which machine it ended. -/
structure Round (P : Platform) where
  key : Value
  value : Value
  asked : Machine P
  started : Machine P
  ended : Except Halt Signal
  left : Machine P

structure WalkRun (P : Platform) where
  rounds : List (Round P)
  outcome : Except Halt Signal
  machine : Machine P

/-- How a walk ends whose body has ended in a way that it does not go on after. -/
def halted? : Except Halt Signal → Option (Except Halt Signal)
  | .ok .normal | .ok .cont => none
  | .ok .brk => some (.ok .normal)
  | outcome => some outcome

namespace Round

def GoesOn (round : Round P) : Prop :=
  round.ended = .ok .normal ∨ round.ended = .ok .cont

theorem goesOn_iff {round : Round P} : round.GoesOn ↔ halted? round.ended = none := by
  unfold GoesOn halted?
  split <;> simp_all

/-- Rounds from one machine to another: each asks for its element on the machine that the one before
it has left, and all but the last go on. -/
inductive Chain : Machine P → List (Round P) → Machine P → Prop
  | nil (m : Machine P) : Chain m [] m
  | cons {m last : Machine P} {round : Round P} {rest : List (Round P)} :
    round.asked = m → (rest ≠ [] → round.GoesOn) → Chain round.left rest last →
      Chain m (round :: rest) last

/-- The body has run once, and when it started its variables meant what it receives; of two
variables of one name the second counts. -/
structure Runs (E : Evaluator P) (range : Range) (round : Round P) : Prop where
  ran : E.block range.body round.started = (round.ended, round.left)
  value : ∀ name, range.value = some name → name ≠ blank →
    round.started.scopes.lookup name = some round.value
  key : ∀ name, range.key = some name → name ≠ blank → range.value ≠ some name →
    round.started.scopes.lookup name = some round.key

end Round

namespace Machine

def setting (m : Machine P) : Option String → Value → Machine P
  | some name, v => { m with scopes := m.scopes.store name v }
  | none, _ => m

def declaring (m : Machine P) : Option String → Machine P
  | some name => { m with scopes := m.scopes.declare name }
  | none => m

def ranging (m : Machine P) (declare : Bool) (key value : Option String) : Machine P :=
  if declare then (m.enterBlock.declaring key).declaring value else m.enterBlock

@[simp] theorem setting_world (m : Machine P) (name : Option String) (v : Value) :
    (m.setting name v).world = m.world := by
  cases name <;> rfl

@[simp] theorem setting_journal (m : Machine P) (name : Option String) (v : Value) :
    (m.setting name v).journal = m.journal := by
  cases name <;> rfl

@[simp] theorem ranging_world (m : Machine P) (declare : Bool) (key value : Option String) :
    (m.ranging declare key value).world = m.world := by
  cases declare <;> cases key <;> cases value <;> rfl

end Machine

namespace Evaluator

variable (E : Evaluator P) (prog : Program P) (range : Range)

def round (asked m : Machine P) (key v : Value) : Round P :=
  let started := (m.setting range.key key).setting range.value v
  let ran := E.block range.body started
  ⟨key, v, asked, started, ran.1, ran.2⟩

def walkRun : Nat → Cursor → Machine P → WalkRun P
  | 0, _, m => ⟨[], .error .outOfFuel, m⟩
  | n + 1, cursor, m =>
    match Exec.located range.source (advance prog cursor) m with
    | (.error halt, m') => ⟨[], .error halt, m'⟩
    | (.ok none, m') => ⟨[], .ok .normal, m'⟩
    | (.ok (some ((key, v), next)), m') =>
      let round := E.round range m m' key v
      match halted? round.ended with
      | some outcome => ⟨[round], outcome, round.left⟩
      | none =>
        let run := walkRun n next round.left
        ⟨round :: run.rounds, run.outcome, run.machine⟩

def rangeOver (key value : Option String) (declare : Bool) (p : Position) (body : List Stmt)
    (cursor : Cursor) : Exec P Signal :=
  Exec.withScope do
    if declare then
      declareVariable key
      declareVariable value
    E.walk prog ⟨key, value, p, body⟩ E.rounds cursor

def rangeRun (key value : Option String) (declare : Bool) (source : Expr) (body : List Stmt)
    (cursor : Cursor) (m : Machine P) : WalkRun P :=
  E.walkRun prog ⟨key, value, source.pos, body⟩ E.rounds cursor (m.ranging declare key value)

variable {E prog range}

theorem heard_still {cursor : Cursor} (h : ∀ r next, cursor ≠ .iterator r next)
    (outcome : Except Halt (Option ((Value × Value) × Cursor))) :
    (heard cursor outcome : List (Event P)) = [] := by
  cases cursor with
  | iterator r next => exact absurd rfl (h r next)
  | _ => rfl

theorem setVariable_apply (name : Option String) (v : Value) (m : Machine P) :
    (setVariable name v : Exec P Unit) m = (.ok (), m.setting name v) := by
  cases name <;> rfl

theorem declareVariable_apply (name : Option String) (m : Machine P) :
    (declareVariable name : Exec P Unit) m = (.ok (), m.declaring name) := by
  cases name <;> rfl

theorem walk_apply (n : Nat) (cursor : Cursor) (m : Machine P) :
    E.walk prog range n cursor m =
      ((E.walkRun prog range n cursor m).outcome, (E.walkRun prog range n cursor m).machine) := by
  induction n generalizing cursor m with
  | zero => rfl
  | succ n ih =>
    rw [walk, walkRun]
    rcases h : Exec.located range.source (advance prog cursor) m with
      ⟨halt | _ | ⟨⟨key, v⟩, next⟩, m'⟩
    · rw [Exec.bind_error h]
    · rw [Exec.bind_ok h]
      rfl
    · rw [Exec.bind_ok h]
      dsimp only
      rw [Exec.bind_ok (setVariable_apply ..), Exec.bind_ok (setVariable_apply ..)]
      dsimp only [round]
      rcases hb : E.block range.body ((m'.setting range.key key).setting range.value v) with
        ⟨halt | signal, left⟩
      · rw [Exec.bind_error hb]
        rfl
      · rw [Exec.bind_ok hb]
        cases signal with
        | brk | ret v => rfl
        | normal | cont => exact ih next left

theorem range_apply {source : Expr} {v : Value} {m n : Machine P}
    (h : E.value source "range" m = (.ok v, n)) (key value : Option String) (declare : Bool)
    (body : List Stmt) :
    E.range prog key value declare source body m =
      match Cursor.start prog.host n.world v with
      | .ok cursor => E.rangeOver prog key value declare source.pos body cursor n
      | .error e => (.error (.failed (e.locate source.pos)), n) := by
  have hstart : Exec.located source.pos (do
      Exec.ofExcept (Cursor.start prog.host (← Exec.world) v)) n =
        ((Cursor.start prog.host n.world v).mapError fun e => .failed (e.locate source.pos),
          n) := by
    rw [Exec.located, Exec.mapFailure_apply, Exec.bind_ok (Exec.world_apply n)]
    cases Cursor.start prog.host n.world v <;> rfl
  rw [range, Exec.bind_ok h]
  cases hc : Cursor.start prog.host n.world v with
  | error e =>
    rw [hc] at hstart
    exact Exec.bind_error hstart
  | ok cursor =>
    rw [hc] at hstart
    exact Exec.bind_ok hstart

theorem rangeOver_apply (key value : Option String) (declare : Bool) (source : Expr)
    (body : List Stmt) (cursor : Cursor) (m : Machine P) :
    E.rangeOver prog key value declare source.pos body cursor m =
      ((E.rangeRun prog key value declare source body cursor m).outcome,
        (E.rangeRun prog key value declare source body cursor m).machine.leaveBlock) := by
  rw [rangeOver, Exec.withScope_apply, rangeRun]
  cases declare with
  | false =>
    dsimp only [Machine.ranging]
    rw [if_neg Bool.false_ne_true, if_neg Bool.false_ne_true, walk_apply]
  | true =>
    dsimp only [Machine.ranging]
    rw [if_pos rfl, if_pos rfl, Exec.bind_ok (declareVariable_apply ..),
      Exec.bind_ok (declareVariable_apply ..), walk_apply]

/-- A range whose source has a value goes as the rounds from the start that this gives. -/
theorem range_rounds {key value : Option String} {declare : Bool} {source : Expr} {body : List Stmt}
    {cursor : Cursor} {m m' : Machine P} {v : Value} (hv : E.value source "range" m = (.ok v, m'))
    (hcursor : Cursor.start prog.host m'.world v = .ok cursor) :
    E.range prog key value declare source body m =
      ((E.rangeRun prog key value declare source body cursor m').outcome,
        (E.rangeRun prog key value declare source body cursor m').machine.leaveBlock) := by
  rw [range_apply hv, hcursor]
  exact rangeOver_apply ..

-- ---------------------------------------------------------------------------
-- Along the rounds
-- ---------------------------------------------------------------------------

theorem round_runs (asked m : Machine P) (key v : Value) :
    (E.round range asked m key v).Runs E range := by
  refine ⟨rfl, fun name hname hblank => ?_, fun name hname hblank hne => ?_⟩ <;>
    dsimp only [round]
  · rw [hname]
    exact Scopes.lookup_store _ v hblank
  · rw [hname]
    cases hvalue : range.value with
    | none => exact Scopes.lookup_store _ key hblank
    | some other =>
      have hother : name ≠ other := fun he => hne (he ▸ hvalue)
      exact (Scopes.lookup_store_ne _ v hother).trans (Scopes.lookup_store _ key hblank)

variable (E prog range) in
inductive Walks : Nat → Cursor → Machine P → WalkRun P → Prop
  | spent (cursor : Cursor) (m : Machine P) : Walks 0 cursor m ⟨[], .error .outOfFuel, m⟩
  | drained {n : Nat} {cursor : Cursor} {m m' : Machine P} :
    advance prog cursor m = (.ok none, m') →
    Walks (n + 1) cursor m ⟨[], .ok .normal, m'⟩
  | failed {n : Nat} {cursor : Cursor} {m m' : Machine P} {halt : Halt} :
    advance prog cursor m = (.error halt, m') →
    Walks (n + 1) cursor m ⟨[], Exec.changed (·.locate range.source) (.error halt), m'⟩
  | halted {n : Nat} {cursor next : Cursor} {m m' : Machine P} {key v : Value}
      {outcome : Except Halt Signal} : advance prog cursor m = (.ok (some ((key, v), next)), m') →
    halted? (E.round range m m' key v).ended = some outcome →
    Walks (n + 1) cursor m ⟨[E.round range m m' key v], outcome,
      (E.round range m m' key v).left⟩
  | goesOn {n : Nat} {cursor next : Cursor} {m m' : Machine P} {key v : Value} {run : WalkRun P} :
    advance prog cursor m = (.ok (some ((key, v), next)), m') →
    (E.round range m m' key v).GoesOn → Walks n next (E.round range m m' key v).left run →
    Walks (n + 1) cursor m ⟨E.round range m m' key v :: run.rounds, run.outcome, run.machine⟩

variable (prog range) in
theorem walkRun_walks (n : Nat) (cursor : Cursor) (m : Machine P) :
    Walks E prog range n cursor m (E.walkRun prog range n cursor m) := by
  induction n generalizing cursor m with
  | zero => exact .spent cursor m
  | succ n ih =>
    rw [walkRun, Exec.located, Exec.mapFailure_apply]
    rcases h : advance prog cursor m with ⟨(e | _) | _ | ⟨⟨key, v⟩, next⟩, m'⟩
    · exact .failed h
    · exact .failed h
    · exact .drained h
    · dsimp only [Exec.changed]
      split
      · exact .halted h ‹_›
      · exact .goesOn h (Round.goesOn_iff.mpr ‹_›) (ih next _)

variable (E prog range) in
/-- What holds of a cursor and a machine is handed on by every round, and the round is as it
can be then. -/
def HandsOn (Inv : Nat → Cursor → Machine P → Prop)
    (Turn : Nat → Round P → Prop) : Prop :=
  ∀ i cursor m key v next m', Inv i cursor m →
    advance prog cursor m = (.ok (some ((key, v), next)), m') →
    Turn i (E.round range m m' key v) ∧ Inv (i + 1) next (E.round range m m' key v).left

variable (prog range) in
/-- How a walk of at most so many rounds ended whose rounds have led to a machine: its last body has
ended so, the number was used up, or it was asked for more from a cursor that it stood at. -/
inductive Ends (n : Nat) (stood : Cursor → Prop) (run : WalkRun P) (last : Machine P) : Prop
  | halted {round : Round P} (h : run.rounds.getLast? = some round)
      (ho : halted? round.ended = some run.outcome) (hm : run.machine = last)
  | spent (h : ∀ round ∈ run.rounds, round.GoesOn) (hn : run.rounds.length = n)
      (ho : run.outcome = .error .outOfFuel) (hm : run.machine = last)
  | drained (h : ∀ round ∈ run.rounds, round.GoesOn) (hn : run.rounds.length < n)
    {cursor : Cursor}
      (hcursor : stood cursor) (hnext : advance prog cursor last = (.ok none, run.machine))
      (ho : run.outcome = .ok .normal)
  | failed (h : ∀ round ∈ run.rounds, round.GoesOn) (hn : run.rounds.length < n)
    {cursor : Cursor}
      (hcursor : stood cursor) {halt : Halt}
      (hnext : advance prog cursor last = (.error halt, run.machine))
      (ho : run.outcome = Exec.changed (·.locate range.source) (.error halt))

section

variable {Inv : Nat → Cursor → Machine P → Prop} {Turn : Nat → Round P → Prop} {n i : Nat}
  {cursor : Cursor} {m : Machine P} {run : WalkRun P}

theorem Walks.rounds (hrun : Walks E prog range n cursor m run)
    (hstep : HandsOn E prog range Inv Turn)
    (h : Inv i cursor m) (j : Nat) (round : Round P) (hround : run.rounds[j]? = some round) :
    Turn (i + j) round := by
  induction hrun generalizing i j with
  | spent | drained | failed => cases hround
  | halted hnext _ =>
    cases j with
    | zero =>
      cases hround
      exact (hstep _ _ _ _ _ _ _ h hnext).1
    | succ j => cases hround
  | goesOn hnext _ _ ih =>
    obtain ⟨hturn, hleft⟩ := hstep _ _ _ _ _ _ _ h hnext
    cases j with
    | zero =>
      cases hround
      exact hturn
    | succ j =>
      rw [Nat.add_comm j, ← Nat.add_assoc]
      exact ih hleft j hround

theorem Ends.cons {stood stood' : Cursor → Prop} {last : Machine P} {round : Round P}
    (hround : round.GoesOn) (hstood : ∀ cursor, stood cursor → stood' cursor)
    (h : Ends prog range n stood run last) :
    Ends prog range (n + 1) stood' ⟨round :: run.rounds, run.outcome, run.machine⟩ last := by
  cases h with
  | halted h ho hm =>
    refine .halted ?_ ho hm
    rw [List.getLast?_cons, h]
    rfl
  | spent h hn ho hm =>
    exact .spent (List.forall_mem_cons.mpr ⟨hround, h⟩) (congrArg (· + 1) hn) ho hm
  | drained h hn hc hnext ho =>
    exact .drained (List.forall_mem_cons.mpr ⟨hround, h⟩) (Nat.succ_lt_succ hn)
      (hstood _ hc) hnext ho
  | failed h hn hc hnext ho =>
    exact .failed (List.forall_mem_cons.mpr ⟨hround, h⟩) (Nat.succ_lt_succ hn)
      (hstood _ hc) hnext ho

theorem Walks.ends (hrun : Walks E prog range n cursor m run)
    (hstep : HandsOn E prog range Inv Turn)
    (h : Inv i cursor m) : ∃ last, Round.Chain m run.rounds last ∧
      Ends prog range n (Inv (i + run.rounds.length) · last) run last := by
  induction hrun generalizing i with
  | spent cursor m => exact ⟨m, .nil m, .spent (List.forall_mem_nil _) rfl rfl rfl⟩
  | @drained _ _ m _ hnext =>
    exact ⟨m, .nil m, .drained (List.forall_mem_nil _) (Nat.succ_pos _) h hnext rfl⟩
  | @failed _ _ m _ _ hnext =>
    exact ⟨m, .nil m, .failed (List.forall_mem_nil _) (Nat.succ_pos _) h hnext rfl⟩
  | halted _ ho => exact ⟨_, .cons rfl (fun hne => absurd rfl hne) (.nil _), .halted rfl ho rfl⟩
  | @goesOn _ _ _ _ _ _ _ run hnext hgoes _ ih =>
    obtain ⟨last, hchain, hends⟩ := ih (hstep _ _ _ _ _ _ _ h hnext).2
    refine ⟨last, .cons rfl (fun _ => hgoes) hchain, hends.cons hgoes fun cursor hc => ?_⟩
    rwa [List.length_cons, Nat.add_comm run.rounds.length, ← Nat.add_assoc]

theorem HandsOn.walkRun (hstep : HandsOn E prog range Inv Turn) (n : Nat) (h : Inv 0 cursor m) :
    let run := E.walkRun prog range n cursor m
    (∀ (j : Nat) (round : Round P), run.rounds[j]? = some round → Turn j round) ∧
      ∃ last, Round.Chain m run.rounds last ∧
        Ends prog range n (Inv run.rounds.length · last) run last := by
  have hruns := walkRun_walks (E := E) prog range n cursor m
  refine ⟨fun j round hround => ?_, ?_⟩
  · simpa using hruns.rounds hstep h j round hround
  · simpa using hruns.ends hstep h

end

end Evaluator

end HostScript
