import HostScript.Proofs.Exec.Chronicle
import HostScript.Proofs.Exec.Rounds

/-!
# Ranges over objects that iterate themselves

A range asks such an object for an element only when its body is about to receive it, and after a
body that ends the range it asks no more. So all that the object gives to ranges, however they nest
and wherever they are left, its elements are received by one body each, in the order in which they
are given (`ranges_draw_once`).
-/

namespace HostScript

variable {P : Platform}

-- ---------------------------------------------------------------------------
-- Asking
-- ---------------------------------------------------------------------------

namespace Evaluator

inductive Asks (prog : Program P) (r : Address) (i : Nat) (m : Machine P) :
    Except Halt (Option ((Value × Value) × Cursor)) → Machine P → Prop
  | gone :
    prog.host.iterableOf? m.world r = none → Asks prog r i m (.ok none) (m.noted (.stopped r))
  | drained {iterable : Iterable P} {w : World P} :
    prog.host.iterableOf? m.world r = some iterable →
    iterable.hasNext m.world = (false, w) →
    Asks prog r i m (.ok none) { m with world := w, journal := .stopped r :: m.journal }
  | given {iterable : Iterable P} {w w' : World P} {v : Value} :
    prog.host.iterableOf? m.world r = some iterable → iterable.hasNext m.world = (true, w) →
    iterable.next w = (.ok v, w') →
    Asks prog r i m (.ok (some ((.ofNat i, v), .iterator r (i + 1))))
      { m with world := w', journal := .delivered r (.ofNat i) v :: m.journal }
  | failed {iterable : Iterable P} {w w' : World P} {e : Failure} :
    prog.host.iterableOf? m.world r = some iterable → iterable.hasNext m.world = (true, w) →
    iterable.next w = (.error e, w') →
    Asks prog r i m (.error (.failed e))
      { m with world := w', journal := .stopped r :: .faulted e :: m.journal }

theorem advance_asks (prog : Program P) (r : Address) (i : Nat) (m : Machine P) :
    Asks prog r i m (advance prog (.iterator r i) m).1 (advance prog (.iterator r i) m).2 := by
  rw [advance, Exec.noting]
  cases h : prog.host.iterableOf? m.world r with
  | none =>
    rw [Exec.act_ok (Cursor.next?_no_iterator h)]
    exact .gone h
  | some iterable =>
    have hnext := Cursor.next?_iterator h i
    rcases hw : iterable.hasNext m.world with ⟨_ | _, w⟩ <;> rw [hw] at hnext
    · rw [Exec.act_ok hnext]
      exact .drained h hw
    · dsimp only at hnext
      rcases hw' : iterable.next w with ⟨e | v, w'⟩ <;> rw [hw'] at hnext
      · rw [Exec.act_error hnext]
        exact .failed h hw hw'
      · rw [Exec.act_ok hnext]
        exact .given h hw hw'

end Evaluator

-- ---------------------------------------------------------------------------
-- One range
-- ---------------------------------------------------------------------------

/-- The round of a range that has a number, counted from zero: the object that iterates itself was
asked once whether it has an element and once for it, and the body has run once, with the number as
its key and the element as its value. -/
structure Round.Draws (prog : Program P) (E : Evaluator P) (range : Range) (r : Address) (i : Nat)
    (round : Round P) : Prop extends round.Runs E range where
  number : round.key = .ofNat i
  drawn : ∃ iterable w, prog.host.iterableOf? round.asked.world r = some iterable ∧
    iterable.hasNext round.asked.world = (true, w) ∧
    iterable.next w = (.ok round.value, round.started.world)
  noted : round.started.journal = .delivered r round.key round.value :: round.asked.journal

/-- How a range over an object that iterates itself ends when its rounds have led to a machine: the
last body ended so, and nothing was asked after it; or all went on, and either the number of rounds
is used up, or the object, asked once more, had no element or failed to give it. -/
inductive WalkRun.Stops (prog : Program P) (range : Range) (r : Address) (n : Nat) (run : WalkRun P)
    (last : Machine P) : Prop
  | halted {round : Round P} (h : run.rounds.getLast? = some round)
      (ho : halted? round.ended = some run.outcome) (hm : run.machine = last)
  | spent (h : ∀ round ∈ run.rounds, round.GoesOn) (hn : run.rounds.length = n)
      (ho : run.outcome = .error .outOfFuel) (hm : run.machine = last)
  | drained (h : ∀ round ∈ run.rounds, round.GoesOn)
      (hasked : Evaluator.Asks prog r run.rounds.length last (.ok none) run.machine)
      (ho : run.outcome = .ok .normal)
  | failed (h : ∀ round ∈ run.rounds, round.GoesOn) {e : Failure}
      (hasked : Evaluator.Asks prog r run.rounds.length last (.error (.failed e)) run.machine)
      (ho : run.outcome = .error (.failed (e.locate range.source)))

namespace Evaluator

variable {prog : Program P} {E : Evaluator P} {range : Range} {r : Address}

theorem draws_handsOn :
    HandsOn E prog range (fun i cursor _ => cursor = .iterator r i)
      (Round.Draws prog E range r) := by
  rintro i cursor m key v next m' rfl hnext
  have hasked := advance_asks prog r i m
  rw [hnext] at hasked
  cases hasked with
  | given hr hmore hgiven =>
    refine ⟨⟨round_runs .., rfl, ⟨_, _, hr, hmore, ?_⟩, ?_⟩, rfl⟩
    · simpa [round] using hgiven
    · simp [round]

theorem Ends.stops {n : Nat} {run : WalkRun P} {last : Machine P}
    (h : Ends prog range n (· = .iterator r run.rounds.length) run last) :
    run.Stops prog range r n last := by
  obtain ⟨rounds, outcome, machine⟩ := run
  cases h with
  | halted h ho hm => exact .halted h ho hm
  | spent h hn ho hm => exact .spent h hn ho hm
  | drained h _ hcursor hnext ho =>
    subst hcursor
    have hasked := advance_asks prog r rounds.length last
    rw [hnext] at hasked
    exact .drained h hasked ho
  | failed h _ hcursor hnext ho =>
    subst hcursor
    have hasked := advance_asks prog r rounds.length last
    rw [hnext] at hasked
    cases hasked with
    | failed hr hmore hfailed => exact .failed h (.failed hr hmore hfailed) ho

theorem start_iterator {w : World P} {v : Value} (hr : v.unwrapped = .ref r)
    (h : (prog.host.iterableOf? w r).isSome) :
    Cursor.start prog.host w v = .ok (.iterator r 0) := by
  obtain ⟨iterable, hiterable⟩ := Option.isSome_iff_exists.mp h
  rw [Cursor.start_unwrapped, hr, Cursor.start, hiterable]

end Evaluator

-- ---------------------------------------------------------------------------
-- Many ranges
-- ---------------------------------------------------------------------------

def Event.deliveredFrom? (r : Address) : Event P → Option Value
  | .delivered object _ v => if object = r then some v else none
  | _ => none

def delivered (r : Address) (events : List (Event P)) : List Value :=
  events.reverse.filterMap (Event.deliveredFrom? r)

/-- What can be seen of the world is the elements that an object has given, if each that it gives is
added to them and nothing else changes them. -/
structure Host.Records (H : Host P) (r : Address) (record : World P → List Value) : Prop where
  library {w w' : World P} : w.Changes w' → record w' = record w
  apart : H.Follows fun w w' => record w' = record w
  hasNext {w : World P} {object : Address} {iterable : Iterable P} :
    H.iterableOf? w object = some iterable → record (iterable.hasNext w).2 = record w
  next {w w' : World P} {object : Address} {iterable : Iterable P} :
    H.iterableOf? w object = some iterable → iterable.hasNext w = (true, w') →
      record (iterable.next w').2 =
        record w' ++ if object = r then (iterable.next w').1.toOption.toList else []

section

variable {r : Address}

theorem delivered_append (later first : List (Event P)) :
    delivered r (later ++ first) = delivered r first ++ delivered r later := by
  simp [delivered]

theorem delivered_incident {e : Event P} (h : e.IsIncidental) : delivered r [e] = [] := by
  cases e <;> first | exact h.elim | rfl

theorem delivered_next {H : Host P} {record : World P → List Value} (h : H.Records r record)
    (cursor : Cursor) (w : World P) :
    record (cursor.next? H w).2 = record w ++
      delivered r (Evaluator.heard (P := P) cursor ((cursor.next? H w).1.mapError .failed)) := by
  by_cases hcursor : ∃ object i, cursor = .iterator object i
  · obtain ⟨object, i, rfl⟩ := hcursor
    cases hr : H.iterableOf? w object with
    | none =>
      rw [Cursor.next?_no_iterator hr]
      exact (List.append_nil _).symm
    | some iterable =>
      have hasked := h.hasNext hr
      have hgiven {w' : World P} (hw : iterable.hasNext w = (true, w')) := h.next hr hw
      rw [Cursor.next?_iterator hr i]
      rcases hw : iterable.hasNext w with ⟨_ | _, w'⟩ <;> rw [hw] at hasked hgiven
      · exact hasked.trans (List.append_nil _).symm
      · have hgiven := hgiven rfl
        rw [hasked] at hgiven
        dsimp only
        rcases hw' : iterable.next w' with ⟨e | v, w''⟩ <;> rw [hw'] at hgiven <;>
          refine hgiven.trans (congrArg (record w ++ ·) ?_)
        · split <;> rfl
        · by_cases ho : object = r <;>
            simp [delivered, Evaluator.heard, Event.deliveredFrom?, Except.mapError,
              Except.toOption, ho]
  · have hno : ∀ r i, cursor ≠ .iterator r i := fun r i h => hcursor ⟨r, i, h⟩
    rw [Cursor.next?_still hno, Evaluator.heard_still hno]
    exact (List.append_nil _).symm

def recording {prog : Program P} {record : World P → List Value}
    (h : prog.host.Records r record) :
    Chronicle prog where
  tells w events w' := record w' = record w ++ delivered r events
  nothing w := (List.append_nil _).symm
  append hfirst hlater := by rw [hlater, hfirst, delivered_append, List.append_assoc]
  incident w he := by rw [delivered_incident he, List.append_nil]
  invoked w _ := (List.append_nil _).symm
  act w hx := by
    have hkept : record _ = record w := hx.moves (fun _ _ => h.library) h.apart w
    rw [hkept]
    exact (List.append_nil _).symm
  create w hr := by
    have hkept : record _ = record w := Host.create_moves h.apart hr w
    rw [hkept]
    exact (List.append_nil _).symm
  close w hr := by
    have hkept : record _ = record w := Host.close_moves h.apart hr w
    rw [hkept]
    exact (List.append_nil _).symm
  next := delivered_next h

end

/-- A range over an object that iterates itself goes round once for each element that the object
gives it when asked, the body receiving that element and its number. It asks before each round,
never after a body that has ended it, and ends with the failure if an element cannot be given.

So what the object gives while anything is run, a whole script or the body of one of the ranges, is
what bodies receive meanwhile, in the order in which it is given. -/
theorem ranges_draw_once (prog : Program P) (fuel : Nat) :
    (∀ (key value : Option String) (declare : Bool) (source : Expr) (body : List Stmt)
        (m m' : Machine P) (v : Value) (r : Address),
      (prog.evaluator fuel).value source "range" m = (.ok v, m') → v.unwrapped = .ref r →
      (prog.host.iterableOf? m'.world r).isSome →
      let range : Range := ⟨key, value, source.pos, body⟩
      let run :=
        (prog.evaluator fuel).rangeRun prog key value declare source body (.iterator r 0) m'
      (prog.evaluator fuel).range prog key value declare source body m =
          (run.outcome, run.machine.leaveBlock) ∧
        (∀ (i : Nat) (round : Round P), run.rounds[i]? = some round →
          round.Draws prog (prog.evaluator fuel) range r i) ∧
        ∃ last, Round.Chain (m'.ranging declare key value) run.rounds last ∧
          run.Stops prog range r fuel last) ∧
    ∀ r record, prog.host.Records r record →
      (∀ entry m, ∃ events, (prog.enter fuel entry m).2.journal = events ++ m.journal ∧
        record (prog.enter fuel entry m).2.world = record m.world ++ delivered r events) ∧
      ∀ body m, ∃ events,
        ((prog.evaluator fuel).block body m).2.journal = events ++ m.journal ∧
        record ((prog.evaluator fuel).block body m).2.world = record m.world ++
          delivered r events := by
  refine ⟨fun key value declare source body m m' v r hv hr hiterable => ?_,
    fun r record h => ?_⟩
  · obtain ⟨hdraws, last, hchain, hends⟩ := Evaluator.draws_handsOn.walkRun fuel rfl
    exact ⟨Evaluator.range_rounds hv (Evaluator.start_iterator hr hiterable),
      hdraws, last, hchain,
      hends.stops⟩
  · exact ⟨(recording h).enter fuel, (recording h).block fuel⟩

namespace Workbench

/-- It has given as many numbers as lines are noted, and never stops. -/
def numbers : Iterable platform where
  hasNext := return true
  next := do
    let given := (← get).state.length
    note "given"
    return .ofNat given

def numbering : Host platform :=
  { silent with iterable? := fun r _ => if r = 0 then some numbers else none }

def numbersGiven (w : World platform) : List Value :=
  (List.range w.state.length).map .ofNat

theorem numbering_iterableOf? {w : World platform} {r : Address} {iterable : Iterable platform}
    (h : numbering.iterableOf? w r = some iterable) : r = 0 ∧ iterable = numbers := by
  unfold Host.iterableOf? at h
  split at h
  · dsimp only [numbering] at h
    split at h
    · exact ⟨‹_›, (Option.some.inj h).symm⟩
    · cases h
  · cases h

theorem numbering_records : numbering.Records 0 numbersGiven where
  library h := by rw [numbersGiven, h.state, numbersGiven]
  apart := ⟨nofun, nofun, nofun, nofun, fun _ _ _ => rfl⟩
  hasNext h := by
    obtain ⟨-, rfl⟩ := numbering_iterableOf? h
    rfl
  next {w w' _ _} h _ := by
    obtain ⟨rfl, rfl⟩ := numbering_iterableOf? h
    change List.map Value.ofNat (List.range (w'.state.length + 1)) =
      List.map Value.ofNat (List.range w'.state.length) ++ [.ofNat w'.state.length]
    rw [List.range_succ, List.map_append]
    rfl

def giving : Program platform :=
  ⟨numbering, .empty, .empty⟩

def givingMachine : Machine platform :=
  Session.start ⟨[], .empty, none, [("it", .ref 0)]⟩ ⟨#[.foreign (.plain "numbers")], []⟩

def rangeIt (body : List Stmt) : Stmt :=
  ⟨.forRange none (some "x") true (variableNamed "it") body, here⟩

/-- The body of a range that leaves it, and another one in it, after one round each. -/
def twice : List Stmt :=
  [rangeIt [⟨.brk, here⟩], ⟨.brk, here⟩]

def twiceRun : WalkRun platform :=
  (giving.evaluator 5).rangeRun giving none (some "x") true (variableNamed "it") twice
    (.iterator 0 0) givingMachine

/-- Of two ranges over one object, one in the other and both left early, each has received one
number; and no number more has been given. -/
theorem twice_draws_once :
    (giving.evaluator 5).value (variableNamed "it") "range" givingMachine =
      (.ok (.ref 0), givingMachine) ∧
    (numbering.iterableOf? givingMachine.world 0).isSome ∧
    twiceRun.rounds.length = 1 ∧
    (∀ (i : Nat) (round : Round platform), twiceRun.rounds[i]? = some round →
      round.Draws giving (giving.evaluator 5) ⟨none, some "x", here, twice⟩ 0 i) ∧
    numbering.Records 0 numbersGiven ∧
    ∃ events,
      (giving.enter 5 (.execute (rangeIt twice)) givingMachine).2.journal = events ++ [] ∧
      (delivered 0 events).map Value.int? = [some 0, some 1] ∧
      numbersGiven (giving.enter 5 (.execute (rangeIt twice)) givingMachine).2.world =
        [] ++ delivered 0 events := by
  have hv : (giving.evaluator 5).value (variableNamed "it") "range" givingMachine =
    (.ok (.ref 0), givingMachine) := by rfl
  have hiterable : (numbering.iterableOf? givingMachine.world 0).isSome := by rfl
  obtain ⟨hrange, hgiven⟩ := ranges_draw_once giving 5
  obtain ⟨-, hdraws, -⟩ := hrange none (some "x") true (variableNamed "it") twice givingMachine
    givingMachine (.ref 0) 0 hv rfl hiterable
  obtain ⟨events, hj, hrecord⟩ :=
    (hgiven 0 numbersGiven numbering_records).1 (.execute (rangeIt twice)) givingMachine
  refine ⟨hv, hiterable, by decide +kernel, hdraws, numbering_records, events, hj, ?_, hrecord⟩
  have hevents : events = (giving.enter 5 (.execute (rangeIt twice)) givingMachine).2.journal :=
    (List.append_nil events).symm.trans hj.symm
  rw [hevents]
  decide +kernel

end Workbench

end HostScript
