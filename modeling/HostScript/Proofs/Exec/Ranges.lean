import HostScript.Proofs.Exec.Chronicle
import HostScript.Proofs.Exec.Rounds
import HostScript.Proofs.Object.Elements

/-!
# Ranges over ints, strings, lists and maps

What a range over such a value goes through is settled before its first round: an int, a string and
a map are looked at once, and of a list only how long it is then. Bodies can do as they like, for a
list is never made shorter: the range is never short of an element, so only a body ends it early
(`range_covers`).
-/

namespace HostScript

variable {P : Platform}

-- ---------------------------------------------------------------------------
-- Lists only grow
-- ---------------------------------------------------------------------------

namespace World

variable {w w' w'' : World P}

def KeepsLists (w w' : World P) : Prop :=
  ∀ r items, w.object? r = some (.list items) →
    ∃ items', w'.object? r = some (.list items') ∧ items.size ≤ items'.size

namespace KeepsLists

theorem refl (w : World P) : w.KeepsLists w :=
  fun _ items h => ⟨items, h, Nat.le_refl _⟩

theorem trans (h : w.KeepsLists w') (h' : w'.KeepsLists w'') : w.KeepsLists w'' := by
  intro r items hr
  obtain ⟨items', hr', hle⟩ := h r items hr
  obtain ⟨items'', hr'', hle'⟩ := h' r items' hr'
  exact ⟨items'', hr'', Nat.le_trans hle hle'⟩

theorem put {r : Address} (o : Object P) (h : ∀ items, w.object? r = some (.list items) →
    ∃ items', o = .list items' ∧ items.size ≤ items'.size) : w.KeepsLists (w.put r o) := by
  intro r' items hr
  by_cases hne : r' = r
  · subst hne
    obtain ⟨items', rfl, hle⟩ := h items hr
    exact ⟨items', object?_put_self hr _, hle⟩
  · exact ⟨items, by rwa [object?_put_ne hne], Nat.le_refl _⟩

theorem of_changes (h : w.Changes w') : w.KeepsLists w' := by
  cases h with
  | none => exact .refl w
  | @items _ _ items' h hsize =>
    refine .put _ fun stored hstored => ⟨items', rfl, ?_⟩
    cases hstored.symm.trans h
    exact hsize
  | entries h => exact .put _ fun _ hstored => nomatch hstored.symm.trans h
  | list => exact fun _ items h => ⟨items, object?_alloc h _, Nat.le_refl _⟩

end KeepsLists

end World

/-- Nothing that the host does on its own makes a list shorter or something else; a list gives it no
way to. -/
structure Host.SparesLists (H : Host P) : Prop where
  apart : H.Follows World.KeepsLists
  hasNext {w : World P} {r : Address} {iterable : Iterable P} :
    H.iterableOf? w r = some iterable → w.KeepsLists (iterable.hasNext w).2
  next {w w' : World P} {r : Address} {iterable : Iterable P} :
    H.iterableOf? w r = some iterable → iterable.hasNext w = (true, w') →
      w'.KeepsLists (iterable.next w').2

def sparing {prog : Program P} (h : prog.host.SparesLists) : Chronicle prog where
  tells w _ w' := w.KeepsLists w'
  nothing := .refl
  append := .trans
  incident w _ := .refl w
  invoked w _ := .refl w
  act w hx := hx.moves (fun _ _ => .of_changes) h.apart w
  create w hr := Host.create_moves h.apart hr w
  close w hr := Host.close_moves h.apart hr w
  next cursor w := Cursor.next?_moves (.refl w) cursor fun _ _ _ _ hr =>
    ⟨h.hasNext hr, fun hmore => (h.hasNext hr).trans (h.next hr (Prod.ext hmore rfl))⟩

theorem Evaluator.block_keepsLists {prog : Program P} (h : prog.host.SparesLists) (fuel : Nat)
    (body : List Stmt) (m : Machine P) :
    m.world.KeepsLists ((prog.evaluator fuel).block body m).2.world := by
  obtain ⟨_, -, hkept⟩ := (sparing h).block fuel body m
  exact hkept

-- ---------------------------------------------------------------------------
-- What a range goes through
-- ---------------------------------------------------------------------------

/-- What a range goes through that asks nothing of the host: the ints below one, the bytes of a
string, the entries of a map, or so many items of a list. -/
inductive Space where
  | ints (n : Int64)
  | bytes (s : String)
  | entries (map : Entries)
  | items (list : Address) (size : Nat)

namespace Space

def count : Space → Nat
  | ints n => n.toInt.toNat
  | bytes s => (Text.bytes s).length
  | entries map => map.size
  | items _ size => size

/-- What is received at a turn. Of a list that is what it has there in the world at that time. -/
def Turn (now : World P) (i : Nat) (key v : Value) : Space → Prop
  | ints _ => key = .ofNat i ∧ v = .ofNat i
  | bytes s => key = .ofNat i ∧ ∃ b, (Text.bytes s)[i]? = some b ∧ v = .ofByte b
  | entries map => ∃ name, map.pairs[i]? = some (name, v) ∧ key = .str name
  | items list _ =>
    key = .ofNat i ∧ ∃ items, now.object? list = some (.list items) ∧ items[i]? = some v

/-- The places of a list are ints, so it has no more items than an int can tell. -/
def Countable : Space → Prop
  | items _ size => size ≤ Int64.maxValue.toInt
  | _ => True

end Space

def World.space? (w : World P) : Value → Option Space
  | .int n => some (.ints n)
  | .str s => some (.bytes s)
  | .pair _ v => w.space? v
  | .ref r =>
    match w.object? r with
    | some (.list items) => some (.items r items.size)
    | some (.map map) => some (.entries map)
    | _ => none
  | _ => none

/-- A cursor stands before a turn of a space, in a world in which it can go on. -/
inductive Cursor.Stands (w : World P) (i : Nat) : Space → Cursor → Prop
  | count {n : Int64} (h : i ≤ n.toInt.toNat) : Stands w i (.ints n) (.count n (.ofNat i))
  | bytes {s : String} (h : i ≤ (Text.bytes s).length) :
    Stands w i (.bytes s) (.bytes ((Text.bytes s).drop i) i)
  | entries {map : Entries} (h : i ≤ map.size) :
    Stands w i (.entries map) (.entries ((map.pairs.drop i).map fun (key, v) => (.str key, v)))
  | sequence {r : Address} {items : Array Value} {size : Nat} (h : i ≤ size)
    (hcount : size ≤ Int64.maxValue.toInt) (hr : w.object? r = some (.list items))
    (hsize : size ≤ items.size) :
    Stands w i (.items r size) (.sequence r size i)

namespace Cursor.Stands

variable {H : Host P} {w w' : World P} {i : Nat} {space : Space} {cursor : Cursor}

theorem le_count (h : Stands w i space cursor) : i ≤ space.count := by
  cases h <;> assumption

theorem no_iterator (h : Stands w i space cursor) : ∀ r next, cursor ≠ .iterator r next := by
  cases h <;> exact nofun

theorem kept (h : Stands w i space cursor) (hw : w.KeepsLists w') : Stands w' i space cursor := by
  cases h with
  | count h => exact .count h
  | bytes h => exact .bytes h
  | entries h => exact .entries h
  | sequence h hcount hr hsize =>
    obtain ⟨items', hr', hle⟩ := hw _ _ hr
    exact .sequence h hcount hr' (Nat.le_trans hsize hle)

theorem more (h : Stands w i space cursor) (hi : i < space.count) : ∃ key v next,
    cursor.next? H w = (.ok (some ((key, v), next)), w) ∧ space.Turn w i key v ∧
      Stands w (i + 1) space next := by
  cases h with
  | @count n h =>
    have hi : i < n.toInt := Int.lt_toNat.mp hi
    have hlt : Int64.ofNat i < n := by
      rwa [Int64.lt_iff_toInt_lt, toInt_ofNat_of_le (Int.le_trans (Int.le_of_lt hi) n.toInt_le)]
    refine ⟨_, _, _, ?_, ⟨rfl, rfl⟩, .count (Int.lt_toNat.mpr hi)⟩
    rw [next?, if_pos hlt, Int64.ofNat_add]
    rfl
  | bytes h =>
    refine ⟨_, _, _, ?_, ⟨rfl, _, List.getElem?_eq_getElem hi, rfl⟩, .bytes hi⟩
    rw [List.drop_eq_getElem_cons hi]
    rfl
  | @entries map h =>
    refine ⟨_, _, _, ?_, ⟨_, List.getElem?_eq_getElem hi, rfl⟩, .entries hi⟩
    rw [List.drop_eq_getElem_cons hi]
    rfl
  | sequence h hcount hr hsize =>
    have hitem := Nat.lt_of_lt_of_le hi hsize
    have helement := Host.element_list hr hitem (by omega)
    exact ⟨_, _, _, next?_sequence (H.indexedOf?_list hr) hi helement,
      ⟨rfl, _, hr, Array.getElem?_eq_getElem hitem⟩, .sequence hi hcount hr hsize⟩

theorem at_end (h : Stands w space.count space cursor) : cursor.next? H w = (.ok none, w) := by
  cases h with
  | @count n h =>
    have hle : ¬ Int64.ofNat n.toInt.toNat < n := by
      have hn := n.toInt_le
      have hmax : 0 ≤ Int64.maxValue.toInt := by decide
      rw [Int64.lt_iff_toInt_lt, toInt_ofNat_of_le (by omega)]
      omega
    rw [next?, Space.count, if_neg hle]
    rfl
  | bytes h =>
    rw [Space.count, List.drop_length]
    rfl
  | entries h =>
    rw [Space.count, Entries.size, List.drop_length]
    rfl
  | sequence => exact next?_sequence_end

end Cursor.Stands

theorem World.space?_start {H : Host P} {w : World P} {v : Value} {space : Space}
    (h : w.space? v = some space) (hcount : space.Countable) :
    ∃ cursor, Cursor.start H w v = .ok cursor ∧ cursor.Stands w 0 space := by
  induction v with
  | int n =>
    cases h
    exact ⟨_, rfl, .count (Nat.zero_le _)⟩
  | str s =>
    cases h
    exact ⟨_, rfl, .bytes (Nat.zero_le _)⟩
  | pair _ v ih => exact ih h
  | ref r =>
    unfold space? at h
    split at h
    · rename_i items hr
      cases h
      refine ⟨_, ?_, .sequence (Nat.zero_le _) hcount hr (Nat.le_refl _)⟩
      simp [Cursor.start, Host.iterableOf?, Host.entriesOf?, Host.lengthOf?, Host.indexedOf?, hr]
    · rename_i map hr
      cases h
      refine ⟨_, ?_, .entries (Nat.zero_le _)⟩
      simp [Cursor.start, Host.iterableOf?, Host.entriesOf?, hr]
    · cases h
  | _ => cases h

-- ---------------------------------------------------------------------------
-- Its rounds
-- ---------------------------------------------------------------------------

structure Round.Takes (E : Evaluator P) (range : Range) (space : Space) (i : Nat)
    (round : Round P) : Prop extends round.Runs E range where
  within : i < space.count
  turn : space.Turn round.asked.world i round.key round.value
  still : round.started = (round.asked.setting range.key round.key).setting range.value round.value

/-- The rounds of a range, of which there can be so many, are the turns of a space from the first
one on. If all bodies let it go on it goes through the whole space, and if it fails it is because
the last body did. -/
structure WalkRun.Covers (E : Evaluator P) (range : Range) (n : Nat) (space : Space)
    (run : WalkRun P) : Prop where
  takes {i : Nat} {round : Round P} : run.rounds[i]? = some round → round.Takes E range space i
  whole : (∀ round ∈ run.rounds, round.GoesOn) →
    run.rounds.length = min space.count n ∧
      run.outcome = if space.count < n then .ok .normal else .error .outOfFuel
  blame {e : Failure} : run.outcome = .error (.failed e) →
    ∃ round, run.rounds.getLast? = some round ∧ round.ended = .error (.failed e)

theorem halted?_failed {outcome : Except Halt Signal} {e : Failure}
    (h : halted? outcome = some (.error (.failed e))) : outcome = .error (.failed e) := by
  unfold halted? at h
  split at h <;> simp_all

namespace Evaluator

variable {prog : Program P} {range : Range} {space : Space} {n i : Nat} {cursor : Cursor}
  {m : Machine P}

theorem advance_still {step : Option ((Value × Value) × Cursor)}
    (h : cursor.next? prog.host m.world = (.ok step, m.world))
    (hno : ∀ r next, cursor ≠ .iterator r next) : advance prog cursor m = (.ok step, m) := by
  rw [advance, Exec.noting, Exec.act_ok h]
  dsimp only
  rw [heard_still hno]
  rfl

variable (prog) in
theorem advance_stands (h : cursor.Stands m.world i space) :
    (i < space.count ∧
      ∃ key v next, advance prog cursor m = (.ok (some ((key, v), next)), m) ∧
      space.Turn m.world i key v ∧ next.Stands m.world (i + 1) space) ∨
    i = space.count ∧ advance prog cursor m = (.ok none, m) := by
  rcases Nat.lt_or_eq_of_le h.le_count with hlt | rfl
  · obtain ⟨key, v, next, hnext, hturn, hstands⟩ := h.more (H := prog.host) hlt
    exact .inl ⟨hlt, key, v, next, advance_still hnext h.no_iterator, hturn, hstands⟩
  · exact .inr ⟨rfl, advance_still h.at_end h.no_iterator⟩

theorem takes_handsOn (hhost : prog.host.SparesLists) (fuel : Nat) :
    HandsOn (prog.evaluator fuel) prog range (fun i cursor m => cursor.Stands m.world i space)
      (Round.Takes (prog.evaluator fuel) range space) := by
  intro i cursor m key v next m' hstands hnext
  obtain ⟨hlt, key', v', next', hnext', hturn, hstands'⟩ | ⟨-, hover⟩ :=
    advance_stands prog hstands
  · cases hnext.symm.trans hnext'
    refine ⟨⟨round_runs .., hlt, hturn, rfl⟩, hstands'.kept ?_⟩
    have hkept :=
      block_keepsLists hhost fuel range.body ((m.setting range.key key).setting range.value v)
    simpa [round] using hkept
  · cases hnext.symm.trans hover

theorem Ends.covers {E : Evaluator P} {run : WalkRun P} {last : Machine P}
    (h :
      Ends prog range n (fun cursor => cursor.Stands last.world run.rounds.length space) run last)
    (htakes : ∀ i (round : Round P), run.rounds[i]? = some round →
      round.Takes E range space i) :
    run.Covers E range n space ∧ run.machine = last := by
  cases h with
  | @halted round h ho hm =>
    refine ⟨⟨htakes _ _, fun hall => ?_,
      fun he => ⟨round, h, halted?_failed (ho.trans (congrArg some he))⟩⟩,
      hm⟩
    cases ho.symm.trans (Round.goesOn_iff.mp (hall round (List.mem_of_getLast? h)))
  | spent hall hn ho hm =>
    have hle : n ≤ space.count := by
      by_contra hlt
      have hround := List.getElem?_eq_getElem (l := run.rounds) (i := space.count) (by omega)
      exact Nat.lt_irrefl _ (htakes _ _ hround).within
    refine ⟨⟨htakes _ _, fun _ => ⟨by omega, ?_⟩, fun he => ?_⟩, hm⟩
    · rw [if_neg (Nat.not_lt.mpr hle), ho]
    · cases ho.symm.trans he
  | drained hall hn hstands hnext ho =>
    obtain ⟨-, _, _, _, hmore, -, -⟩ | ⟨hcount, hover⟩ := advance_stands prog hstands
    · cases hmore.symm.trans hnext
    · rw [hover] at hnext
      refine ⟨⟨htakes _ _, fun _ => ⟨by omega, ?_⟩, fun he => ?_⟩,
        (Prod.ext_iff.mp hnext).2.symm⟩
      · rw [if_pos (hcount ▸ hn), ho]
      · cases ho.symm.trans he
  | failed hall hn hstands hnext ho =>
    obtain ⟨-, _, _, _, hmore, -, -⟩ | ⟨-, hover⟩ := advance_stands prog hstands
    · cases hmore.symm.trans hnext
    · cases hover.symm.trans hnext

end Evaluator

/-- A range over an int, a string, a map or a list can always start. Its rounds are the turns of
what it goes through then, whatever its bodies do: it goes through all of it unless a body ends it,
and does not fail unless a body does. -/
theorem range_covers (prog : Program P) (hhost : prog.host.SparesLists) (fuel : Nat)
    (key value : Option String) (declare : Bool) (source : Expr) (body : List Stmt)
    (m m' : Machine P) (v : Value) (space : Space)
    (hv : (prog.evaluator fuel).value source "range" m = (.ok v, m'))
    (hspace : m'.world.space? v = some space) (hcount : space.Countable) :
    ∃ cursor, Cursor.start prog.host m'.world v = .ok cursor ∧
      let run := (prog.evaluator fuel).rangeRun prog key value declare source body cursor m'
      (prog.evaluator fuel).range prog key value declare source body m =
          (run.outcome, run.machine.leaveBlock) ∧
        run.Covers (prog.evaluator fuel) ⟨key, value, source.pos, body⟩ fuel space ∧
        Round.Chain (m'.ranging declare key value) run.rounds run.machine := by
  obtain ⟨cursor, hstart, hstands⟩ := World.space?_start (H := prog.host) hspace hcount
  have hranging : cursor.Stands (m'.ranging declare key value).world 0 space := by
    rwa [Machine.ranging_world]
  obtain ⟨htakes, last, hchain, hends⟩ :=
    (Evaluator.takes_handsOn hhost fuel).walkRun fuel hranging
  obtain ⟨hcovers, hlast⟩ := hends.covers htakes
  exact ⟨cursor, hstart, Evaluator.range_rounds hv hstart, hcovers, hlast ▸ hchain⟩

namespace Workbench

theorem keepsLists_bears : Bears World.KeepsLists where
  refl := .refl
  trans _ _ _ := .trans
  noted _ _ _ items h := ⟨items, h, Nat.le_refl _⟩
  made _ _ _ items h := ⟨items, World.object?_alloc h _, Nat.le_refl _⟩
  counted h := .put _ fun _ hr => nomatch hr.symm.trans h

theorem host_sparesLists : host.SparesLists where
  apart := keepsLists_bears.follows
  hasNext {w r _} h := by
    obtain ⟨cell, hc⟩ := Host.iterableOf?_foreign h
    cases cell <;> cases hc
    exact keepsLists_bears.hasNext r w
  next {_ _ r _} h _ := by
    obtain ⟨cell, hc⟩ := Host.iterableOf?_foreign h
    cases cell <;> cases hc
    exact keepsLists_bears.next r

def twoListed : Machine platform :=
  Session.start ⟨[], .empty, none, [("xs", .ref 0)]⟩ ⟨#[.list #[.int 1, .int 2]], []⟩

/-- The statements `xs[1] = 9` and `xs.append(x)`. -/
def meddling : List Stmt :=
  [⟨.expr ⟨.assign ⟨[⟨"xs", [⟨.int 1, here⟩]⟩]⟩ .set ⟨.int 9, here⟩,
    here⟩, here⟩,
    ⟨.expr ⟨.call ⟨"xs.append", [variableNamed "x"], false, here⟩, here⟩, here⟩]

def meddlingRun : WalkRun platform :=
  (bare.evaluator 6).rangeRun bare none (some "x") true (variableNamed "xs") meddling
    (.sequence 0 2 0) twoListed

def listItems (w : World platform) : List (Option Int64) :=
  match w.object? 0 with
  | some (.list items) => items.toList.map Value.int?
  | _ => []

/-- A body that changes the second item, and appends what it receives, runs for both items that
there were at the start; it receives the second one as it is by then. -/
theorem meddling_covered :
    host.SparesLists ∧
      (bare.evaluator 6).value (variableNamed "xs") "range" twoListed =
        (.ok (.ref 0), twoListed) ∧
      twoListed.world.space? (.ref 0) = some (.items 0 2) ∧ (Space.items 0 2).Countable ∧
      meddlingRun.Covers (bare.evaluator 6) ⟨none, some "x", here, meddling⟩ 6 (.items 0 2) ∧
      meddlingRun.rounds.map (·.value.int?) = [some 1, some 9] ∧
      listItems meddlingRun.machine.world = [some 1, some 9, some 1, some 9] := by
  have hv : (bare.evaluator 6).value (variableNamed "xs") "range" twoListed =
    (.ok (.ref 0), twoListed) := by rfl
  have hspace : twoListed.world.space? (.ref 0) = some (.items 0 2) := by rfl
  have hcount : (Space.items 0 2).Countable := (by decide : (2 : Int) ≤ Int64.maxValue.toInt)
  obtain ⟨cursor, hstart, -, hcovers, -⟩ :=
    range_covers bare host_sparesLists 6 none (some "x") true
    (variableNamed "xs") meddling twoListed twoListed (.ref 0) (.items 0 2) hv hspace hcount
  have hcursor : Cursor.start bare.host twoListed.world (.ref 0) = .ok (.sequence 0 2 0) := by rfl
  cases hstart.symm.trans hcursor
  exact ⟨host_sparesLists, hv, hspace, hcount, hcovers, by decide +kernel, by decide +kernel⟩

end Workbench

end HostScript
