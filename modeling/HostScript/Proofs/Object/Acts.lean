import HostScript.Proofs.Exec.Causes
import HostScript.Workbench.Host

/-!
# The acts of a run

A run changes objects, and asks them for what they hold, by the acts that the host offers. Some are
the library's own, on lists and maps, others are up to the host. The library's fail plainly: if an
act fails in another way, for misuse of the calculator, at a position or with a backtrace, a
function or a capability of the host's own has returned that failure (`Host.Offers.answers`).
-/

namespace HostScript

variable {P : Platform} {α β : Type}

/-- The acts that expressions are made of: looking into objects, storing into them, and calls. -/
inductive Host.Serves (H : Host P) : {α : Type} → Act P α → Prop where
  | index (container key : Value) : H.Serves fun w => (H.index w container key, w)
  | items (v : Value) : H.Serves fun w => (H.items w v, w)
  | putField {w : World P} {r : Address} {fields : Fields P} (h : H.fieldsOf? w r = some fields)
      (name : String) (v : Value) : H.Serves (fields.put name v)
  | putIndexed {w : World P} {r : Address} {indexed : Indexed P}
      (h : H.indexedOf? w r = some indexed) (key v : Value) : H.Serves (indexed.put key v)
  | call (f : Callable P) (args : List Value) : H.Serves (f.call H args)
  | collect (results : List Value) : H.Serves (Act.collect results : Act P (Option Value))

/-- The acts on the world that a run is made of. -/
inductive Host.Offers (H : Host P) : {α : Type} → Act P α → Prop where
  | serves {α : Type} {x : Act P α} (h : H.Serves x) : H.Offers x
  | next (cursor : Cursor) : H.Offers (cursor.next? H)
  | create {w : World P} {r : Address} {resource : Resource P}
      (h : H.resourceOf? w r = some resource) : H.Offers resource.create
  | close {w : World P} {r : Address} {resource : Resource P}
      (h : H.resourceOf? w r = some resource) : H.Offers resource.close

namespace Host

/-- A failure that a function or a capability of the host's own has returned. -/
inductive Returns (H : Host P) (e : Failure) : Prop where
  | putField {r : Address} {cell : P.Cell} {fields : Fields P} {name : String} {v : Value}
      {w : World P} (h : H.fields? r cell = some fields) (he : (fields.put name v w).1 = .error e)
  | getIndexed {r : Address} {cell : P.Cell} {indexed : Indexed P} {key : Value} {w : World P}
      (h : H.indexed? r cell = some indexed) (he : indexed.get? w key = .error e)
  | putIndexed {r : Address} {cell : P.Cell} {indexed : Indexed P} {key v : Value} {w : World P}
      (h : H.indexed? r cell = some indexed) (he : (indexed.put key v w).1 = .error e)
  | next {r : Address} {cell : P.Cell} {iterable : Iterable P} {w : World P}
      (h : H.iterable? r cell = some iterable) (he : (iterable.next w).1 = .error e)
  | create {r : Address} {cell : P.Cell} {resource : Resource P} {w : World P}
      (h : H.resource? r cell = some resource) (he : (resource.create w).1 = .error e)
  | close {r : Address} {cell : P.Cell} {resource : Resource P} {w : World P}
      (h : H.resource? r cell = some resource) (he : (resource.close w).1 = .error e)
  | run {code : P.Code} {args : List Value} {w : World P}
      (he : (H.run code args w).1 = .error (.failed e))

def Answers (H : Host P) (r : Except Failure α) : Prop :=
  ∀ e, r = .error e → e.Plain ∨ H.Returns e

variable {H : Host P}

theorem Answers.of_ordinary {r : Except Failure α} (h : Ordinary r) : H.Answers r :=
  fun e he => .inl (h e he)

theorem Answers.bind {x : Except Failure α} {f : α → Except Failure β} (hx : H.Answers x)
    (hf : ∀ a, H.Answers (f a)) : H.Answers (x >>= f) := by
  cases x with
  | error e =>
    rintro _ ⟨⟩
    exact hx e rfl
  | ok a => exact hf a

theorem Answers.mapM {f : α → Except Failure β} (h : ∀ a, H.Answers (f a)) (as : List α) :
    H.Answers (as.mapM f) := by
  induction as with
  | nil => exact of_ordinary (.ok [])
  | cons a as ih =>
    rw [List.mapM_cons]
    exact (h a).bind fun _ => ih.bind fun _ => of_ordinary (.ok _)

def AnswersFor {ε σ : Type} (H : Host P) (tell : ε → Failure)
    (x : ExceptT ε (StateM σ) α) : Prop :=
  ∀ s e, (x s).1 = .error e → (tell e).Plain ∨ H.Returns (tell e)

namespace AnswersFor

variable {ε σ : Type} {tell : ε → Failure}

theorem pure (a : α) : H.AnswersFor tell (Pure.pure a : ExceptT ε (StateM σ) α) := nofun

theorem lift (x : StateM σ α) :
    H.AnswersFor tell (monadLift x : ExceptT ε (StateM σ) α) := nofun

theorem throw {e : ε} (h : (tell e).Plain) :
    H.AnswersFor tell (throw e : ExceptT ε (StateM σ) α) := by
  rintro s _ ⟨⟩
  exact .inl h

theorem bind {x : ExceptT ε (StateM σ) α} {f : α → ExceptT ε (StateM σ) β}
    (hx : H.AnswersFor tell x) (hf : ∀ a, H.AnswersFor tell (f a)) :
    H.AnswersFor tell (x >>= f) := by
  intro s e he
  simp only [Bind.bind, ExceptT.bind, ExceptT.mk, StateT.bind] at he
  rcases hs : x s with ⟨e' | a, s'⟩ <;> rw [hs] at he
  · cases he
    exact hx s e (congrArg Prod.fst hs)
  · exact hf a s' e he

theorem ofExcept {r : Except Failure α} (h : H.Answers r) :
    H.AnswersFor id (Act.ofExcept r : Act P α) :=
  fun _ e he => h e he

end AnswersFor

theorem iterableOf?_foreign {w : World P} {r : Address} {iterable : Iterable P}
    (h : H.iterableOf? w r = some iterable) : ∃ cell, H.iterable? r cell = some iterable := by
  unfold iterableOf? at h
  split at h
  · rename_i cell _
    exact ⟨cell, h⟩
  · cases h

theorem fieldsOf?_put {w : World P} {r : Address} {fields : Fields P}
    (h : H.fieldsOf? w r = some fields) (name : String) (v : Value) :
    H.AnswersFor id (fields.put name v) := by
  unfold fieldsOf? at h
  split at h
  · cases h
    exact .lift _
  · cases h
    exact .throw (.of fun h => h)
  · exact fun w e he => .inr (.putField h he)
  · cases h

theorem indexedOf?_get {w : World P} {r : Address} {indexed : Indexed P}
    (h : H.indexedOf? w r = some indexed) (w' : World P) (key : Value) :
    H.Answers (indexed.get? w' key) := by
  unfold indexedOf? at h
  split at h
  · cases h
    refine .of_ordinary ?_
    dsimp only [Indexed.ofList]
    split
    · refine .bind (View.asInt_ordinary _ key) fun index => ?_
      exact .bind (placeIn_ordinary _ index) fun _ => .ok _
    · exact .ok _
  · cases h
    refine .of_ordinary ?_
    dsimp only [Indexed.ofMap]
    split
    · exact .bind (View.asString_ordinary _ key) fun _ => .ok _
    · exact .ok _
  · exact fun e he => .inr (.getIndexed h he)
  · cases h

theorem indexedOf?_put {w : World P} {r : Address} {indexed : Indexed P}
    (h : H.indexedOf? w r = some indexed) (key v : Value) :
    H.AnswersFor id (indexed.put key v) := by
  unfold indexedOf? at h
  split at h
  · cases h
    refine .bind (.lift _) fun w => ?_
    split
    · refine .bind (.ofExcept (.of_ordinary ?_)) fun place => .lift _
      exact .bind (View.asInt_ordinary _ key) fun index => placeIn_ordinary _ index
    · exact .pure ()
  · cases h
    refine .bind (.lift _) fun w => ?_
    exact .bind (.ofExcept (.of_ordinary (View.asString_ordinary _ key))) fun name => .lift _
  · exact fun w e he => .inr (.putIndexed h he)
  · cases h

theorem index_answers (w : World P) (v key : Value) : H.Answers (H.index w v key) := by
  induction v with
  | pair _ v ih => exact ih
  | ref r =>
    unfold index
    split
    · rename_i indexed h
      exact (indexedOf?_get h w key).bind fun _ => .of_ordinary (.ok _)
    · exact .of_ordinary (.fails fun h => h)
  | str s =>
    refine .of_ordinary (.bind (w.view.asInt_ordinary key) fun index => ?_)
    exact .bind (placeIn_ordinary _ index) fun _ => .ok _
  | _ => exact .of_ordinary (.fails fun h => h)

theorem items_answers (w : World P) (v : Value) : H.Answers (H.items w v) := by
  induction v with
  | pair _ v ih => exact ih
  | ref r =>
    unfold items
    split
    · rename_i h
      refine .mapM (fun position => ?_) _
      exact (indexedOf?_get h w _).bind fun _ => .of_ordinary (.ok _)
    · exact .of_ordinary (.fails fun h => h)
  | str s => exact .of_ordinary (.ok _)
  | _ => exact .of_ordinary (.fails fun h => h)

theorem run_answers (code : Code P) (args : List Value) :
    H.AnswersFor Crash.failure (code.run H args) := by
  unfold Code.run
  split
  · refine .bind (.lift _) fun w => ?_
    split <;> exact .pure _
  · refine .bind (.lift _) fun w => ?_
    dsimp only
    split
    · exact .bind (.lift _) fun _ => .pure _
    · exact .pure _
  · refine .bind (.lift _) fun w => ?_
    split
    · exact .bind (.lift _) fun r => .pure _
    · exact .pure _
  · rename_i v low high
    refine .bind (.lift _) fun w => ?_
    split
    · exact .pure _
    · rename_i h
      exact .throw (Calculator.between_ordinary _ v low high [] _ h)
  · exact .throw (.of fun h => h)
  · exact .pure _
  · exact .throw (.of fun h => h)
  · exact .pure _
  · exact .throw (.of fun h => h)
  · rintro w (e | message) he
    · exact .inr (.run he)
    · exact .inl (.of fun h => h)

theorem call_answers (f : Callable P) (args : List Value) : H.AnswersFor id (f.call H args) := by
  intro w e he
  unfold Callable.call at he
  rcases hr : f.code.run H args w with ⟨crash | results, w'⟩ <;> rw [hr] at he
  · cases he
    exact run_answers f.code args w crash (congrArg Prod.fst hr)
  · cases he

theorem next?_answers (cursor : Cursor) : H.AnswersFor id (cursor.next? H) := by
  unfold Cursor.next?
  split
  · exact .pure _
  · exact .pure _
  · exact .pure _
  · refine .bind (.lift _) fun w => ?_
    split
    · rename_i iterable h
      refine .bind (.lift _) fun more => ?_
      split
      · refine .bind (fun w e he => ?_) fun v => .pure _
        obtain ⟨cell, hc⟩ := iterableOf?_foreign h
        exact .inr (.next hc he)
      · exact .pure _
    · exact .pure _
  · exact .pure _
  · exact .pure _
  · split
    · refine .bind (.lift _) fun w => ?_
      dsimp only
      split
      · rename_i h
        refine .bind (.ofExcept ?_) fun v => .pure _
        exact (indexedOf?_get h w _).bind fun _ => .of_ordinary (.ok _)
      · exact .bind (.pure _) fun v => .pure _
    · exact .pure _

theorem resourceOf?_foreign {w : World P} {r : Address} {resource : Resource P}
    (h : H.resourceOf? w r = some resource) : ∃ cell, H.resource? r cell = some resource := by
  unfold resourceOf? at h
  split at h
  · rename_i cell _
    exact ⟨cell, h⟩
  · cases h

end Host

theorem Host.Serves.answers {H : Host P} {x : Act P α} (h : H.Serves x) : H.AnswersFor id x := by
  cases h with
  | index container key => exact fun w e he => index_answers w container key e he
  | items v => exact fun w e he => items_answers w v e he
  | putField h name v => exact fieldsOf?_put h name v
  | putIndexed h key v => exact indexedOf?_put h key v
  | call f args => exact call_answers f args
  | collect results =>
    unfold Act.collect
    split
    · exact .pure _
    · exact .pure _
    · exact .bind (.bind (.lift _) fun _ => .pure _) fun _ => .pure _

theorem Host.Offers.answers {H : Host P} {x : Act P α} (h : H.Offers x) : H.AnswersFor id x := by
  cases h with
  | serves h => exact h.answers
  | next cursor => exact next?_answers cursor
  | create h =>
    obtain ⟨cell, hc⟩ := resourceOf?_foreign h
    exact fun w e he => .inr (.create hc he)
  | close h =>
    obtain ⟨cell, hc⟩ := resourceOf?_foreign h
    exact fun w e he => .inr (.close hc he)

-- ---------------------------------------------------------------------------
-- The workbench
-- ---------------------------------------------------------------------------

namespace Workbench

open Host

def silent : Host platform where
  fields? _ _ := none
  indexed? _ _ := none
  entries? _ := none
  length? _ := none
  iterable? _ _ := none
  resource? _ _ := none
  callable? _ := none
  method? _ _ _ := none
  run _ _ := pure []

theorem silent_returns {e : Failure} : ¬ silent.Returns e := by
  rintro (_ | _ | _ | _ | _ | _ | _) <;> contradiction

theorem note_answers {H : Host platform} {ε : Type} {tell : ε → Failure} (line : String) :
    H.AnswersFor tell (note line : ExceptT ε (StateM (World platform)) Unit) :=
  .lift _

theorem made_answers {H : Host platform} (o : Object platform) :
    H.AnswersFor Crash.failure (made o) :=
  .bind (.lift _) fun _ => .pure _

theorem texts_answers {H : Host platform} (args : List Value) :
    H.AnswersFor Crash.failure (texts args) :=
  .bind (.lift _) fun _ => .pure _

theorem routine_answers {H : Host platform} (routine : Routine) (args : List Value) :
    H.AnswersFor Crash.failure (run routine args) := by
  cases routine with
  | log => exact .bind (texts_answers args) fun _ => .bind (note_answers _) fun _ => .pure _
  | trace => exact .bind (.lift _) fun w => .bind (note_answers _) fun _ => .pure _
  | opt => exact .bind (texts_answers args) fun _ => .pure _
  | type => exact .bind (.lift _) fun _ => .pure _
  | list | typed | floats | map | plain =>
    rw [run]
    exact made_answers _
  | sum | multi | distance =>
    rw [run]
    exact .pure _
  | panicStatic | panicAny =>
    rw [run]
    exact .throw (.of fun h => h)
  | point | box | countdown | tracked =>
    unfold run
    split <;> try contradiction
    · exact made_answers _
    · exact .pure _
  | fail | panic =>
    unfold run
    split <;> try contradiction
    · exact .throw (.of fun h => h)
    · exact .pure _
  | function =>
    unfold run
    split <;> try contradiction
    · split
      · exact made_answers _
      · exact .throw (.of fun h => h)
    · exact .pure _

theorem seqItems_ordinary (items : List Value) (holes : Bool) (w : World platform) (key : Value) :
    Ordinary ((seqItems items holes).get? w key) := by
  refine .bind (w.view.asInt_ordinary key) fun index => ?_
  split
  · exact .ok _
  · rename_i e h
    split
    · exact .ok _
    · exact .error (placeIn_ordinary _ _ e h)

theorem countdownSteps_answers {H : Host platform} (r : Address) :
    H.AnswersFor id (countdownSteps r).next := by
  refine .bind (.lift _) fun w => ?_
  split
  · split
    · exact .throw (.of fun h => h)
    · exact .bind (.lift _) fun _ => .pure _
  · exact .pure _

theorem trackedCreate_answers {H : Host platform} (name mode : String) :
    H.AnswersFor id (trackedResource name mode).create := by
  unfold trackedResource
  dsimp only
  split
  · exact .pure _
  · refine .bind (note_answers _) fun _ => ?_
    split
    · exact .throw (.of fun h => h)
    · exact .pure _

theorem trackedClose_answers {H : Host platform} (name mode : String) :
    H.AnswersFor id (trackedResource name mode).close := by
  refine .bind (note_answers _) fun _ => ?_
  split
  · exact .throw (.of fun h => h)
  · exact .pure _

theorem plain_of_answers {ε α σ : Type} {tell : ε → Failure}
    {x : ExceptT ε (StateM σ) α} {s : σ}
    {e : ε} (h : silent.AnswersFor tell x) (he : (x s).1 = .error e) : (tell e).Plain :=
  (h s e he).resolve_right silent_returns

theorem host_bare {e : Failure} (h : host.Returns e) : e.Bare := by
  cases h with
  | @putField r cell fields name v w h he =>
    cases cell <;> cases h
    cases he
    exact .of _
  | @getIndexed r cell indexed key w h he =>
    cases cell with
    | seq length items holes indexable =>
      cases indexable <;> cases h
      exact (seqItems_ordinary items holes w key e he).toBare
    | _ => cases h
  | @putIndexed r cell indexed key v w h he =>
    cases cell with
    | seq length items holes indexable =>
      cases indexable <;> cases h
      cases he
      exact .of _
    | _ => cases h
  | @next r cell iterable w h he =>
    cases cell <;> cases h
    exact (plain_of_answers (countdownSteps_answers r) he).toBare
  | @create r cell resource w h he =>
    cases cell <;> cases h
    exact (plain_of_answers (trackedCreate_answers _ _) he).toBare
  | @close r cell resource w h he =>
    cases cell <;> cases h
    exact (plain_of_answers (trackedClose_answers _ _) he).toBare
  | @run code args w he => exact (plain_of_answers (routine_answers code args) he).toBare

end Workbench

end HostScript
