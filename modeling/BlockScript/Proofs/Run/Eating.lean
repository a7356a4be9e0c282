import BlockScript.Proofs.Run.Undisturbed
import BlockScript.Run.Rehearsal

/-!
# Eating is safe

A walk looks at the distance before it eats, and what it does afterwards rests on one flag that it
tests between two turns.  This file proves what that comes to, whatever scene answers: the target is
consumed at most once, out of reach never, and nothing is done after it.

## What is here

* `Act` — a thing that a walk does as a whole: a step with the look after it, an attempt to eat, the
  announcement of an iteration, a rest.  `Act.Lead` says that none of some acts eats the target, or
  the last one alone does.
* `Walk.acts_turn` and `Walk.acts_runFrom` — a turn does such acts, and so does a whole walk.
* `Rehearsal.performAll` — lists of blocks run one after another; `Rehearsal.acts_performAll` is the
  same for them.
* `Effect.EatsSafely` — what can be relied on, said of the effects alone, and
  `Act.Lead.eatsSafely`, which reads it off the acts.
* `Rehearsal.eating_is_safe` — **eating is safe** for all lists of blocks and against every scene.
-/

set_option autoImplicit false
namespace BlockScript

variable {σ : Type}

/-! ## Acts -/

/-- A thing that a walk does as a whole. -/
inductive Act where
  /-- The actor steps, and the distance is asked for. -/
  | step (direction : Direction) (answer : Float)
  /-- The distance is asked for, and the target is eaten if it is in reach. -/
  | attempt (answer : Float)
  /-- An iteration of a loop is announced. -/
  | announcement (iteration count : Nat)
  /-- A rest between two iterations, or after the last one. -/
  | pause

namespace Act

/-- The effects of an act. -/
def effects (pacing : Pacing) : Act → List Effect
  | .step direction answer =>
    [.call (.move direction), .call (.distance answer)]
      ++ (if answer < 60 then [.emit (.nearTarget answer)] else []) ++ [.rest pacing.step]
  | .attempt answer =>
    if answer < 50 then
      [.call (.distance answer), .call .consume, .emit .targetEaten, .rest pacing.celebration]
    else [.call (.distance answer), .emit (.tooFar answer)]
  | .announcement iteration count => [.emit (.repetition iteration count)]
  | .pause => [.rest pacing.step]

/-- Whether the target is eaten. -/
def eats : Act → Bool
  | .attempt answer => answer < 50
  | _ => false

/-- Acts lead to a success or to none: either the last one alone eats the target, or none does. -/
inductive Lead : List Act → Bool → Prop
  | hungry {acts : List Act} (h : ∀ act ∈ acts, act.eats = false) : Lead acts false
  | eaten {acts : List Act} {answer : Float} (h : ∀ act ∈ acts, act.eats = false)
      (hreach : answer < 50) : Lead (acts ++ [.attempt answer]) true

theorem Lead.nil : Lead [] false := .hungry (by simp)

theorem Lead.append {acts more : List Act} {succeeded : Bool} (h : Lead acts false)
    (hmore : Lead more succeeded) : Lead (acts ++ more) succeeded := by
  obtain ⟨h⟩ := h
  cases hmore with
  | hungry hmore =>
    refine .hungry ?_
    intro act hact
    rcases List.mem_append.1 hact with hact | hact
    · exact h act hact
    · exact hmore act hact
  | @eaten more answer hmore hreach =>
    rw [← List.append_assoc]
    refine .eaten ?_ hreach
    intro act hact
    rcases List.mem_append.1 hact with hact | hact
    · exact h act hact
    · exact hmore act hact

/-- An act that eats the target is the last one, and the only one. -/
theorem Lead.last {acts before after : List Act} {act : Act} {succeeded : Bool}
    (h : Lead acts succeeded) (hacts : acts = before ++ act :: after) (heats : act.eats = true) :
    succeeded = true ∧ after = [] ∧ ∀ earlier ∈ before, earlier.eats = false := by
  cases h with
  | hungry h =>
    have hact : act ∈ acts := by simp [hacts]
    rw [h act hact] at heats
    exact absurd heats (by decide)
  | @eaten earlier answer h hreach =>
    rcases List.eq_nil_or_concat after with rfl | ⟨rest, last, rfl⟩
    · obtain ⟨rfl, -⟩ := List.append_inj' hacts rfl
      exact ⟨rfl, rfl, h⟩
    · -- Otherwise the act would be among those ahead of the last one.
      simp only [List.concat_eq_append] at hacts
      rw [← List.cons_append, ← List.append_assoc] at hacts
      obtain ⟨rfl, -⟩ := List.append_inj' hacts rfl
      have hact : act.eats = false := h act (by simp)
      rw [hact] at heats
      exact absurd heats (by decide)

/-- What stands among the effects of some acts belongs to one of them. -/
theorem exists_of_flatMap_eq {pacing : Pacing} {acts : List Act} {before after : List Effect}
    {effect : Effect} (h : acts.flatMap (effects pacing) = before ++ effect :: after) :
    ∃ (earlier : List Act) (act : Act) (later : List Act) (front back : List Effect),
      acts = earlier ++ act :: later ∧ act.effects pacing = front ++ effect :: back
        ∧ before = earlier.flatMap (effects pacing) ++ front
        ∧ after = back ++ later.flatMap (effects pacing) := by
  induction acts generalizing before with
  | nil => simp at h
  | cons act acts ih =>
    rw [List.flatMap_cons] at h
    obtain ⟨between, rfl, hrest⟩ | ⟨back, hact, hrest⟩ := List.append_eq_append_iff.1 h
    · obtain ⟨earlier, other, later, front, back, rfl, hother, rfl, rfl⟩ := ih hrest
      exact ⟨act :: earlier, other, later, front, back, rfl, hother, by simp, rfl⟩
    · cases back with
      | nil =>
        obtain ⟨earlier, other, later, front, back, rfl, hother, hfront, rfl⟩ :=
          @ih [] hrest.symm
        refine ⟨act :: earlier, other, later, front, back, rfl, hother, ?_, rfl⟩
        rw [List.flatMap_cons, List.append_assoc, ← hfront, hact]
        simp
      | cons first back =>
        obtain ⟨rfl, rfl⟩ := List.cons.inj hrest
        exact ⟨[], act, acts, before, back, rfl, hact, by simp, rfl⟩

end Act

/-! ## What a walk does -/

section Walks

variable (scene : Scene σ) (pacing : Pacing)

/-- A block that is run does one act, or none. -/
theorem Walk.acts_runBlock {frames : List Frame} {block : Block} {state state' : σ}
    {effects : List Effect} {walk : Walk}
    (h : Walk.runBlock scene pacing frames state block = (effects, walk, state')) :
    ∃ acts : List Act, effects = acts.flatMap (Act.effects pacing)
      ∧ Act.Lead acts walk.succeeded := by
  cases block with
  | start =>
    obtain ⟨rfl, rfl, -⟩ := h
    exact ⟨[], rfl, .nil⟩
  | move direction =>
    obtain ⟨rfl, rfl, -⟩ := h
    refine ⟨[.step direction (scene.distance (scene.move state direction)).1], ?_, ?_⟩
    · rw [List.flatMap_cons, List.flatMap_nil, List.append_nil]
      rfl
    · exact .hungry (by simp [Act.eats])
  | eat =>
    by_cases hreach : (scene.distance state).1 < 50
    · rw [Walk.runBlock_eat_of_lt scene pacing frames hreach] at h
      obtain ⟨rfl, rfl, -⟩ := h
      refine ⟨[.attempt (scene.distance state).1], ?_, ?_⟩
      · simp [Act.effects, hreach]
      · exact @Act.Lead.eaten [] _ (by simp) hreach
    · rw [Walk.runBlock_eat_of_not_lt scene pacing frames hreach] at h
      obtain ⟨rfl, rfl, -⟩ := h
      refine ⟨[.attempt (scene.distance state).1], ?_, ?_⟩
      · simp [Act.effects, hreach]
      · exact .hungry (by simp [Act.eats, hreach])
  | loop count body =>
    obtain ⟨rfl, rfl, -⟩ := h
    exact ⟨[.announcement 1 count.val], rfl, .hungry (by simp [Act.eats])⟩

/-- A frame whose blocks have run out does nothing but rest and announce. -/
theorem Walk.acts_leaveFrame (frame : Frame) (frames : List Frame) :
    ∃ acts : List Act, (Walk.leaveFrame pacing frame frames).1 = acts.flatMap (Act.effects pacing)
      ∧ Act.Lead acts (Walk.leaveFrame pacing frame frames).2.succeeded := by
  obtain ⟨kind, blocks, next⟩ := frame
  cases kind with
  | sequence => exact ⟨[], rfl, .nil⟩
  | loop iteration count =>
    by_cases hlast : iteration < count
    · refine ⟨[.pause, .announcement (iteration + 1) count], ?_, ?_⟩
      · simp [Walk.leaveFrame, hlast, Act.effects]
      · simp only [Walk.leaveFrame, if_pos hlast]
        exact .hungry (by simp [Act.eats])
    · refine ⟨[.pause], ?_, ?_⟩
      · simp [Walk.leaveFrame, hlast, Act.effects]
      · simp only [Walk.leaveFrame, if_neg hlast]
        exact .hungry (by simp [Act.eats])

/-- **A turn does whole acts**, and if one of them eats the target it is the last one, and the walk
has succeeded. -/
theorem Walk.acts_turn {walk walk' : Walk} {state state' : σ} {effects : List Effect}
    (h : walk.turn scene pacing state = some (effects, walk', state')) :
    ∃ acts : List Act, effects = acts.flatMap (Act.effects pacing)
      ∧ Act.Lead acts walk'.succeeded := by
  obtain ⟨frames, succeeded⟩ := walk
  cases succeeded with
  | true => simp [Walk.turn] at h
  | false =>
    cases frames with
    | nil => simp [Walk.turn] at h
    | cons frame frames =>
      obtain ⟨kind, blocks, next⟩ := frame
      cases next with
      | nil =>
        obtain ⟨rfl, rfl, -⟩ := Option.some.inj h
        exact Walk.acts_leaveFrame pacing _ frames
      | cons block next => exact Walk.acts_runBlock scene pacing (Option.some.inj h)

/-- A walk that has succeeded does nothing more. -/
theorem Walk.runFrom_of_succeeded (effects : Array Effect) {walk : Walk} (state : σ)
    (h : walk.succeeded = true) :
    walk.runFrom scene pacing effects state = (effects, walk, state) := by
  have hturn : walk.turn scene pacing state = none := by rw [Walk.turn, if_pos h]
  rw [Walk.runFrom]
  split
  · rfl
  · rename_i heq
    rw [hturn] at heq
    exact absurd heq (by simp)

/-- **A walk does whole acts**, and if one of them eats the target it is the last one. -/
theorem Walk.acts_runFrom (effects : Array Effect) (walk : Walk) (state : σ)
    (h : walk.succeeded = false) :
    ∃ acts : List Act,
      (walk.runFrom scene pacing effects state).1 = effects ++ acts.flatMap (Act.effects pacing)
        ∧ Act.Lead acts (walk.runFrom scene pacing effects state).2.1.succeeded := by
  fun_induction Walk.runFrom scene pacing effects walk state with
  | case1 effects walk state hturn => exact ⟨[], by simp, h ▸ .nil⟩
  | case2 effects walk state more walk' state' hturn ih =>
    obtain ⟨acts, rfl, hacts⟩ := Walk.acts_turn scene pacing hturn
    cases hsucceeded : walk'.succeeded with
    | true =>
      rw [Walk.runFrom_of_succeeded scene pacing _ state' hsucceeded, hsucceeded]
      exact ⟨acts, rfl, hsucceeded ▸ hacts⟩
    | false =>
      obtain ⟨others, hrun, hothers⟩ := ih hsucceeded
      rw [hsucceeded] at hacts
      refine ⟨acts ++ others, ?_, hacts.append hothers⟩
      rw [hrun]
      exact Array.ext' (by simp)

/-- A list of blocks that is run does whole acts. -/
theorem Block.acts_runAll (blocks : List Block) (state : σ) :
    ∃ acts : List Act,
      (Block.runAll scene pacing blocks false state).1 = acts.flatMap (Act.effects pacing)
        ∧ Act.Lead acts (Block.runAll scene pacing blocks false state).2.1 := by
  obtain ⟨acts, hrun, hacts⟩ := Walk.acts_runFrom scene pacing #[]
    { frames := [Frame.sequence blocks], succeeded := false } state rfl
  refine ⟨acts, ?_, hacts⟩
  simp only [Block.runAll, Walk.run, hrun]
  simp

/-- Once the target has been eaten a list of blocks does nothing. -/
theorem Block.runAll_of_succeeded (blocks : List Block) (state : σ) :
    Block.runAll scene pacing blocks true state = ([], true, state) := by
  rw [Block.runAll, Walk.run, Walk.runFrom_of_succeeded scene pacing #[] state (by rfl)]

end Walks

namespace Rehearsal

/-- Runs lists of blocks one after another. -/
def performAll (scene : Scene σ) (pacing : Pacing) (rehearsal : Rehearsal σ) :
    List (List Block) → Timeline × Rehearsal σ
  | [] => ([], rehearsal)
  | blocks :: lists =>
    let (timeline, next) := rehearsal.perform scene pacing blocks
    let (others, last) := performAll scene pacing next lists
    (timeline ++ others, last)

theorem performAll_cons (scene : Scene σ) (pacing : Pacing) (rehearsal : Rehearsal σ)
    (blocks : List Block) (lists : List (List Block)) :
    rehearsal.performAll scene pacing (blocks :: lists)
      = ((rehearsal.perform scene pacing blocks).1
          ++ ((rehearsal.perform scene pacing blocks).2.performAll scene pacing lists).1,
        ((rehearsal.perform scene pacing blocks).2.performAll scene pacing lists).2) := rfl

/-- The effects of lists of blocks run one after another, in order. -/
def effects (scene : Scene σ) (pacing : Pacing) (rehearsal : Rehearsal σ)
    (lists : List (List Block)) : List Effect :=
  (rehearsal.performAll scene pacing lists).1.map Prod.snd

theorem effects_cons (scene : Scene σ) (pacing : Pacing) (rehearsal : Rehearsal σ)
    (blocks : List Block) (lists : List (List Block)) :
    rehearsal.effects scene pacing (blocks :: lists)
      = (Block.runAll scene pacing blocks rehearsal.succeeded rehearsal.state).1
        ++ (rehearsal.perform scene pacing blocks).2.effects scene pacing lists := by
  rw [effects, performAll_cons, List.map_append]
  congr 1
  exact Effect.map_snd_timeline rehearsal.clock _

section

variable (scene : Scene σ) (pacing : Pacing)

/-- Once the target has been eaten further lists of blocks do nothing. -/
theorem performAll_of_succeeded {rehearsal : Rehearsal σ} (h : rehearsal.succeeded = true)
    (lists : List (List Block)) : rehearsal.performAll scene pacing lists = ([], rehearsal) := by
  induction lists with
  | nil => rfl
  | cons blocks lists ih =>
    obtain ⟨state, clock, succeeded⟩ := rehearsal
    obtain rfl : succeeded = true := h
    have hperform : Rehearsal.perform scene pacing { state, clock, succeeded := true } blocks
        = ([], { state, clock, succeeded := true }) := by
      simp only [perform, Block.runAll_of_succeeded]
      rfl
    rw [performAll_cons, hperform, ih]
    rfl

/-- **Lists of blocks do whole acts**, and if one of them eats the target it is the last one. -/
theorem acts_performAll {rehearsal : Rehearsal σ} (h : rehearsal.succeeded = false)
    (lists : List (List Block)) :
    ∃ acts : List Act,
      rehearsal.effects scene pacing lists = acts.flatMap (Act.effects pacing)
        ∧ Act.Lead acts (rehearsal.performAll scene pacing lists).2.succeeded := by
  induction lists generalizing rehearsal with
  | nil => exact ⟨[], rfl, h ▸ .nil⟩
  | cons blocks lists ih =>
    obtain ⟨acts, hrun, hacts⟩ := Block.acts_runAll scene pacing blocks rehearsal.state
    rw [← h] at hrun hacts
    have hnext : (rehearsal.perform scene pacing blocks).2.succeeded
        = (Block.runAll scene pacing blocks rehearsal.succeeded rehearsal.state).2.1 := rfl
    rw [effects_cons, performAll_cons, hrun]
    cases hsucceeded : (rehearsal.perform scene pacing blocks).2.succeeded with
    | true =>
      rw [← hnext, hsucceeded] at hacts
      rw [effects, performAll_of_succeeded scene pacing hsucceeded, hsucceeded]
      exact ⟨acts, by simp, hacts⟩
    | false =>
      rw [← hnext, hsucceeded] at hacts
      obtain ⟨others, hothers, hlead⟩ := ih hsucceeded
      exact ⟨acts ++ others, by rw [hothers, List.flatMap_append], hacts.append hlead⟩

end

end Rehearsal

/-! ## What can be relied on -/

open Float.Model in
/-- A number that is none is below nothing. -/
theorem not_lt_of_isNaN {a b : Float} (h : a.isNaN = true) : ¬ a < b := by
  have hnan : a.toModel.unpack.isNaN = true := h
  have hunpack : a.toModel.unpack = .notANumber := by
    cases hmodel : a.toModel.unpack with
    | notANumber => rfl
    | _ =>
      rw [hmodel] at hnan
      exact absurd hnan Bool.false_ne_true
  intro hlt
  have hlt : a.toModel.unpack.lt b.toModel.unpack = true := of_decide_eq_true hlt
  rw [hunpack] at hlt
  exact absurd hlt Bool.false_ne_true

/-- The distance that an event tells of a target that is near. -/
def Event.nearTarget? : Event → Option Float
  | .nearTarget answer => some answer
  | _ => none

/-- The distance that an event tells of a target that is too far. -/
def Event.tooFar? : Event → Option Float
  | .tooFar answer => some answer
  | _ => none

namespace Scene.Call

/-- The answers to the queries that follow a move at once. -/
def answersToMoves : List Call → List Float
  | .move _ :: .distance answer :: calls => answer :: answersToMoves calls
  | _ :: calls => answersToMoves calls
  | [] => []

/-- The answers to all other queries, those of attempts to eat. -/
def answersToAttempts : List Call → List Float
  | .move _ :: .distance _ :: calls => answersToAttempts calls
  | .distance answer :: calls => answer :: answersToAttempts calls
  | _ :: calls => answersToAttempts calls
  | [] => []

end Scene.Call

open Scene.Call

/-- What can be relied on in the effects of a run that ends with or without success. -/
structure Effect.EatsSafely (pacing : Pacing) (effects : List Effect) (succeeded : Bool) :
    Prop where
  /-- The target is consumed once if the run succeeds, and otherwise never. -/
  count_consume : (Effect.calls effects).count .consume = succeeded.toNat
  /-- So it is with the report that it has been eaten. -/
  count_targetEaten : (Effect.events effects).count .targetEaten = succeeded.toNat
  /-- The target is consumed right after a query that has told that it is in reach.  This is
  reported at once, and then there is nothing but a rest. -/
  consume : ∀ before after, effects = before ++ .call .consume :: after →
    (∃ earlier answer, before = earlier ++ [.call (.distance answer)] ∧ answer < 50)
      ∧ after = [.emit .targetEaten, .rest pacing.celebration]
  /-- That the target has been eaten is reported right after it has been consumed, and no event
  comes later. -/
  targetEaten : ∀ before after, effects = before ++ .emit .targetEaten :: after →
    (∃ earlier, before = earlier ++ [.call .consume]) ∧ after = [.rest pacing.celebration]
  /-- A move is followed at once by one query, by a report if the target is near, and by a rest. -/
  move : ∀ before after direction, effects = before ++ .call (.move direction) :: after →
    ∃ answer rest, after = .call (.distance answer)
      :: ((if answer < 60 then [.emit (.nearTarget answer)] else []) ++ .rest pacing.step :: rest)
  /-- The target is reported to be near with the answers after moves that are below 60. -/
  nearTarget : (Effect.events effects).filterMap Event.nearTarget?
    = (answersToMoves (Effect.calls effects)).filter (· < 60)
  /-- The target is reported to be too far with the answers to attempts that are not below 50. -/
  tooFar : (Effect.events effects).filterMap Event.tooFar?
    = (answersToAttempts (Effect.calls effects)).filter (¬ · < 50)
  /-- An answer that is no number is among them. -/
  tooFar_of_isNaN : ∀ answer ∈ answersToAttempts (Effect.calls effects), answer.isNaN = true →
    .emit (.tooFar answer) ∈ effects

namespace Act

variable {pacing : Pacing} {acts : List Act}

/-- The uses of the scene in an act. -/
def calls : Act → List Scene.Call
  | .step direction answer => [.move direction, .distance answer]
  | .attempt answer => if answer < 50 then [.distance answer, .consume] else [.distance answer]
  | _ => []

/-- The events of an act. -/
def events : Act → List Event
  | .step _ answer => if answer < 60 then [.nearTarget answer] else []
  | .attempt answer => if answer < 50 then [.targetEaten] else [.tooFar answer]
  | .announcement iteration count => [.repetition iteration count]
  | .pause => []

theorem calls_effects (act : Act) : Effect.calls (act.effects pacing) = act.calls := by
  cases act with
  | step direction answer => by_cases h : answer < 60 <;> simp [effects, calls, h]
  | attempt answer => by_cases h : answer < 50 <;> simp [effects, calls, h]
  | announcement iteration count => rfl
  | pause => rfl

theorem events_effects (act : Act) : Effect.events (act.effects pacing) = act.events := by
  cases act with
  | step direction answer => by_cases h : answer < 60 <;> simp [effects, events, h]
  | attempt answer => by_cases h : answer < 50 <;> simp [effects, events, h]
  | announcement iteration count => rfl
  | pause => rfl

theorem calls_flatMap : Effect.calls (acts.flatMap (effects pacing)) = acts.flatMap calls := by
  rw [Effect.calls, List.filterMap_flatMap]
  exact congrArg (acts.flatMap ·) (funext fun act => calls_effects act)

theorem events_flatMap : Effect.events (acts.flatMap (effects pacing)) = acts.flatMap events := by
  rw [Effect.events, List.filterMap_flatMap]
  exact congrArg (acts.flatMap ·) (funext fun act => events_effects act)

/-- An act consumes the target only by eating it, right after the query. -/
theorem effects_consume {act : Act} {front back : List Effect}
    (h : act.effects pacing = front ++ .call .consume :: back) :
    act.eats = true ∧ (∃ answer, front = [.call (.distance answer)] ∧ answer < 50)
      ∧ back = [.emit .targetEaten, .rest pacing.celebration] := by
  cases act with
  | step direction answer =>
    by_cases hnear : answer < 60 <;> simp [effects, hnear, List.cons_eq_append_iff] at h
  | attempt answer =>
    by_cases hreach : answer < 50
    · obtain ⟨rfl, rfl⟩ : front = [.call (.distance answer)]
          ∧ back = [.emit .targetEaten, .rest pacing.celebration] := by
        simpa [effects, hreach, List.cons_eq_append_iff] using h
      exact ⟨by simp [eats, hreach], ⟨answer, rfl, hreach⟩, rfl⟩
    · simp [effects, hreach, List.cons_eq_append_iff] at h
  | announcement iteration count => simp [effects, List.cons_eq_append_iff] at h
  | pause => simp [effects, List.cons_eq_append_iff] at h

/-- An act reports that the target has been eaten only right after it has consumed it. -/
theorem effects_targetEaten {act : Act} {front back : List Effect}
    (h : act.effects pacing = front ++ .emit .targetEaten :: back) :
    act.eats = true ∧ (∃ earlier, front = earlier ++ [.call .consume])
      ∧ back = [.rest pacing.celebration] := by
  cases act with
  | step direction answer =>
    by_cases hnear : answer < 60 <;> simp [effects, hnear, List.cons_eq_append_iff] at h
  | attempt answer =>
    by_cases hreach : answer < 50
    · obtain ⟨rfl, rfl⟩ : front = [.call (.distance answer), .call .consume]
          ∧ back = [.rest pacing.celebration] := by
        simpa [effects, hreach, List.cons_eq_append_iff] using h
      exact ⟨by simp [eats, hreach], ⟨[.call (.distance answer)], rfl⟩, rfl⟩
    · simp [effects, hreach, List.cons_eq_append_iff] at h
  | announcement iteration count => simp [effects, List.cons_eq_append_iff] at h
  | pause => simp [effects, List.cons_eq_append_iff] at h

/-- An act that moves the actor is a step. -/
theorem effects_move {act : Act} {front back : List Effect} {direction : Direction}
    (h : act.effects pacing = front ++ .call (.move direction) :: back) :
    ∃ answer, back = .call (.distance answer)
      :: ((if answer < 60 then [.emit (.nearTarget answer)] else []) ++ [.rest pacing.step]) := by
  cases act with
  | step heading answer =>
    refine ⟨answer, ?_⟩
    by_cases hnear : answer < 60
    · obtain ⟨-, -, rfl⟩ : front = [] ∧ direction = heading ∧ back = [.call (.distance answer),
          .emit (.nearTarget answer), .rest pacing.step] := by
        simpa [effects, hnear, List.cons_eq_append_iff] using h
      simp [hnear]
    · obtain ⟨-, -, rfl⟩ : front = [] ∧ direction = heading
          ∧ back = [.call (.distance answer), .rest pacing.step] := by
        simpa [effects, hnear, List.cons_eq_append_iff] using h
      simp [hnear]
  | attempt answer =>
    by_cases hreach : answer < 50 <;> simp [effects, hreach, List.cons_eq_append_iff] at h
  | announcement iteration count => simp [effects, List.cons_eq_append_iff] at h
  | pause => simp [effects, List.cons_eq_append_iff] at h

/-- The events of acts tell the answers after moves that are below 60. -/
theorem nearTarget_events (acts : List Act) :
    (acts.flatMap events).filterMap Event.nearTarget?
      = (answersToMoves (acts.flatMap calls)).filter (· < 60) := by
  induction acts with
  | nil => rfl
  | cons act acts ih =>
    rw [List.flatMap_cons, List.flatMap_cons, List.filterMap_append, ih]
    cases act with
    | step direction answer =>
      by_cases hnear : answer < 60 <;>
        simp [events, calls, answersToMoves, Event.nearTarget?, hnear]
    | attempt answer =>
      by_cases hreach : answer < 50 <;>
        simp [events, calls, answersToMoves, Event.nearTarget?, hreach]
    | announcement iteration count => simp [events, calls, Event.nearTarget?]
    | pause => simp [events, calls]

/-- The events of acts tell the answers to attempts that are not below 50. -/
theorem tooFar_events (acts : List Act) :
    (acts.flatMap events).filterMap Event.tooFar?
      = (answersToAttempts (acts.flatMap calls)).filter (¬ · < 50) := by
  induction acts with
  | nil => rfl
  | cons act acts ih =>
    rw [List.flatMap_cons, List.flatMap_cons, List.filterMap_append, ih]
    cases act with
    | step direction answer =>
      by_cases hnear : answer < 60 <;>
        simp [events, calls, answersToAttempts, Event.tooFar?, hnear]
    | attempt answer =>
      by_cases hreach : answer < 50 <;>
        simp [events, calls, answersToAttempts, Event.tooFar?, hreach]
    | announcement iteration count => simp [events, calls, Event.tooFar?]
    | pause => simp [events, calls]

/-- One act eats the target if the acts lead to a success, and otherwise none does. -/
theorem Lead.countP_eats {succeeded : Bool} (h : Lead acts succeeded) :
    acts.countP eats = succeeded.toNat := by
  have hungry {acts : List Act} (h : ∀ act ∈ acts, act.eats = false) : acts.countP eats = 0 := by
    refine List.countP_eq_zero.2 ?_
    intro act hact
    rw [h act hact]
    exact Bool.false_ne_true
  cases h with
  | hungry h => exact hungry h
  | eaten h hreach =>
    rw [List.countP_append, hungry h]
    simp [eats, hreach]

/-- What every act does as often as it eats, acts do as often as one of them eats. -/
theorem count_flatMap_eq_countP {α : Type} [BEq α] {f : Act → List α} {a : α}
    (h : ∀ act : Act, (f act).count a = act.eats.toNat) (acts : List Act) :
    (acts.flatMap f).count a = acts.countP eats := by
  induction acts with
  | nil => rfl
  | cons act acts ih =>
    rw [List.flatMap_cons, List.count_append, List.countP_cons, ih, h act, Nat.add_comm]
    cases act.eats <;> rfl

theorem count_consume_calls (act : Act) : act.calls.count .consume = act.eats.toNat := by
  cases act with
  | attempt answer => by_cases hreach : answer < 50 <;> simp [calls, eats, hreach]
  | _ => simp [calls, eats]

theorem count_targetEaten_events (act : Act) :
    act.events.count .targetEaten = act.eats.toNat := by
  cases act with
  | step direction answer => by_cases hnear : answer < 60 <;> simp [events, eats, hnear]
  | attempt answer => by_cases hreach : answer < 50 <;> simp [events, eats, hreach]
  | _ => simp [events, eats]

/-- **Acts eat safely**, if only the last one eats the target. -/
theorem Lead.eatsSafely {succeeded : Bool} (h : Lead acts succeeded) :
    Effect.EatsSafely pacing (acts.flatMap (effects pacing)) succeeded where
  count_consume := by
    rw [calls_flatMap, count_flatMap_eq_countP count_consume_calls, h.countP_eats]
  count_targetEaten := by
    rw [events_flatMap, count_flatMap_eq_countP count_targetEaten_events, h.countP_eats]
  consume before after heffects := by
    obtain ⟨earlier, act, later, front, back, hacts, hact, rfl, rfl⟩ :=
      exists_of_flatMap_eq heffects
    obtain ⟨heats, ⟨answer, rfl, hreach⟩, rfl⟩ := effects_consume hact
    obtain ⟨-, rfl, -⟩ := h.last hacts heats
    exact ⟨⟨_, answer, rfl, hreach⟩, by simp⟩
  targetEaten before after heffects := by
    obtain ⟨earlier, act, later, front, back, hacts, hact, rfl, rfl⟩ :=
      exists_of_flatMap_eq heffects
    obtain ⟨heats, ⟨start, rfl⟩, rfl⟩ := effects_targetEaten hact
    obtain ⟨-, rfl, -⟩ := h.last hacts heats
    exact ⟨⟨_, (List.append_assoc ..).symm⟩, by simp⟩
  move before after direction heffects := by
    obtain ⟨earlier, act, later, front, back, -, hact, -, rfl⟩ := exists_of_flatMap_eq heffects
    obtain ⟨answer, rfl⟩ := effects_move hact
    exact ⟨answer, later.flatMap (effects pacing), by simp⟩
  nearTarget := by rw [events_flatMap, calls_flatMap, nearTarget_events]
  tooFar := by rw [events_flatMap, calls_flatMap, tooFar_events]
  tooFar_of_isNaN answer hanswer hnan := by
    have htold : answer ∈ (Effect.events (acts.flatMap (effects pacing))).filterMap
        Event.tooFar? := by
      rw [events_flatMap, tooFar_events, List.mem_filter]
      rw [calls_flatMap] at hanswer
      exact ⟨hanswer, decide_eq_true (not_lt_of_isNaN hnan)⟩
    obtain ⟨event, hevent, htells⟩ := List.mem_filterMap.1 htold
    obtain ⟨effect, heffect, hemits⟩ := List.mem_filterMap.1 hevent
    cases event with
    | tooFar told =>
      obtain rfl : told = answer := Option.some.inj htells
      cases effect with
      | emit event =>
        obtain rfl : event = .tooFar told := Option.some.inj hemits
        exact heffect
      | call => cases hemits
      | rest => cases hemits
    | _ => exact absurd htells (by simp [Event.tooFar?])

end Act

/-- **Eating is safe.**  Lists of blocks that are run one after another, with one memory of whether
the target has been eaten, eat it at most once and only in reach, and do nothing after it. -/
theorem Rehearsal.eating_is_safe (scene : Scene σ) (pacing : Pacing) (state : σ)
    (lists : List (List Block)) :
    Effect.EatsSafely pacing (Rehearsal.effects scene pacing { state } lists)
      (Rehearsal.performAll scene pacing { state } lists).2.succeeded := by
  obtain ⟨acts, heffects, hlead⟩ :=
    Rehearsal.acts_performAll scene pacing (rfl : ({ state } : Rehearsal σ).succeeded = false) lists
  rw [heffects]
  exact hlead.eatsSafely

end BlockScript
