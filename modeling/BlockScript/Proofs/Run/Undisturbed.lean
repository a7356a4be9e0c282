import BlockScript.Controller
import BlockScript.Proofs.Run.Meaning

/-!
# Undisturbed runs

An execution stops at its rests and is taken up again later, by a controller that does many other
things in between.  This file says what an execution does from where it stands to its end, and that
a stop only splits this into what has been done and what is left.

## What is here

* `Effect.lasting` — effects without the rests of no time; `Effect.calls` and `Effect.events` — the
  uses of the scene and the events among effects; `Course.only` — a course with some of its effects.
* `Execution.meaning` and `Stop.meaning` — what an execution does to its end, and what is left of
  it where it has stopped.  `Execution.meaning_advance`: what was done on the way to a stop, and
  then what is left there, is what the execution does.
* `Program.performance` and `Program.result` — what a program does if nobody disturbs it, and the
  record of that run.
* `Program.deeds_performance` — apart from its rests, a performance does not depend on the pacing;
  `Program.reset_notMem_calls` — it does not reset the scene.
-/

set_option autoImplicit false
namespace BlockScript

variable {σ : Type}

/-! ## Rests, calls and events -/

/-- Whether an event announces an iteration of a loop. -/
def Event.isRepetition : Event → Bool
  | .repetition .. => true
  | _ => false

namespace Effect

/-- Whether an effect is a rest of no time, which is no rest. -/
def isVoid : Effect → Bool
  | .rest 0 => true
  | _ => false

/-- Whether an effect is a rest. -/
def isRest : Effect → Bool
  | .rest _ => true
  | _ => false

@[simp] theorem isRest_rest (duration : Nat) : (rest duration).isRest = true := rfl

@[simp] theorem isRest_call (use : Scene.Call) : (call use).isRest = false := rfl

@[simp] theorem isRest_emit (report : Event) : (emit report).isRest = false := rfl

/-- Effects without the rests of no time. -/
def lasting (effects : List Effect) : List Effect := effects.filter fun effect => !effect.isVoid

/-- The uses of the scene among effects. -/
def calls (effects : List Effect) : List Scene.Call := effects.filterMap call?

/-- The events among effects. -/
def events (effects : List Effect) : List Event := effects.filterMap event?

@[simp] theorem lasting_append (effects more : List Effect) :
    lasting (effects ++ more) = lasting effects ++ lasting more := List.filter_append effects more

@[simp] theorem calls_append (effects more : List Effect) :
    calls (effects ++ more) = calls effects ++ calls more := List.filterMap_append

@[simp] theorem events_append (effects more : List Effect) :
    events (effects ++ more) = events effects ++ events more := List.filterMap_append

section Cons

variable (use : Scene.Call) (report : Event) (duration : Nat) (effects : List Effect)

@[simp] theorem calls_nil : calls [] = [] := rfl

@[simp] theorem calls_call_cons : calls (.call use :: effects) = use :: calls effects := rfl

@[simp] theorem calls_emit_cons : calls (.emit report :: effects) = calls effects := rfl

@[simp] theorem calls_rest_cons : calls (.rest duration :: effects) = calls effects := rfl

@[simp] theorem events_nil : events [] = [] := rfl

@[simp] theorem events_call_cons : events (.call use :: effects) = events effects := rfl

@[simp] theorem events_emit_cons : events (.emit report :: effects) = report :: events effects :=
  rfl

@[simp] theorem events_rest_cons : events (.rest duration :: effects) = events effects := rfl

end Cons

/-- Effects that are dropped for being rests are no uses of the scene and no events. -/
theorem filterMap_filter_of_rest {α : Type} {keep : Effect → Bool} {view : Effect → Option α}
    (h : ∀ effect, keep effect = false → view effect = none) (effects : List Effect) :
    (effects.filter keep).filterMap view = effects.filterMap view := by
  rw [List.filterMap_filter]
  refine List.filterMap_congr fun effect _ => ?_
  cases hkeep : keep effect with
  | true => exact if_pos rfl
  | false => exact (if_neg Bool.false_ne_true).trans (h effect hkeep).symm

theorem isRest_of_isVoid {effect : Effect} (h : effect.isVoid = true) : effect.isRest = true := by
  cases effect with
  | rest duration => rfl
  | call call => simp [isVoid] at h
  | emit event => simp [isVoid] at h

theorem call?_of_isRest {effect : Effect} (h : effect.isRest = true) : effect.call? = none := by
  cases effect with
  | rest duration => rfl
  | call call => simp [isRest] at h
  | emit event => rfl

theorem event?_of_isRest {effect : Effect} (h : effect.isRest = true) : effect.event? = none := by
  cases effect with
  | rest duration => rfl
  | call call => rfl
  | emit event => simp [isRest] at h

@[simp] theorem calls_lasting (effects : List Effect) : calls (lasting effects) = calls effects :=
  filterMap_filter_of_rest (fun effect h => call?_of_isRest (isRest_of_isVoid (by simpa using h)))
    effects

@[simp] theorem events_lasting (effects : List Effect) :
    events (lasting effects) = events effects :=
  filterMap_filter_of_rest (fun effect h => event?_of_isRest (isRest_of_isVoid (by simpa using h)))
    effects

end Effect

namespace Course

/-- A course with only some of its effects. -/
def only (keep : Effect → Bool) (course : Course σ) : Course σ :=
  { course with effects := course.effects.filter keep }

/-- A course without its rests of no time. -/
def lasting (course : Course σ) : Course σ :=
  { course with effects := Effect.lasting course.effects }

/-- A course without its rests. -/
def deeds (course : Course σ) : Course σ :=
  { course with effects := course.effects.filter fun effect => !effect.isRest }

/-! ### Courses that agree in some of their effects -/

section Only

variable {keep keep' : Effect → Bool}

theorem only_after (earlier : List Effect) (course : Course σ) :
    (course.after earlier).only keep = (course.only keep).after (earlier.filter keep) := by
  simp [only, after]

theorem only_andThen (course : Course σ) (next : σ → Course σ) :
    (course.andThen next).only keep
      = (course.only keep).andThen fun state => (next state).only keep := by
  obtain ⟨effects, succeeded, state⟩ := course
  cases succeeded with
  | true => rfl
  | false => exact only_after effects (next state)

theorem only_andThen_congr {course course' : Course σ} {next next' : σ → Course σ}
    (hcourse : course.only keep = course'.only keep')
    (hnext : ∀ state, (next state).only keep = (next' state).only keep') :
    (course.andThen next).only keep = (course'.andThen next').only keep' := by
  simp only [only_andThen, hcourse, hnext]

theorem only_inTurn_map {ι : Type} {part part' : ι → σ → Course σ}
    (h : ∀ i state, (part i state).only keep = (part' i state).only keep') (indices : List ι)
    (state : σ) :
    (inTurn (indices.map part) state).only keep
      = (inTurn (indices.map part') state).only keep' := by
  induction indices generalizing state with
  | nil => rfl
  | cons i indices ih => exact only_andThen_congr (h i state) ih

end Only

theorem lasting_after (earlier : List Effect) (course : Course σ) :
    (course.after earlier).lasting = course.lasting.after (Effect.lasting earlier) :=
  only_after earlier course

/-! ### Courses that differ in their rests -/

theorem deeds_iteration {rest rest' : Nat} {body body' : σ → Course σ}
    (h : ∀ state, (body state).deeds = (body' state).deeds) (count number : Nat) (state : σ) :
    (iteration rest count body number state).deeds
      = (iteration rest' count body' number state).deeds := by
  have hrest : ∀ state : σ, (⟨[.rest rest], false, state⟩ : Course σ).deeds
      = (⟨[.rest rest'], false, state⟩ : Course σ).deeds := fun _ => rfl
  show (iteration rest count body number state).only _
    = (iteration rest' count body' number state).only _
  rw [iteration, iteration, only_after, only_after, only_andThen_congr (h state) hrest]

theorem calls_deeds (course : Course σ) :
    Effect.calls course.deeds.effects = Effect.calls course.effects :=
  Effect.filterMap_filter_of_rest
    (fun _ hrest => Effect.call?_of_isRest (by simpa using hrest)) course.effects

theorem events_deeds (course : Course σ) :
    Effect.events course.deeds.effects = Effect.events course.effects :=
  Effect.filterMap_filter_of_rest
    (fun _ hrest => Effect.event?_of_isRest (by simpa using hrest)) course.effects

/-- Courses that differ in their rests use the scene in the same way. -/
theorem calls_eq_of_deeds {course course' : Course σ} (h : course.deeds = course'.deeds) :
    Effect.calls course.effects = Effect.calls course'.effects := by
  rw [← calls_deeds course, h, calls_deeds]

/-- Courses that differ in their rests report the same events. -/
theorem events_eq_of_deeds {course course' : Course σ} (h : course.deeds = course'.deeds) :
    Effect.events course.effects = Effect.events course'.effects := by
  rw [← events_deeds course, h, events_deeds]

end Course

mutual

theorem Block.deeds_meaning (scene : Scene σ) (pacing pacing' : Pacing) :
    ∀ (block : Block) (state : σ),
      (block.meaning scene pacing state).deeds = (block.meaning scene pacing' state).deeds
  | .start, _ => rfl
  | .move direction, state => by
    simp [Block.meaning, Course.deeds, Effect.isRest]
  | .eat, state => by
    by_cases h : (scene.distance state).1 < 50
    · rw [Block.meaning_eat_of_lt scene pacing h, Block.meaning_eat_of_lt scene pacing' h]
      rfl
    · rw [Block.meaning_eat_of_not_lt scene pacing h, Block.meaning_eat_of_not_lt scene pacing' h]
  | .loop count body, state =>
    Course.only_inTurn_map
      (Course.deeds_iteration (Block.deeds_meaningAll scene pacing pacing' body) count.val)
      (List.range' 1 count.val) state

theorem Block.deeds_meaningAll (scene : Scene σ) (pacing pacing' : Pacing) :
    ∀ (blocks : List Block) (state : σ),
      (Block.meaningAll scene pacing blocks state).deeds
        = (Block.meaningAll scene pacing' blocks state).deeds
  | [], _ => rfl
  | block :: blocks, state =>
    Course.only_andThen_congr (Block.deeds_meaning scene pacing pacing' block state)
      (Block.deeds_meaningAll scene pacing pacing' blocks)

end

/-! ## Executions -/

/-- The outcome of a run that ends with or without success. -/
def Outcome.ofSuccess (succeeded : Bool) : Outcome := if succeeded then .succeeded else .exhausted

namespace Execution

/-- What an execution does to its end. -/
def meaning (scene : Scene σ) (pacing : Pacing) (execution : Execution) (state : σ) : Course σ :=
  let course := execution.walk.meaning scene pacing state
  let closing : List Effect :=
    if execution.entryPoints = 0 then []
    else [.emit (.finished (.ofSuccess course.succeeded))]
  { course with effects := execution.queue ++ course.effects ++ closing }

end Execution

/-- What is left of an execution that has stopped, the rest it has stopped at included. -/
def Stop.meaning (scene : Scene σ) (pacing : Pacing) (stop : Stop) (state : σ) : Course σ :=
  match stop with
  | .resting duration execution =>
    (execution.meaning scene pacing state).lasting.after [.rest duration]
  | .finished outcome => ⟨[], outcome = .succeeded, state⟩

namespace Execution

variable (scene : Scene σ) (pacing : Pacing)

/-- An execution does the effects in its queue first. -/
theorem meaning_of_queue {execution : Execution} {effect : Effect} {queue : List Effect}
    (hqueue : execution.queue = effect :: queue) (state : σ) :
    execution.meaning scene pacing state
      = (meaning scene pacing { execution with queue } state).after [effect] := by
  simp [meaning, Course.after, hqueue]

/-- A turn of the walk fills the queue and changes nothing in what an execution does. -/
theorem meaning_of_turn {execution : Execution} {walk : Walk} {queue : List Effect}
    {state state' : σ} (hqueue : execution.queue = [])
    (hturn : execution.walk.turn scene pacing state = some (queue, walk, state')) :
    execution.meaning scene pacing state
      = meaning scene pacing { execution with queue, walk } state' := by
  simp [meaning, Course.after, hqueue, Walk.meaning_turn scene pacing hturn]

/-- An execution whose walk is over has its closing left. -/
theorem meaning_of_turn_eq_none {execution : Execution} {state : σ}
    (hqueue : execution.queue = []) (hturn : execution.walk.turn scene pacing state = none) :
    execution.meaning scene pacing state
      = ⟨execution.closing, execution.walk.succeeded, state⟩ := by
  simp [meaning, hqueue, Walk.meaning_of_turn_eq_none scene pacing hturn, closing, Walk.outcome,
    Outcome.ofSuccess]

theorem lasting_closing (execution : Execution) :
    Effect.lasting execution.closing = execution.closing := by
  rw [closing]
  split <;> rfl

/-- **A stop splits an execution.**  What has been done on the way to a stop, and then what is left
there, is what the execution does to its end. -/
theorem meaning_advance {effects effects' : Array Effect} {execution : Execution}
    {state state' : σ} {stop : Stop}
    (h : execution.advance scene pacing effects state = (effects', state', stop)) :
    ∃ done : List Effect, effects' = effects ++ done
      ∧ (execution.meaning scene pacing state).lasting
        = (stop.meaning scene pacing state').after done := by
  fun_induction advance scene pacing effects execution state with
  | case1 effects execution state queue hqueue ih =>
    obtain ⟨done, hdone, hmeaning⟩ := ih h
    refine ⟨done, hdone, ?_⟩
    rw [meaning_of_queue scene pacing hqueue, Course.lasting_after, ← hmeaning]
    rfl
  | case2 effects execution state duration queue hqueue =>
    obtain ⟨rfl, rfl, rfl⟩ := h
    refine ⟨[], by simp, ?_⟩
    rw [meaning_of_queue scene pacing hqueue, Course.lasting_after]
    rfl
  | case3 effects execution state effect queue hrest hrest' hqueue ih =>
    obtain ⟨done, rfl, hmeaning⟩ := ih h
    have hlasting : Effect.lasting [effect] = [effect] := by
      cases effect with
      | call call => rfl
      | emit event => rfl
      | rest duration =>
        cases duration with
        | zero => exact (hrest rfl).elim
        | succ duration => exact (hrest' duration rfl).elim
    refine ⟨effect :: done, Array.ext' (by simp), ?_⟩
    rw [meaning_of_queue scene pacing hqueue, Course.lasting_after, hmeaning, hlasting,
      Course.after_after]
    rfl
  | case4 effects execution state hqueue queue walk state'' hturn ih =>
    obtain ⟨done, hdone, hmeaning⟩ := ih h
    exact ⟨done, hdone, by rw [meaning_of_turn scene pacing hqueue hturn, hmeaning]⟩
  | case5 effects execution state hqueue hturn =>
    obtain ⟨rfl, rfl, rfl⟩ := h
    refine ⟨execution.closing, rfl, ?_⟩
    rw [meaning_of_turn_eq_none scene pacing hqueue hturn]
    cases hsucceeded : execution.walk.succeeded <;>
      simp [Course.lasting, Course.after, Stop.meaning, lasting_closing, Walk.outcome, hsucceeded]

/-- A rest at which an execution has stopped takes time, and the number of entry points stays. -/
theorem advance_resting {effects effects' : Array Effect} {execution execution' : Execution}
    {state state' : σ} {duration : Nat}
    (h : execution.advance scene pacing effects state
      = (effects', state', .resting duration execution')) :
    0 < duration ∧ execution'.entryPoints = execution.entryPoints := by
  fun_induction advance scene pacing effects execution state with
  | case1 effects execution state queue hqueue ih => exact ih h
  | case2 effects execution state duration queue hqueue =>
    obtain ⟨-, -, rfl, rfl⟩ := h
    exact ⟨Nat.succ_pos _, rfl⟩
  | case3 effects execution state effect queue hrest hrest' hqueue ih => exact ih h
  | case4 effects execution state hqueue queue walk state'' hturn ih => exact ih h
  | case5 effects execution state hqueue hturn => simp at h

end Execution

/-! ## Resets -/

namespace Course

/-- Nothing in a course resets the scene. -/
def Resetless (course : Course σ) : Prop := .call .reset ∉ course.effects

theorem Resetless.after {course : Course σ} (h : course.Resetless) {earlier : List Effect}
    (hearlier : .call .reset ∉ earlier) : (course.after earlier).Resetless := by
  rw [Resetless, Course.after, List.mem_append]
  exact fun hmem => hmem.elim hearlier h

theorem Resetless.andThen {course : Course σ} (h : course.Resetless) {next : σ → Course σ}
    (hnext : ∀ state, (next state).Resetless) : (course.andThen next).Resetless := by
  obtain ⟨effects, succeeded, state⟩ := course
  cases succeeded with
  | true => exact h
  | false => exact (hnext state).after h

theorem resetless_inTurn {parts : List (σ → Course σ)}
    (h : ∀ part ∈ parts, ∀ state, (part state).Resetless) (state : σ) :
    (inTurn parts state).Resetless := by
  induction parts generalizing state with
  | nil => simp [inTurn, idle, Resetless]
  | cons part parts ih =>
    exact (h part (by simp) state).andThen (ih fun other hmem => h other (by simp [hmem]))

theorem resetless_iteration {body : σ → Course σ} (h : ∀ state, (body state).Resetless)
    (rest count number : Nat) (state : σ) :
    (iteration rest count body number state).Resetless :=
  ((h state).andThen fun state => by simp [Resetless]).after (by simp)

end Course

mutual

theorem Block.resetless_meaning (scene : Scene σ) (pacing : Pacing) :
    ∀ (block : Block) (state : σ), (block.meaning scene pacing state).Resetless
  | .start, _ => by simp [Block.meaning, Course.idle, Course.Resetless]
  | .move direction, state => by
    simp only [Block.meaning, Course.Resetless]
    split <;> simp
  | .eat, state => by
    by_cases h : (scene.distance state).1 < 50
    · simp [Block.meaning_eat_of_lt scene pacing h, Course.Resetless]
    · simp [Block.meaning_eat_of_not_lt scene pacing h, Course.Resetless]
  | .loop count body, state => by
    refine Course.resetless_inTurn (fun part hpart => ?_) state
    obtain ⟨number, -, rfl⟩ := List.mem_map.1 hpart
    exact Course.resetless_iteration (Block.resetless_meaningAll scene pacing body) _ _ number

theorem Block.resetless_meaningAll (scene : Scene σ) (pacing : Pacing) :
    ∀ (blocks : List Block) (state : σ), (Block.meaningAll scene pacing blocks state).Resetless
  | [], _ => by simp [Block.meaningAll, Course.idle, Course.Resetless]
  | block :: blocks, state =>
    (Block.resetless_meaning scene pacing block state).andThen
      (Block.resetless_meaningAll scene pacing blocks)

end

/-! ## Programs -/

namespace Program

/-- What a program does if nobody disturbs it, from a scene that has been reset. -/
def performance (scene : Scene σ) (pacing : Pacing) (program : Program) (state : σ) : Course σ :=
  (Execution.start program).meaning scene pacing state

/-- The record of a run that nobody disturbs. -/
def result (scene : Scene σ) (pacing : Pacing) (program : Program) (state : σ) : RunResult where
  program := program.name
  events := Effect.events (program.performance scene pacing state).effects
  outcome := .ofSuccess (program.performance scene pacing state).succeeded
  entryPoints := program.entryPoints.length

variable (scene : Scene σ) (pacing pacing' : Pacing) (program : Program) (state : σ)

theorem deeds_meaningAll_sequences (sequences : List (List Block)) (state : σ) :
    (Frame.meaningAll scene pacing (sequences.map Frame.sequence) state).deeds
      = (Frame.meaningAll scene pacing' (sequences.map Frame.sequence) state).deeds := by
  rw [Frame.meaningAll, Frame.meaningAll, List.map_map, List.map_map]
  exact Course.only_inTurn_map (Block.deeds_meaningAll scene pacing pacing') sequences state

/-- **Apart from its rests, a performance does not depend on the pacing.** -/
theorem deeds_performance :
    (program.performance scene pacing state).deeds
      = (program.performance scene pacing' state).deeds := by
  have h := deeds_meaningAll_sequences scene pacing pacing' program.entryPoints state
  simp only [Course.deeds, Course.mk.injEq] at h
  obtain ⟨heffects, hsucceeded, hstate⟩ := h
  simp only [performance, Execution.start, Execution.meaning, Walk.meaning, Course.deeds]
  simp [heffects, hsucceeded, hstate]

/-- What a program does to the scene does not depend on the pacing. -/
theorem calls_eq_calls :
    Effect.calls (program.performance scene pacing state).effects
      = Effect.calls (program.performance scene pacing' state).effects :=
  Course.calls_eq_of_deeds (deeds_performance scene pacing pacing' program state)

/-- The record of an undisturbed run does not depend on the pacing. -/
theorem result_eq_result :
    program.result scene pacing state = program.result scene pacing' state := by
  have h := deeds_performance scene pacing pacing' program state
  have hsucceeded : (program.performance scene pacing state).succeeded
      = (program.performance scene pacing' state).succeeded :=
    congrArg (fun course => course.succeeded) h
  rw [result, result, Course.events_eq_of_deeds h, hsucceeded]

/-- A program does not reset the scene. -/
theorem reset_notMem_calls :
    .reset ∉ Effect.calls (program.performance scene pacing state).effects := by
  have hwalk : (Frame.meaningAll scene pacing (program.entryPoints.map Frame.sequence)
      state).Resetless := by
    refine Course.resetless_inTurn (fun part hpart => ?_) state
    obtain ⟨frame, hframe, rfl⟩ := List.mem_map.1 hpart
    obtain ⟨sequence, -, rfl⟩ := List.mem_map.1 hframe
    exact Block.resetless_meaningAll scene pacing sequence
  have hwhole : (program.performance scene pacing state).Resetless := by
    simp only [performance, Execution.start, Execution.meaning, Walk.meaning, Course.Resetless,
      Bool.false_eq_true, if_false, List.mem_append, not_or]
    refine ⟨⟨by simp, hwalk⟩, ?_⟩
    split <;> simp
  intro hmem
  obtain ⟨effect, heffect, huse⟩ := List.mem_filterMap.1 hmem
  cases effect with
  | call use =>
    obtain rfl : use = .reset := by simpa [Effect.call?] using huse
    exact hwhole heffect
  | emit report => simp [Effect.call?] at huse
  | rest duration => simp [Effect.call?] at huse

end Program

end BlockScript
