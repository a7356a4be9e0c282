import BlockScript.Proofs.Program.EntryPoints
import BlockScript.Proofs.Run.Composition
import BlockScript.Proofs.Run.Suspension
import BlockScript.Stage

/-!
# Four accounts of a run

A run leaves four things behind: its outcome, its events, the number of its entry points, and the
stage.  They are kept by different functions, and none is computed from another.  This file says
that they tell the same.

## What is here

* `StageState.Hungry` and `Course.ToldByStage` — the stage tells whether the target has been eaten;
  `Block.toldByStage_meaning` says so of blocks and `Program.toldByStage_performance` of programs
  that start from a stage on which nothing has been eaten.
* `Act.Lead.events_cases` — the events of a run tell it too, with their last one.
* `RunResult.Agrees` — what the accounts have to do with each other.
* `Program.agrees_result` — **the accounts of a run agree** if nobody disturbs it.
-/

set_option autoImplicit false
namespace BlockScript

/-! ## The stage -/

/-- Nothing has been eaten on a stage. -/
def StageState.Hungry {α : Type} (state : StageState α) : Prop :=
  state.consumed = false ∧ state.mood = .hungry

/-- The target has been eaten on a stage. -/
def StageState.Satisfied {α : Type} (state : StageState α) : Prop :=
  state.consumed = true ∧ state.mood = .satisfied

/-- The stage that is left tells whether the target has been eaten. -/
def Course.ToldByStage (course : Course (StageState Float)) : Prop :=
  if course.succeeded then course.state.Satisfied else course.state.Hungry

namespace Course

variable {course : Course (StageState Float)}

theorem ToldByStage.after (h : course.ToldByStage) (earlier : List Effect) :
    (course.after earlier).ToldByStage := h

theorem toldByStage_idle {state : StageState Float} (h : state.Hungry) :
    (idle state).ToldByStage := h

theorem ToldByStage.andThen (h : course.ToldByStage)
    {next : StageState Float → Course (StageState Float)}
    (hnext : ∀ state, state.Hungry → (next state).ToldByStage) :
    (course.andThen next).ToldByStage := by
  obtain ⟨effects, succeeded, state⟩ := course
  cases succeeded with
  | true => exact h
  | false => exact (hnext state h).after effects

theorem toldByStage_inTurn {parts : List (StageState Float → Course (StageState Float))}
    (h : ∀ part ∈ parts, ∀ state : StageState Float, state.Hungry → (part state).ToldByStage)
    {state : StageState Float} (hstate : state.Hungry) : (inTurn parts state).ToldByStage := by
  induction parts generalizing state with
  | nil => exact toldByStage_idle hstate
  | cons part parts ih =>
    exact (h part List.mem_cons_self state hstate).andThen fun state =>
      ih fun other hmem => h other (List.mem_cons_of_mem part hmem)

theorem toldByStage_iteration {body : StageState Float → Course (StageState Float)}
    (h : ∀ state : StageState Float, state.Hungry → (body state).ToldByStage)
    (rest count number : Nat) {state : StageState Float} (hstate : state.Hungry) :
    (iteration rest count body number state).ToldByStage := by
  refine ToldByStage.after ((h state hstate).andThen ?_) _
  rintro state hafter
  exact hafter

end Course

theorem StageState.Hungry.move {state : StageState Float} (h : state.Hungry)
    (geometry : Geometry Float) (direction : Direction) :
    (state.move geometry direction).Hungry := by
  cases direction <;> exact h

theorem StageState.Hungry.consume {state : StageState Float} (h : state.Hungry) :
    state.consume.Satisfied := by
  rw [StageState.consume, h.1]
  exact ⟨rfl, rfl⟩

section Blocks

variable (geometry : Geometry Float) (pacing : Pacing)

mutual

/-- What a block does to a stage on which nothing has been eaten. -/
theorem Block.toldByStage_meaning (block : Block) {state : StageState Float}
    (h : state.Hungry) : (block.meaning geometry.scene pacing state).ToldByStage := by
  match block with
  | .start => exact Course.toldByStage_idle h
  | .move direction => exact h.move geometry direction
  | .eat =>
    by_cases hreach : (geometry.scene.distance state).1 < 50
    · rw [Block.meaning_eat_of_lt geometry.scene pacing hreach]
      exact h.consume
    · rw [Block.meaning_eat_of_not_lt geometry.scene pacing hreach]
      exact h
  | .loop count body =>
    refine Course.toldByStage_inTurn ?_ h
    rintro part hpart state hstate
    obtain ⟨number, -, rfl⟩ := List.mem_map.1 hpart
    exact Course.toldByStage_iteration (fun _ => Block.toldByStage_meaningAll body) _ _ number
      hstate

theorem Block.toldByStage_meaningAll (blocks : List Block) {state : StageState Float}
    (h : state.Hungry) : (Block.meaningAll geometry.scene pacing blocks state).ToldByStage := by
  match blocks with
  | [] => exact Course.toldByStage_idle h
  | block :: blocks =>
    exact (Block.toldByStage_meaning block h).andThen fun state =>
      Block.toldByStage_meaningAll blocks

end

/-- The entry points of a program that starts from a stage on which nothing has been eaten. -/
theorem Program.toldByStage_course (program : Program) {state : StageState Float}
    (h : state.Hungry) : (program.course geometry.scene pacing state).ToldByStage := by
  refine Course.toldByStage_inTurn ?_ h
  rintro part hpart state hstate
  obtain ⟨blocks, -, rfl⟩ := List.mem_map.1 hpart
  exact Block.toldByStage_meaningAll geometry pacing blocks hstate

/-- **The stage tells the success of a run**, if nothing has been eaten on it before. -/
theorem Program.toldByStage_performance (program : Program) {state : StageState Float}
    (h : state.Hungry) : (program.performance geometry.scene pacing state).ToldByStage := by
  rw [performance_eq]
  split
  · exact h
  · exact toldByStage_course geometry pacing program h

end Blocks

theorem Course.ToldByStage.succeeded_iff {course : Course (StageState Float)}
    (h : course.ToldByStage) : course.succeeded = true ↔ course.state.Satisfied := by
  obtain ⟨effects, succeeded, state⟩ := course
  cases succeeded with
  | true => exact ⟨fun _ => h, fun _ => rfl⟩
  | false =>
    refine ⟨nofun, fun hsatisfied => ?_⟩
    have hconsumed : state.consumed = false := h.1
    rw [hsatisfied.1] at hconsumed
    cases hconsumed

/-! ## The events -/

/-- The last event of acts tells whether the target has been eaten, and no other does. -/
theorem Act.Lead.events_cases {acts : List Act} {succeeded : Bool} (h : Lead acts succeeded) :
    (succeeded = false ∧ .targetEaten ∉ acts.flatMap events)
      ∨ (succeeded = true ∧ ∃ before, acts.flatMap events = before ++ [.targetEaten]
          ∧ .targetEaten ∉ before) := by
  have hungry {acts : List Act} (h : ∀ act ∈ acts, act.eats = false) :
      .targetEaten ∉ acts.flatMap events := by
    rintro hmem
    obtain ⟨act, hact, hevent⟩ := List.mem_flatMap.1 hmem
    rw [targetEaten_mem_events_iff, h act hact] at hevent
    cases hevent
  cases h with
  | hungry h => exact .inl ⟨rfl, hungry h⟩
  | @eaten acts answer h hreach =>
    refine .inr ⟨rfl, acts.flatMap events, ?_, hungry h⟩
    rw [List.flatMap_append]
    simp [events, hreach]

section Performance

variable {σ : Type} (scene : Scene σ) (pacing : Pacing) (program : Program) (state : σ)

/-- What the entry points of a program do are whole acts, and they lead to its success or to
none. -/
theorem Program.acts_course :
    ∃ acts : List Act,
      (program.course scene pacing state).effects = acts.flatMap (Act.effects pacing)
        ∧ Act.Lead acts (program.course scene pacing state).succeeded := by
  obtain ⟨acts, heffects, hlead⟩ :=
    Rehearsal.acts_performAll scene pacing (rfl : ({ state } : Rehearsal σ).succeeded = false)
      program.entryPoints
  rw [Rehearsal.effects, Rehearsal.performAll_eq, Effect.map_snd_timeline] at heffects
  rw [Rehearsal.performAll_eq] at hlead
  exact ⟨acts, heffects, hlead⟩

/-- What the entry points report happens on the way, and it tells whether they succeed. -/
theorem Program.events_course :
    (∀ event ∈ Effect.events (program.course scene pacing state).effects,
        event.isIncidental = true)
      ∧ (((program.course scene pacing state).succeeded = false
            ∧ .targetEaten ∉ Effect.events (program.course scene pacing state).effects)
        ∨ ((program.course scene pacing state).succeeded = true
            ∧ ∃ before, Effect.events (program.course scene pacing state).effects
                = before ++ [.targetEaten] ∧ .targetEaten ∉ before)) := by
  obtain ⟨acts, heffects, hlead⟩ := program.acts_course scene pacing state
  rw [heffects, Act.events_flatMap]
  refine ⟨?_, hlead.events_cases⟩
  rintro event hevent
  obtain ⟨act, -, hmem⟩ := List.mem_flatMap.1 hevent
  exact Act.isIncidental_of_mem_events hmem

end Performance

/-! ## The accounts -/

/-- What the accounts of a run of a program have to do with each other: its result, what it has used
of the scene, and the stage that it leaves. -/
structure RunResult.Agrees (geometry : Geometry Float) (program : Program) (result : RunResult)
    (uses : List Scene.Call) (stage : StageState Float) : Prop where
  /-- The entry points are the start blocks of the program, those in loops included. -/
  entryPoints : result.entryPoints
    = (Block.preorderAll 0 program.blocks).countP fun entry => entry.2.isStart
  /-- That there are none is reported, and nothing else then. -/
  missing : result.entryPoints = 0 ↔ result.events = [.missingEntryPoint]
  /-- The scene is then as the reset has left it. -/
  untouched : result.entryPoints = 0 →
    uses = [.reset] ∧ stage = StageState.initial geometry ∧ result.outcome = .exhausted
  /-- Otherwise the start comes first and the end comes last, with the outcome, and nowhere else. -/
  framed : result.entryPoints ≠ 0 →
    ∃ between, result.events = .started :: (between ++ [.finished result.outcome])
      ∧ .started ∉ between ∧ ∀ outcome, .finished outcome ∉ between
  /-- The run succeeds if it reports that the target has been eaten. -/
  succeeded_iff_eaten : result.outcome = .succeeded ↔ .targetEaten ∈ result.events
  /-- It reports so once, right before the end. -/
  eaten_once : .targetEaten ∈ result.events →
    ∃ before, result.events = before ++ [.targetEaten, .finished result.outcome]
      ∧ .targetEaten ∉ before
  /-- And it succeeds if the target has gone from the stage and the actor is satisfied. -/
  succeeded_iff_stage : result.outcome = .succeeded ↔ stage.Satisfied

theorem StageState.hungry_initial (geometry : Geometry Float) :
    (StageState.initial geometry).Hungry := ⟨rfl, rfl⟩

theorem Outcome.ofSuccess_eq_succeeded_iff {succeeded : Bool} :
    ofSuccess succeeded = .succeeded ↔ succeeded = true := by
  cases succeeded <;> simp [ofSuccess]

namespace Program

variable (geometry : Geometry Float) (pacing : Pacing) (program : Program)

theorem length_entryPoints_eq_countP : program.entryPoints.length
    = (Block.preorderAll 0 program.blocks).countP fun entry => entry.2.isStart := by
  rw [entryPoints_eq, List.length_map, Block.length_startsFrom 0 0]

/-- The accounts of a program without entry points. -/
theorem agrees_result_of_entryPoints_eq_nil (h : program.entryPoints = []) :
    (program.result geometry.scene pacing (StageState.initial geometry)).Agrees geometry program
      (.reset :: Effect.calls
        (program.performance geometry.scene pacing (StageState.initial geometry)).effects)
      (program.performance geometry.scene pacing (StageState.initial geometry)).state := by
  have hperformance := program.performance_eq geometry.scene pacing (StageState.initial geometry)
  rw [if_pos h] at hperformance
  have hresult : program.result geometry.scene pacing (StageState.initial geometry)
      = { program := program.name, events := [.missingEntryPoint], outcome := .exhausted
          entryPoints := 0 } := by
    rw [result, hperformance, h]
    rfl
  rw [hresult, hperformance]
  exact {
    entryPoints := by rw [← length_entryPoints_eq_countP, h]; rfl
    missing := ⟨fun _ => rfl, fun _ => rfl⟩
    untouched := fun _ => ⟨rfl, rfl, rfl⟩
    framed := fun hsome => absurd rfl hsome
    succeeded_iff_eaten := by simp
    eaten_once := by simp
    succeeded_iff_stage := by simp [StageState.Satisfied, StageState.initial] }

/-- What is left behind by a program with entry points is what these leave behind, with the start
before it and the end after it. -/
theorem result_of_entryPoints_ne_nil (h : program.entryPoints ≠ []) {effects : List Effect}
    {succeeded : Bool} {stage : StageState Float}
    (hcourse : program.course geometry.scene pacing (StageState.initial geometry)
      = ⟨effects, succeeded, stage⟩) :
    (program.result geometry.scene pacing (StageState.initial geometry)).events
        = .started :: (Effect.events effects ++ [.finished (.ofSuccess succeeded)])
      ∧ (program.result geometry.scene pacing (StageState.initial geometry)).outcome
        = .ofSuccess succeeded
      ∧ (program.performance geometry.scene pacing (StageState.initial geometry)).state
        = stage := by
  have hperformance := program.performance_eq geometry.scene pacing (StageState.initial geometry)
  rw [if_neg h, hcourse] at hperformance
  rw [result, hperformance]
  exact ⟨by simp, rfl, rfl⟩

/-- The accounts of a program with entry points. -/
theorem agrees_result_of_entryPoints_ne_nil (h : program.entryPoints ≠ []) :
    (program.result geometry.scene pacing (StageState.initial geometry)).Agrees geometry program
      (.reset :: Effect.calls
        (program.performance geometry.scene pacing (StageState.initial geometry)).effects)
      (program.performance geometry.scene pacing (StageState.initial geometry)).state := by
  have hsatisfied := (toldByStage_course geometry pacing program
    (StageState.hungry_initial geometry)).succeeded_iff
  obtain ⟨hincidental, htold⟩ :=
    program.events_course geometry.scene pacing (StageState.initial geometry)
  obtain ⟨⟨effects, succeeded, stage⟩, hcourse⟩ :
      ∃ course, program.course geometry.scene pacing (StageState.initial geometry) = course :=
    ⟨_, rfl⟩
  rw [hcourse] at hsatisfied hincidental htold
  obtain ⟨hevents, houtcome, hstage⟩ :=
    result_of_entryPoints_ne_nil geometry pacing program h hcourse
  have hlength : program.entryPoints.length ≠ 0 := by simpa using h
  -- The start and the end do not count, so the entry points alone tell whether anything was eaten.
  have heaten : .targetEaten ∈ (program.result geometry.scene pacing
      (StageState.initial geometry)).events ↔ succeeded = true := by
    rw [hevents]
    rcases htold with ⟨rfl, hnone⟩ | ⟨rfl, before, hbefore, -⟩
    · simpa using hnone
    · simp [hbefore]
  constructor
  case entryPoints => exact program.length_entryPoints_eq_countP
  case missing =>
    refine ⟨fun hzero => absurd hzero hlength, fun hmissing => ?_⟩
    rw [hevents] at hmissing
    simp at hmissing
  case untouched => exact fun hzero => absurd hzero hlength
  case framed =>
    refine fun _ => ⟨Effect.events effects, by rw [houtcome, hevents], ?_, ?_⟩
    · exact fun hmem => absurd (hincidental _ hmem) (by simp [Event.isIncidental])
    · exact fun outcome hmem => absurd (hincidental _ hmem) (by simp [Event.isIncidental])
  case succeeded_iff_eaten => rw [houtcome, Outcome.ofSuccess_eq_succeeded_iff, heaten]
  case eaten_once =>
    rintro hmem
    rcases htold with ⟨rfl, -⟩ | ⟨rfl, before, hbefore, hnone⟩
    · exact absurd (heaten.1 hmem) Bool.false_ne_true
    · refine ⟨.started :: before, ?_, by simpa using hnone⟩
      rw [houtcome, hevents, hbefore]
      simp
  case succeeded_iff_stage =>
    rw [houtcome, Outcome.ofSuccess_eq_succeeded_iff, hstage, hsatisfied]

/-- **The accounts of a run agree** if nobody disturbs it. -/
theorem agrees_result :
    (program.result geometry.scene pacing (StageState.initial geometry)).Agrees geometry program
      (.reset :: Effect.calls
        (program.performance geometry.scene pacing (StageState.initial geometry)).effects)
      (program.performance geometry.scene pacing (StageState.initial geometry)).state := by
  by_cases h : program.entryPoints = []
  · exact agrees_result_of_entryPoints_eq_nil geometry pacing program h
  · exact agrees_result_of_entryPoints_ne_nil geometry pacing program h

end Program
end BlockScript
