import BlockScript.Program
import BlockScript.Run.Walk

/-!
# Executing a program

A program is run by walking through its entry points one after another, until the target has been
eaten. An execution can stop at every rest and be taken up again later.

## What is here

* `Execution` — what is left of a run; `Execution.start` is a run that has done nothing yet.
* `Execution.advance` — goes on to the next rest or to the end; `Execution.work_advance` says that
  this leaves less to do.
-/

set_option autoImplicit false
namespace BlockScript

/-- What is left of a run. -/
structure Execution where
  /-- The number of entry points of the program. -/
  entryPoints : Nat
  /-- Effects of the last turn that are still to come. -/
  queue : List Effect
  walk : Walk

/-- Where an execution has stopped. -/
inductive Stop where
  /-- At a rest of some milliseconds, with this left to do after it. -/
  | resting (duration : Nat) (execution : Execution)
  /-- At its end. -/
  | finished (outcome : Outcome)

namespace Execution

variable {σ : Type}

/-- A run that has done nothing yet. Its sequences are run one after another; without any, all it
does is to report that. -/
def start (program : Program) : Execution :=
  let sequences := program.entryPoints
  { entryPoints := sequences.length
    queue := [.emit (if sequences.isEmpty then .missingEntryPoint else .started)]
    walk := { frames := sequences.map Frame.sequence } }

/-- A measure of what is left to do. -/
def work (execution : Execution) : Nat := 5 * execution.walk.work + execution.queue.length

/-- What a run reports at its end, unless there was nothing to run. -/
def closing (execution : Execution) : List Effect :=
  if execution.entryPoints = 0 then [] else [.emit (.finished execution.walk.outcome)]

/-- Goes on to the next rest or to the end. Gives the effects up to there after those so far, the
state of the scene, and where the execution has stopped. -/
def advance (scene : Scene σ) (pacing : Pacing) (effects : Array Effect) (execution : Execution)
    (state : σ) : Array Effect × σ × Stop :=
  match _hqueue : execution.queue with
  | .rest 0 :: queue => advance scene pacing effects { execution with queue } state
  | .rest (duration + 1) :: queue =>
    (effects, state, .resting (duration + 1) { execution with queue })
  | effect :: queue => advance scene pacing (effects.push effect) { execution with queue } state
  | [] =>
    match _hturn : execution.walk.turn scene pacing state with
    | some (queue, walk, state) =>
      advance scene pacing effects { execution with queue, walk } state
    | none => (effects ++ execution.closing, state, .finished execution.walk.outcome)
termination_by execution.work
decreasing_by
  · simp only [work, _hqueue, List.length_cons]; omega
  · simp only [work, _hqueue, List.length_cons]; omega
  · have := Walk.work_turn _hturn
    have := Walk.length_turn _hturn
    simp only [work]
    omega

/-- An execution that has stopped at a rest has less left to do. -/
theorem work_advance {scene : Scene σ} {pacing : Pacing} {effects effects' : Array Effect}
    {execution execution' : Execution} {state state' : σ} {duration : Nat}
    (h : advance scene pacing effects execution state
      = (effects', state', .resting duration execution')) :
    execution'.work < execution.work := by
  fun_induction advance scene pacing effects execution state with
  | case1 effects execution state queue hqueue ih =>
    have := ih h
    simp only [work, hqueue, List.length_cons] at this ⊢
    omega
  | case2 effects execution state duration' queue hqueue =>
    simp only [Prod.mk.injEq, Stop.resting.injEq] at h
    obtain ⟨-, -, -, rfl⟩ := h
    simp only [work, hqueue, List.length_cons]
    omega
  | case3 effects execution state effect queue hrest hrest' hqueue ih =>
    have := ih h
    simp only [work, hqueue, List.length_cons] at this ⊢
    omega
  | case4 effects execution state hqueue queue walk state'' hturn ih =>
    have := ih h
    have := Walk.work_turn hturn
    have := Walk.length_turn hturn
    simp only [work] at *
    omega
  | case5 effects execution state hqueue hturn =>
    simp at h

end Execution
end BlockScript
