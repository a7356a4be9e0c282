import BlockScript.EventLog
import BlockScript.Run.Execution

/-!
# The controller

The controller holds a scene, the current program and the event log, and runs the program on
request. One run is admitted at a time; a request that comes while a run is in flight is rejected
and changes nothing. An admitted run keeps the program it was admitted with. It waits until it gets
the scene, resets it, clears the log, and holds the scene until it ends or is aborted.

## What is here

* `RunResult` — the record of a completed run.
* `Task` — how far a requested run has come.
* `Controller` — everything that runs share.
* `Controller.request` — a new run is admitted or rejected.
* `Controller.resume` — a run goes on as far as it can at the present time;
  `Controller.work_resume_le` and `Controller.work_resume_lt` say that less is left to do.
* `Controller.abort` — a run is given up where it is.
-/

set_option autoImplicit false
namespace BlockScript

/-- The record of a completed run. -/
structure RunResult where
  /-- The name of the program. -/
  program : String
  /-- All events of the run in order. -/
  events : List Event
  outcome : Outcome
  /-- The number of entry points; without any, the run was given up at once. -/
  entryPoints : Nat
  deriving DecidableEq

namespace RunResult

/-- Whether the target was eaten. -/
def succeeded (result : RunResult) : Bool := result.outcome = .succeeded

/-- Whether there was nothing to run. -/
def aborted (result : RunResult) : Bool := result.entryPoints = 0

end RunResult

/-- How far a requested run has come. -/
inductive Task where
  /-- Admitted, and waiting for the scene. -/
  | waiting (program : Program)
  /-- At a rest that ends at the given time, holding the scene. -/
  | resting (program : Program) (execution : Execution) (wake : Nat)
  /-- Completed, or rejected if there is no result. -/
  | answered (result : Option RunResult)
  /-- Aborted before it was completed. -/
  | cancelled

namespace Task

/-- Whether a run has been admitted and has neither been completed nor aborted. -/
def inFlight : Task → Bool
  | .waiting _ => true
  | .resting .. => true
  | _ => false

/-- When a resting run goes on. -/
def wake? : Task → Option Nat
  | .resting _ _ wake => some wake
  | _ => none

/-- A measure of what is left to do. -/
def work : Task → Nat
  | .waiting program => (Execution.start program).work + 2
  | .resting _ execution _ => execution.work + 1
  | _ => 0

end Task

/-- Who has the scene. -/
inductive Holder where
  /-- A run. -/
  | run
  /-- Somebody who looks at the scene from outside. -/
  | visitor
  deriving DecidableEq, Repr

/-- What runs share. -/
structure Controller (σ : Type) where
  pacing : Pacing
  /-- The program that the next run gets. -/
  program : Program
  /-- The state of the scene. -/
  scene : σ
  /-- Who has the scene, if it is not free. -/
  holder : Option Holder := none
  /-- Whether a run is in flight. -/
  running : Bool := false
  log : EventLog := {}
  /-- The result of the run that was completed last. -/
  lastResult : Option RunResult := none
  /-- The uses that runs have made of the scene, with their times. -/
  calls : Array (Nat × Scene.Call) := #[]

namespace Controller

variable {σ : Type}

/-- Admits or rejects a new run. -/
def request (controller : Controller σ) : Controller σ × Task :=
  if controller.running then (controller, .answered none)
  else ({ controller with running := true }, .waiting controller.program)

/-- Makes an effect known: events are logged, uses of the scene are recorded. -/
def note (now : Nat) (controller : Controller σ) : Effect → Controller σ
  | .call call => { controller with calls := controller.calls.push (now, call) }
  | .emit event => { controller with log := controller.log.push event }
  | .rest _ => controller

/-- Takes an execution of a program, which holds the scene, to its next rest or to its end. At its
end the result is kept, and the scene and the right to run are given back. -/
def proceed (scene : Scene σ) (now : Nat) (controller : Controller σ) (program : Program)
    (execution : Execution) : Controller σ × Task :=
  let (effects, state, stop) :=
    execution.advance scene controller.pacing #[] controller.scene
  let controller := effects.foldl (note now) { controller with scene := state }
  match stop with
  | .resting duration execution => (controller, .resting program execution (now + duration))
  | .finished outcome =>
    let result : RunResult :=
      { program := program.name
        events := controller.log.snapshot
        outcome
        entryPoints := execution.entryPoints }
    ({ controller with holder := none, running := false, lastResult := some result },
      .answered (some result))

/-- A run that gets the scene takes it, resets it and clears the log. -/
def acquire (scene : Scene σ) (now : Nat) (controller : Controller σ) : Controller σ :=
  { controller with
    holder := some .run
    scene := scene.reset controller.scene
    log := controller.log.clear
    calls := controller.calls.push (now, .reset) }

/-- Lets a run go on as far as it can at the present time. -/
def resume (scene : Scene σ) (now : Nat) (controller : Controller σ) (task : Task) :
    Controller σ × Task :=
  match task with
  | .waiting program =>
    if controller.holder.isNone then
      (controller.acquire scene now).proceed scene now program (Execution.start program)
    else (controller, task)
  | .resting program execution wake =>
    if wake ≤ now then controller.proceed scene now program execution else (controller, task)
  | task => (controller, task)

/-- Gives a run up where it is. The scene and the log stay as they are; the scene is free if the
run held it. A run that is no longer in flight is not touched. -/
def abort (controller : Controller σ) (task : Task) : Controller σ × Task :=
  match task with
  | .waiting _ => ({ controller with running := false }, .cancelled)
  | .resting .. => ({ controller with running := false, holder := none }, .cancelled)
  | task => (controller, task)

/-! ## The work that is left -/

theorem work_proceed (scene : Scene σ) (now : Nat) (controller : Controller σ)
    (program : Program) (execution : Execution) :
    (controller.proceed scene now program execution).2.work < execution.work + 1 := by
  obtain ⟨⟨effects, state, stop⟩, hadvance⟩ :
      ∃ r, execution.advance scene controller.pacing #[] controller.scene = r := ⟨_, rfl⟩
  cases stop with
  | finished outcome => simp [proceed, hadvance, Task.work]
  | resting duration execution' =>
    have := Execution.work_advance hadvance
    simp only [proceed, Task.work, hadvance]
    omega

/-- A run that goes on never has more left to do. -/
theorem work_resume_le (scene : Scene σ) (now : Nat) (controller : Controller σ) (task : Task) :
    (controller.resume scene now task).2.work ≤ task.work := by
  cases task with
  | waiting program =>
    simp only [resume]
    split
    · have := work_proceed scene now (controller.acquire scene now) program
        (Execution.start program)
      simp only [Task.work] at this ⊢
      omega
    · exact Nat.le_refl _
  | resting program execution wake =>
    simp only [resume]
    split
    · have := work_proceed scene now controller program execution
      simp only [Task.work] at this ⊢
      omega
    · exact Nat.le_refl _
  | answered result => exact Nat.le_refl _
  | cancelled => exact Nat.le_refl _

/-- A run whose rest is over has less left to do when it goes on. -/
theorem work_resume_lt (scene : Scene σ) (now : Nat) (controller : Controller σ) {task : Task}
    {wake : Nat} (h : task.wake? = some wake) (hnow : wake ≤ now) :
    (controller.resume scene now task).2.work < task.work := by
  cases task with
  | resting program execution wake' =>
    simp only [Task.wake?, Option.some.injEq] at h
    subst h
    simp only [resume, hnow, if_true]
    exact work_proceed scene now controller program execution
  | waiting program => simp [Task.wake?] at h
  | answered result => simp [Task.wake?] at h
  | cancelled => simp [Task.wake?] at h

end Controller
end BlockScript
