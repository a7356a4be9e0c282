import BlockScript.Proofs.Run.Undisturbed

/-!
# What a run does to its controller

A run that goes on uses the scene, logs events, and either comes to rest again or ends.  This file
says once what that does to the controller, so that nothing else has to look into it.

## What is here

* `Controller.noted` — a controller after some effects of a run; `Controller.foldl_note` says that
  the effects that a run makes known one by one amount to that.
* `Controller.proceed_cases` — a run that holds the scene comes to rest, or it ends.
* `Controller.resume_cases` — a run that is told to go on does so, or nothing happens.
-/

set_option autoImplicit false
namespace BlockScript

variable {σ : Type}

namespace Controller

/-- A controller after some effects of a run, which have left the scene in a state. -/
def noted (now : Nat) (controller : Controller σ) (effects : List Effect) (state : σ) :
    Controller σ :=
  { controller with
    scene := state
    log := controller.log.pushAll (Effect.events effects)
    calls := controller.calls ++ (Effect.calls effects).map (now, ·) }

/-- Effects that are made known one by one are logged and recorded in order. -/
theorem foldl_note (now : Nat) (controller : Controller σ) (effects : List Effect) :
    effects.foldl (note now) controller = controller.noted now effects controller.scene := by
  induction effects generalizing controller with
  | nil => simp [noted, EventLog.pushAll]
  | cons effect effects ih =>
    rw [List.foldl_cons, ih]
    cases effect with
    | call use => simp [note, noted]
    | emit report => simp [note, noted, EventLog.pushAll]
    | rest duration => simp [note, noted]

/-- So it is with the effects of an execution, which leave the scene in another state. -/
theorem foldl_note_array (now : Nat) (controller : Controller σ) (effects : Array Effect)
    (state : σ) : effects.foldl (note now) { controller with scene := state }
      = controller.noted now effects.toList state := by
  rw [← Array.foldl_toList, foldl_note]
  rfl

/-- The record of a run that has ended after some effects. -/
def concluded (controller : Controller σ) (program : Program) (execution : Execution)
    (course : Course σ) : RunResult where
  program := program.name
  events := controller.log.snapshot ++ Effect.events course.effects
  outcome := .ofSuccess course.succeeded
  entryPoints := execution.entryPoints

variable (scene : Scene σ) (now : Nat)

/-- **A run that holds the scene comes to rest, or it ends.**  In the first case it has done a part
of what it does to its end, and the rest is left; in the second case it has done all of it, its
result is kept, and the scene and the right to run are given back. -/
theorem proceed_cases (controller : Controller σ) (program : Program) (execution : Execution) :
    (∃ (done : List Effect) (duration : Nat) (execution' : Execution) (state : σ),
      0 < duration ∧ execution'.entryPoints = execution.entryPoints
      ∧ (execution.meaning scene controller.pacing controller.scene).lasting
        = (execution'.meaning scene controller.pacing state).lasting.after
            (done ++ [.rest duration])
      ∧ controller.proceed scene now program execution
        = (controller.noted now done state, .resting program execution' (now + duration)))
    ∨ (∃ (course : Course σ) (result : RunResult),
      (execution.meaning scene controller.pacing controller.scene).lasting = course
      ∧ result = controller.concluded program execution course
      ∧ controller.proceed scene now program execution
        = ({ controller.noted now course.effects course.state with
              holder := none
              running := false
              lastResult := some result }, .answered (some result))) := by
  obtain ⟨⟨effects, state, stop⟩, hadvance⟩ :
      ∃ r, execution.advance scene controller.pacing #[] controller.scene = r := ⟨_, rfl⟩
  obtain ⟨done, hdone, hmeaning⟩ := Execution.meaning_advance scene controller.pacing hadvance
  have hfold : effects.foldl (note now) { controller with scene := state }
      = controller.noted now done state := by
    rw [hdone, ← Array.foldl_toList, Array.toList_appendList, List.nil_append, foldl_note]
    rfl
  cases stop with
  | resting duration execution' =>
    obtain ⟨hduration, hentries⟩ := Execution.advance_resting scene controller.pacing hadvance
    refine .inl ⟨done, duration, execution', state, hduration, hentries, ?_, ?_⟩
    · rw [hmeaning, Stop.meaning, Course.after_after]
    · simp only [proceed, hadvance, hfold]
  | finished outcome =>
    have houtcome : Outcome.ofSuccess (decide (outcome = .succeeded)) = outcome := by
      cases outcome <;> rfl
    refine .inr ⟨_, _, rfl, rfl, ?_⟩
    rw [hmeaning]
    simp only [proceed, hadvance, hfold]
    simp [concluded, noted, Stop.meaning, Course.after, houtcome]

/-- A run that is told to go on does so if it waits for a scene that is free, or if its rest is
over; otherwise nothing happens. -/
theorem resume_cases (controller : Controller σ) (task : Task) :
    (controller.resume scene now task = (controller, task)
      ∧ ∀ program, task = .waiting program → controller.holder ≠ none)
    ∨ (∃ program, task = .waiting program ∧ controller.holder = none
      ∧ controller.resume scene now task
        = (controller.acquire scene now).proceed scene now program (Execution.start program))
    ∨ (∃ program execution wake, task = .resting program execution wake
      ∧ controller.resume scene now task = controller.proceed scene now program execution) := by
  cases task with
  | waiting program =>
    cases hholder : controller.holder with
    | none => exact .inr (.inl ⟨program, rfl, rfl, by simp [resume, hholder]⟩)
    | some holder => exact .inl ⟨by simp [resume, hholder], by simp⟩
  | resting program execution wake =>
    by_cases hwake : wake ≤ now
    · exact .inr (.inr ⟨program, execution, wake, rfl, by simp [resume, hwake]⟩)
    · exact .inl ⟨by simp [resume, hwake], by simp⟩
  | answered result => exact .inl ⟨rfl, by simp⟩
  | cancelled => exact .inl ⟨rfl, by simp⟩

end Controller

end BlockScript
