import BlockScript.Number.Fixed
import BlockScript.Run.Execution
import BlockScript.Run.Timeline
import BlockScript.Stage
import BlockScript.Tool.Display

/-!
# Showing a run

A run on a stage is shown event by event: whatever the run reports is sent to the live channel, and
the display follows the channel.

## What is here

* `Tool.Showing` — a run with its stage, the channel and the display.
* `Tool.Showing.advance` — the run goes on to its next rest or to its end.
* `Tool.Showing.toEnd` — the run goes on to its end.
* `Tool.summary` — the lines that are shown after a run.
-/

set_option autoImplicit false
namespace BlockScript.Tool

/-- A run that is being shown. -/
structure Showing where
  execution : Execution
  /-- The stage as it is. -/
  stage : StageState Float
  live : Channel
  display : Display

namespace Showing

/-- A run that has done nothing yet, on the stage of a geometry. -/
def start (geometry : Geometry Float) (program : Program) : Showing where
  execution := Execution.start program
  stage := StageState.initial geometry
  live := {}
  display := Display.follow {}

/-- An event is sent, and the display receives it. -/
def send (showing : Showing) (event : Event) : Showing :=
  let live := showing.live.send event
  { showing with live, display := showing.display.receive live }

/-- Where a shown run has stopped. -/
inductive Stop where
  | resting (duration : Nat) (showing : Showing)
  | finished (outcome : Outcome) (showing : Showing)

/-- The run goes on to its next rest or to its end. -/
def advance (geometry : Geometry Float) (pacing : Pacing) (showing : Showing) : Stop :=
  let (effects, stage, stop) :=
    showing.execution.advance geometry.scene pacing #[] showing.stage
  let shown := (effects.toList.filterMap Effect.event?).foldl send { showing with stage }
  match stop with
  | .resting duration execution => .resting duration { shown with execution }
  | .finished outcome => .finished outcome shown

theorem work_advance {geometry : Geometry Float} {pacing : Pacing} {showing showing' : Showing}
    {duration : Nat} (h : showing.advance geometry pacing = .resting duration showing') :
    showing'.execution.work < showing.execution.work := by
  obtain ⟨⟨effects, stage, stop⟩, hadvance⟩ :
      ∃ r, showing.execution.advance geometry.scene pacing #[] showing.stage = r := ⟨_, rfl⟩
  cases stop with
  | finished outcome => simp [advance, hadvance] at h
  | resting duration' execution =>
    simp only [advance, hadvance, Stop.resting.injEq] at h
    obtain ⟨-, rfl⟩ := h
    exact Execution.work_advance hadvance

/-- The run goes on to its end. -/
def toEnd (geometry : Geometry Float) (pacing : Pacing) (showing : Showing) : Outcome × Showing :=
  match _h : showing.advance geometry pacing with
  | .resting _ showing => toEnd geometry pacing showing
  | .finished outcome showing => (outcome, showing)
termination_by showing.execution.work
decreasing_by exact work_advance (by assumption)

end Showing

/-- The word for an outcome in a summary. -/
def outcomeWord : Outcome → String
  | .succeeded => "Succeeded"
  | .exhausted => "Exhausted"

/-- The lines that are shown after a run. -/
def summary (outcome : Outcome) (stage : StageState Float) : List String :=
  ["",
    "Outcome: " ++ outcomeWord outcome,
    "Cat position: (" ++ Number.fixed 1 stage.actor.x ++ ", " ++ Number.fixed 1 stage.actor.y
      ++ ")",
    "Distance to food: " ++ Number.fixed 1 stage.distance]

end BlockScript.Tool
