import BlockScript.Scene
import BlockScript.Stage.Geometry

/-!
# Stages

A stage is the built-in scene: a rectangle with one actor and one target.

## What is here

* `Mood` and `StageState` — what can be seen on a stage.
* `StageState.initial` — the stage as its geometry lays it out.
* `StageState.move` and `StageState.consume` — a step of the actor, held back at the margins, and
  the disappearance of the target.
* `Geometry.scene` — the stage of a geometry as a scene.
-/

set_option autoImplicit false
namespace BlockScript

/-- How the actor looks. -/
inductive Mood where
  | hungry
  | satisfied
  deriving DecidableEq, Repr, Inhabited

/-- What can be seen on a stage. -/
structure StageState (α : Type) where
  actor : Point α
  target : Point α
  /-- Whether the target has been eaten and is hidden. -/
  consumed : Bool
  mood : Mood
  deriving DecidableEq, Repr, Inhabited

/-- A coordinate held back at a lower bound. A bound that is not a number, and so is not even at
most itself, holds nothing back; a coordinate that is not a number gives way to the bound. -/
def atLeast {α : Type} [LE α] [DecidableLE α] (low x : α) : α :=
  if low ≤ x ∨ ¬ low ≤ low then x else low

/-- A coordinate held back at an upper bound, by the same rule. -/
def atMost {α : Type} [LE α] [DecidableLE α] (high x : α) : α :=
  if x ≤ high ∨ ¬ high ≤ high then x else high

namespace StageState

variable {α : Type}

/-- The stage as its geometry lays it out. -/
def initial [Mul α] [Div α] [OfNat α 100] (geometry : Geometry α) : StageState α where
  actor := geometry.resolve geometry.actorStart
  target := geometry.resolve geometry.targetStart
  consumed := false
  mood := .hungry

/-- Whether the target can be seen. -/
def targetVisible (state : StageState α) : Bool := !state.consumed

/-- The actor one step further, but not beyond the margin it moves towards. -/
def move [Add α] [Sub α] [LE α] [DecidableLE α] (geometry : Geometry α) (state : StageState α) :
    Direction → StageState α
  | .up =>
    { state with
      actor.y := atLeast geometry.margin (state.actor.y - geometry.step) }
  | .down =>
    { state with
      actor.y := atMost (geometry.height - geometry.margin) (state.actor.y + geometry.step) }
  | .left =>
    { state with
      actor.x := atLeast geometry.margin (state.actor.x - geometry.step) }
  | .right =>
    { state with
      actor.x := atMost (geometry.width - geometry.margin) (state.actor.x + geometry.step) }

/-- The target is eaten; a target that has been eaten stays so. -/
def consume (state : StageState α) : StageState α :=
  if state.consumed then state else { state with consumed := true, mood := .satisfied }

/-- How far the actor is from the target. -/
def distance (state : StageState Float) : Float := state.actor.distanceTo state.target

end StageState

/-- The stage of a geometry as a scene. -/
def Geometry.scene (geometry : Geometry Float) : Scene (StageState Float) where
  reset _ := StageState.initial geometry
  move := StageState.move geometry
  distance state := (state.distance, state)
  consume := StageState.consume

end BlockScript
