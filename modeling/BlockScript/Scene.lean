import BlockScript.Direction

/-!
# Scenes

A script is run against a scene. It never sees positions: it can ask the scene to move the actor,
to tell how far the target is, and to let the actor consume it.

## What is here

* `Scene` — the operations of a scene over states of any type.
* `Scene.Call` — one use of an operation, with the answer where there is one.
* `Scene.rehearsal` — a scene whose answers are given in advance.
-/

set_option autoImplicit false
namespace BlockScript

/-- The operations of a scene whose states have type `σ`. Even asking for the distance may change
the state. -/
structure Scene (σ : Type) where
  /-- Puts everything back to where it was at the beginning. -/
  reset : σ → σ
  /-- Steps the actor once. -/
  move : σ → Direction → σ
  /-- How far the actor is from the target. -/
  distance : σ → Float × σ
  /-- Lets the actor consume the target. -/
  consume : σ → σ

namespace Scene

/-- One use of a scene. -/
inductive Call where
  | reset
  | move (direction : Direction)
  | distance (answer : Float)
  | consume
  deriving DecidableEq

/-- The next of the answers given in advance. The last answer is given over and over, and a target
of which nothing is said is a thousand steps away. -/
def nextAnswer : List Float → Float × List Float
  | [] => (1000, [])
  | [last] => (last, [last])
  | answer :: rest => (answer, rest)

/-- The scene that gives its answers in advance and takes no notice of anything else. -/
def rehearsal : Scene (List Float) where
  reset := id
  move answers _ := answers
  distance := nextAnswer
  consume := id

end Scene
end BlockScript
