/-!
# Directions

The four ways the actor can step, and their names.

## What is here

* `Direction` — the four directions, with their lowercase `Direction.name`s.
* `Direction.ofName?` — the direction a name stands for; letter case does not matter.
-/

set_option autoImplicit false
namespace BlockScript

/-- The direction of a single step of the actor. -/
inductive Direction where
  /-- Towards the top edge. -/
  | up
  /-- Towards the bottom edge. -/
  | down
  /-- Towards the left edge. -/
  | left
  /-- Towards the right edge. -/
  | right
  deriving DecidableEq, Repr, Inhabited

namespace Direction

/-- Every direction, in the order in which their names are listed. -/
def all : List Direction := [.up, .down, .left, .right]

/-- The name of a direction in scripts, documents and logs. -/
def name : Direction → String
  | .up => "up"
  | .down => "down"
  | .left => "left"
  | .right => "right"

/-- The direction whose name is `text`, letters compared without regard to ASCII case. -/
def ofName? (text : String) : Option Direction :=
  all.find? fun d => d.name == text.toLower

theorem mem_all (d : Direction) : d ∈ all := by
  cases d <;> decide

end Direction
end BlockScript
