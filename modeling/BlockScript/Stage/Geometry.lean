import BlockScript.Number.Hypotenuse

/-!
# Geometry of a stage

Positions are measured from the top left corner, to the right and downward. The numbers are of any
type with the four operations and an order; programs run with doubles, and what holds for exact
numbers can be said of the same definitions.

## What is here

* `Point` — a position; `Point.distanceTo` is the distance of two positions given by doubles.
* `Geometry` — the size of a stage, the length of a step, the margin that the actor keeps from the
  edges, and the places where actor and target begin, in percent of the size.
* `Geometry.resolve` — the position that a place in percent stands for.
* `Geometry.standard` — the usual stage.
-/

set_option autoImplicit false
namespace BlockScript

/-- A position, or a place in percent. -/
structure Point (α : Type) where
  x : α
  /-- Grows downward. -/
  y : α
  deriving DecidableEq, Repr, Inhabited

/-- The distance between two positions. -/
def Point.distanceTo (p q : Point Float) : Float :=
  Number.hypotenuse (p.x - q.x) (p.y - q.y)

/-- The measures of a stage. -/
structure Geometry (α : Type) where
  width : α
  height : α
  /-- How far one move goes. -/
  step : α
  /-- How close to an edge the actor may come. -/
  margin : α
  /-- Where the actor begins, in percent of width and height. -/
  actorStart : Point α
  /-- Where the target is, in percent of width and height. -/
  targetStart : Point α
  deriving DecidableEq, Repr, Inhabited

namespace Geometry

/-- The position of a place given in percent of width and height. -/
def resolve {α : Type} [Mul α] [Div α] [OfNat α 100] (geometry : Geometry α) (percent : Point α) :
    Point α :=
  { x := geometry.width * percent.x / 100
    y := geometry.height * percent.y / 100 }

/-- The usual stage. -/
def standard : Geometry Float where
  width := 480
  height := 360
  step := 30
  margin := 20
  actorStart := ⟨25, 50⟩
  targetStart := ⟨75, 33⟩

end Geometry
end BlockScript
