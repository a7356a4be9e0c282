import BlockScript.Json.Decoder
import BlockScript.Json.Printer
import BlockScript.Stage

/-!
# Stages in documents

## What is here

* `Point`, `Geometry` and `StageState` as values, and as records to be read. A geometry may leave
  out any of its measures, which are then those of the standard stage.
-/

set_option autoImplicit false
namespace BlockScript

open Json

/-! ## Points -/

namespace Point

/-- A point as a value. -/
def toValue (point : Point Float) : Value := .object [("x", .float point.x), ("y", .float point.y)]

/-- The fields of a point, as far as they have been read. -/
structure Draft where
  x : Option Float := none
  y : Option Float := none

/-- Points as records. -/
def asRecord : Record Draft (Point Float) where
  name := "struct Point"
  fields :=
    [.kept "x" Draft.x (fun draft x => { draft with x := some x }) .float,
      .kept "y" Draft.y (fun draft y => { draft with y := some y }) .float]
  blank := {}
  build draft :=
    match draft.x, draft.y with
    | some x, some y => .ok ⟨x, y⟩
    | none, _ => .error "x"
    | _, none => .error "y"

end Point

/-! ## Geometries -/

namespace Geometry

/-- A geometry as a value. -/
def toValue (geometry : Geometry Float) : Value :=
  .object [("width", .float geometry.width), ("height", .float geometry.height),
    ("step", .float geometry.step), ("margin", .float geometry.margin),
    ("actor_start", geometry.actorStart.toValue), ("target_start", geometry.targetStart.toValue)]

/-- The fields of a geometry, as far as they have been read. -/
structure Draft where
  width : Option Float := none
  height : Option Float := none
  step : Option Float := none
  margin : Option Float := none
  actorStart : Option (Point Float) := none
  targetStart : Option (Point Float) := none

/-- The geometry of a draft; what it lacks is taken from the standard stage. -/
def Draft.complete (draft : Draft) : Geometry Float where
  width := draft.width.getD standard.width
  height := draft.height.getD standard.height
  step := draft.step.getD standard.step
  margin := draft.margin.getD standard.margin
  actorStart := draft.actorStart.getD standard.actorStart
  targetStart := draft.targetStart.getD standard.targetStart

/-- Geometries as records. -/
def asRecord : Record Draft (Geometry Float) where
  name := "struct StageConfig"
  fields :=
    [.kept "width" Draft.width (fun draft x => { draft with width := some x }) .float,
      .kept "height" Draft.height (fun draft x => { draft with height := some x }) .float,
      .kept "step" Draft.step (fun draft x => { draft with step := some x }) .float,
      .kept "margin" Draft.margin (fun draft x => { draft with margin := some x }) .float,
      .kept "actor_start" Draft.actorStart (fun draft p => { draft with actorStart := some p })
        Point.asRecord.decoder,
      .kept "target_start" Draft.targetStart (fun draft p => { draft with targetStart := some p })
        Point.asRecord.decoder]
  blank := {}
  build draft := .ok draft.complete

end Geometry

/-! ## States -/

/-- The moods with their names. -/
def Mood.variants : List (String × Mood) := [("hungry", .hungry), ("satisfied", .satisfied)]

/-- The name of a mood. -/
def Mood.name : Mood → String
  | .hungry => "hungry"
  | .satisfied => "satisfied"

namespace StageState

/-- A state as a value. -/
def toValue (state : StageState Float) : Value :=
  .object [("actor", state.actor.toValue), ("target", state.target.toValue),
    ("target_consumed", .bool state.consumed), ("mood", .string state.mood.name)]

/-- The fields of a state, as far as they have been read. -/
structure Draft where
  actor : Option (Point Float) := none
  target : Option (Point Float) := none
  consumed : Option Bool := none
  mood : Option Mood := none

/-- States as records. -/
def asRecord : Record Draft (StageState Float) where
  name := "struct SceneState"
  fields :=
    [.kept "actor" Draft.actor (fun draft p => { draft with actor := some p })
        Point.asRecord.decoder,
      .kept "target" Draft.target (fun draft p => { draft with target := some p })
        Point.asRecord.decoder,
      .kept "target_consumed" Draft.consumed (fun draft b => { draft with consumed := some b })
        .bool,
      .kept "mood" Draft.mood (fun draft m => { draft with mood := some m })
        (.choice Mood.variants)]
  blank := {}
  build draft :=
    match draft.actor, draft.target, draft.consumed, draft.mood with
    | some actor, some target, some consumed, some mood => .ok { actor, target, consumed, mood }
    | none, _, _, _ => .error "actor"
    | _, none, _, _ => .error "target"
    | _, _, none, _ => .error "target_consumed"
    | _, _, _, none => .error "mood"

end StageState
end BlockScript
