import BlockScript.Controller.Session
import BlockScript.Stage
import Mathlib.Data.List.DropRight

/-!
# What a stage remembers

A stage is changed by moves, by the target being consumed and by resets, in any order.  This file
says which of these changes each part of the stage tells of: a coordinate of the actor only of the
moves along its own axis, the target of nothing, and its being gone only of whether it was consumed;
and all of them of nothing that was before the last reset.

## What is here

* `StageState.changed` and `StageState.changedAll` — a stage after a change, and after some changes,
  with numbers of any type; `StageState.apply_eq_changed` says that the scene of a stage is changed
  just so.
* `Geometry.stepX` and `Geometry.stepY` — a move along one axis; `StageState.move_eq` says that a
  move is one along each axis.
* `Session.Poke.sinceReset`, `Session.Poke.sideways` and `Session.Poke.upright` — the changes after
  the last reset, and the moves along each axis among some changes.
* `StageState.remembered` — the stage that some changes without a reset have made.
  `StageState.changedAll_initial` says that **a stage remembers the changes since its last reset**.
* `StageState.stage_factorizes` — what each part of a stage tells of, and so which histories lead to
  the same stage.
-/

set_option autoImplicit false
namespace BlockScript

open Session (Poke)

/-! ## Histories -/

namespace Session.Poke

/-- The direction of a change that is a move. -/
def direction? : Poke → Option Direction
  | .move direction => some direction
  | _ => none

/-- The changes after the last reset, or all of them if there is none. -/
def sinceReset (pokes : List Poke) : List Poke := pokes.rtakeWhile (· ≠ .reset)

theorem sinceReset_concat_reset (pokes : List Poke) : sinceReset (pokes ++ [.reset]) = [] :=
  List.rtakeWhile_concat_neg _ _ _ (by simp)

theorem sinceReset_concat (pokes : List Poke) {poke : Poke} (h : poke ≠ .reset) :
    sinceReset (pokes ++ [poke]) = sinceReset pokes ++ [poke] :=
  List.rtakeWhile_concat_pos _ _ _ (by simpa using h)

end Session.Poke

/-- Whether a direction is along the horizontal axis. -/
def Direction.isSideways : Direction → Bool
  | .left => true
  | .right => true
  | .up => false
  | .down => false

namespace Session.Poke

/-- The moves to the left and to the right among some changes, in their order. -/
def sideways (pokes : List Poke) : List Direction :=
  (pokes.filterMap direction?).filter (·.isSideways)

/-- The moves up and down among some changes, in their order. -/
def upright (pokes : List Poke) : List Direction :=
  (pokes.filterMap direction?).filter (!·.isSideways)

variable (pokes : List Poke)

theorem sideways_concat_move (direction : Direction) : sideways (pokes ++ [.move direction])
    = sideways pokes ++ if direction.isSideways then [direction] else [] := by
  simp [sideways, direction?, List.filterMap_append, List.filter_append, List.filter_cons]

theorem upright_concat_move (direction : Direction) : upright (pokes ++ [.move direction])
    = upright pokes ++ if direction.isSideways then [] else [direction] := by
  cases hdirection : direction.isSideways <;>
    simp [upright, direction?, List.filterMap_append, List.filter_append, hdirection]

theorem sideways_concat_consume : sideways (pokes ++ [.consume]) = sideways pokes := by
  simp [sideways, direction?, List.filterMap_append]

theorem upright_concat_consume : upright (pokes ++ [.consume]) = upright pokes := by
  simp [upright, direction?, List.filterMap_append]

end Session.Poke

/-! ## Changes of a stage -/

variable {α : Type} [Add α] [Sub α] [LE α] [DecidableLE α]

namespace Geometry

variable (geometry : Geometry α)

/-- What a move does to the horizontal position. -/
def stepX (x : α) : Direction → α
  | .left => atLeast geometry.margin (x - geometry.step)
  | .right => atMost (geometry.width - geometry.margin) (x + geometry.step)
  | .up => x
  | .down => x

/-- What a move does to the vertical position. -/
def stepY (y : α) : Direction → α
  | .up => atLeast geometry.margin (y - geometry.step)
  | .down => atMost (geometry.height - geometry.margin) (y + geometry.step)
  | .left => y
  | .right => y

/-- A move along the other axis leaves the horizontal position alone. -/
theorem stepX_of_not_isSideways (x : α) {direction : Direction}
    (h : direction.isSideways = false) : geometry.stepX x direction = x := by
  cases direction <;> first | rfl | cases h

/-- A move along the other axis leaves the vertical position alone. -/
theorem stepY_of_isSideways (y : α) {direction : Direction} (h : direction.isSideways = true) :
    geometry.stepY y direction = y := by
  cases direction <;> first | rfl | cases h

end Geometry

namespace StageState

/-- A move is one along each axis, and nothing else. -/
theorem move_eq (geometry : Geometry α) (state : StageState α) (direction : Direction) :
    state.move geometry direction = { state with
      actor.x := geometry.stepX state.actor.x direction
      actor.y := geometry.stepY state.actor.y direction } := by
  cases direction <;> rfl

variable [Mul α] [Div α] [OfNat α 100]

/-- A stage after a change. -/
def changed (geometry : Geometry α) (state : StageState α) : Poke → StageState α
  | .reset => initial geometry
  | .consume => state.consume
  | .move direction => state.move geometry direction

/-- A stage after some changes, the first of them first. -/
def changedAll (geometry : Geometry α) (state : StageState α) (pokes : List Poke) : StageState α :=
  pokes.foldl (changed geometry) state

/-- The scene of a stage is changed as the stage is. -/
theorem apply_eq_changed (geometry : Geometry Float) (state : StageState Float) (poke : Poke) :
    poke.apply geometry.scene state = state.changed geometry poke := by
  cases poke <;> rfl

variable (geometry : Geometry α)

theorem changedAll_concat (state : StageState α) (pokes : List Poke) (poke : Poke) :
    state.changedAll geometry (pokes ++ [poke])
      = (state.changedAll geometry pokes).changed geometry poke := List.foldl_concat ..

theorem changedAll_append (state : StageState α) (pokes more : List Poke) :
    state.changedAll geometry (pokes ++ more)
      = (state.changedAll geometry pokes).changedAll geometry more := List.foldl_append

/-! ## What is remembered -/

/-- The stage that some changes without a reset have made of the one that the geometry lays out. -/
def remembered (recent : List Poke) : StageState α where
  actor :=
    { x := (Poke.sideways recent).foldl geometry.stepX (geometry.resolve geometry.actorStart).x
      y := (Poke.upright recent).foldl geometry.stepY (geometry.resolve geometry.actorStart).y }
  target := geometry.resolve geometry.targetStart
  consumed := decide (.consume ∈ recent)
  mood := if .consume ∈ recent then .satisfied else .hungry

/-- A further move goes into the account of its axis. -/
theorem move_remembered (recent : List Poke) (direction : Direction) :
    (remembered geometry recent).move geometry direction
      = remembered geometry (recent ++ [.move direction]) := by
  rw [move_eq, remembered, remembered, Poke.sideways_concat_move, Poke.upright_concat_move]
  cases hdirection : direction.isSideways with
  | true => simp [List.foldl_append, geometry.stepY_of_isSideways _ hdirection]
  | false => simp [List.foldl_append, geometry.stepX_of_not_isSideways _ hdirection]

/-- That the target is consumed is remembered, and once is as good as many times. -/
theorem consume_remembered (recent : List Poke) :
    (remembered geometry recent).consume = remembered geometry (recent ++ [.consume]) := by
  rw [remembered, remembered, Poke.sideways_concat_consume, Poke.upright_concat_consume, consume]
  by_cases hconsumed : Poke.consume ∈ recent
  · simp [hconsumed]
  · simp [hconsumed]

/-- **A stage remembers the changes since its last reset**, each in its own part. -/
theorem changedAll_initial (pokes : List Poke) :
    (initial geometry).changedAll geometry pokes
      = remembered geometry (Poke.sinceReset pokes) := by
  induction pokes using List.reverseRecOn with
  | nil => rfl
  | append_singleton pokes poke ih =>
    rw [changedAll_concat, ih]
    cases poke with
    | reset =>
      rw [Poke.sinceReset_concat_reset]
      rfl
    | consume =>
      rw [Poke.sinceReset_concat pokes (by simp), ← consume_remembered]
      rfl
    | move direction =>
      rw [Poke.sinceReset_concat pokes (by simp), ← move_remembered]
      rfl

/-! ## Stages of doubles -/

/-- The scene of a stage is changed as the stage is, by any changes. -/
theorem foldl_apply_eq (geometry : Geometry Float) (state : StageState Float)
    (pokes : List Poke) :
    pokes.foldl (Poke.apply geometry.scene) state = state.changedAll geometry pokes := by
  induction pokes generalizing state with
  | nil => rfl
  | cons poke pokes ih =>
    rw [List.foldl_cons, ih, apply_eq_changed]
    rfl

/-- **Each part of a stage tells of its own changes only.**  After any changes of a stage, the
actor's horizontal position is the one to which the moves to the left and to the right since the
last reset have led from where the actor begins, and its vertical position the one to which the
moves up and down have led; the target is where it was laid out; and it has been consumed, the actor
is satisfied and the target is hidden if and only if it was consumed since the last reset.  So two
histories that agree in these three things lead to the same stage. -/
theorem stage_factorizes (geometry : Geometry Float) :
    (∀ pokes : List Poke,
        let state := pokes.foldl (Poke.apply geometry.scene) (initial geometry)
        let recent := Poke.sinceReset pokes
        let start := geometry.resolve geometry.actorStart
        state.actor.x = (Poke.sideways recent).foldl geometry.stepX start.x
          ∧ state.actor.y = (Poke.upright recent).foldl geometry.stepY start.y
          ∧ state.target = geometry.resolve geometry.targetStart
          ∧ (state.consumed = true ↔ .consume ∈ recent)
          ∧ (state.mood = .satisfied ↔ .consume ∈ recent)
          ∧ (state.targetVisible = false ↔ .consume ∈ recent))
      ∧ ∀ pokes others : List Poke,
          Poke.sideways (Poke.sinceReset pokes) = Poke.sideways (Poke.sinceReset others) →
          Poke.upright (Poke.sinceReset pokes) = Poke.upright (Poke.sinceReset others) →
          (.consume ∈ Poke.sinceReset pokes ↔ .consume ∈ Poke.sinceReset others) →
          pokes.foldl (Poke.apply geometry.scene) (initial geometry)
            = others.foldl (Poke.apply geometry.scene) (initial geometry) := by
  constructor
  · intro pokes state recent start
    have hstate : state = remembered geometry recent :=
      (foldl_apply_eq geometry _ pokes).trans (changedAll_initial geometry pokes)
    rw [hstate]
    refine ⟨rfl, rfl, rfl, ?_, ?_, ?_⟩
    · simp [remembered]
    · simp [remembered]
    · simp [remembered, targetVisible]
  · intro pokes others hsideways hupright hconsume
    rw [foldl_apply_eq, foldl_apply_eq, changedAll_initial, changedAll_initial, remembered,
      remembered, hsideways, hupright]
    simp only [hconsume]

/-- What was before the reset, how often the target was consumed, and how the moves along the two
axes were mixed makes no difference. -/
theorem stage_factorizes_mixed :
    [Poke.move .down, .consume, .reset, .move .left, .consume, .move .up, .move .right].foldl
        (Poke.apply Geometry.standard.scene) (initial Geometry.standard)
      = [Poke.move .up, .move .left, .move .right, .consume, .consume].foldl
        (Poke.apply Geometry.standard.scene) (initial Geometry.standard) :=
  (stage_factorizes Geometry.standard).2 _ _ (by decide) (by decide) (by decide)

end StageState
end BlockScript
