import BlockScript.Proofs.Stage.History
import Mathlib.Algebra.Order.Field.Rat
import Mathlib.Algebra.Order.Group.MinMax
import Mathlib.Tactic.Ring

/-!
# The actor keeps the margin

A move is held back by the margin ahead of the actor and by nothing behind it.  This file says, of
stages with exact numbers, that no margin is ever passed all the same, and where any number of moves
in one direction leads.

## What is here

* `Geometry.Inside` — a position that is as far from every edge as the margin asks.
  `StageState.inside_changed` says that no change leads out of there.
* `Geometry.carried` — where some moves in one direction lead, in one formula;
  `StageState.changedAll_replicate` says that they do.
* `StageState.stays_inside` — **the actor never passes a margin**, and what it has reached of one it
  keeps.
-/

set_option autoImplicit false
namespace BlockScript

open Session (Poke)

/-! ## Bounds -/

theorem atLeast_eq_max (low x : ℚ) : atLeast low x = max low x := by
  simp [atLeast, max_def]

theorem atMost_eq_min (high x : ℚ) : atMost high x = min x high := by
  simp [atMost, min_def]

/-- Held back at a lower bound at every step or only in the end: it comes to the same. -/
theorem max_sub_of_nonneg {low x step : ℚ} (h : 0 ≤ step) :
    max low (max x low - step) = max (x - step) low := by
  rw [← max_sub_sub_right, max_left_comm, max_eq_left (sub_le_self low h)]

/-- Held back at an upper bound at every step or only in the end: it comes to the same. -/
theorem min_add_of_nonneg {high x step : ℚ} (h : 0 ≤ step) :
    min (min x high + step) high = min (x + step) high := by
  rw [← min_add_add_right, min_assoc, min_eq_right (le_add_of_nonneg_right h)]

/-- A step back stays between two bounds.  The lower one holds it back, and from the upper one it
goes away, because a step is not negative. -/
theorem atLeast_sub_mem {low high x step : ℚ} (hstep : 0 ≤ step) (h : x ∈ Set.Icc low high) :
    atLeast low (x - step) ∈ Set.Icc low high := by
  rw [atLeast_eq_max]
  exact ⟨le_max_left _ _, max_le (h.1.trans h.2) ((sub_le_self x hstep).trans h.2)⟩

/-- A step on stays between two bounds in the same way. -/
theorem atMost_add_mem {low high x step : ℚ} (hstep : 0 ≤ step) (h : x ∈ Set.Icc low high) :
    atMost high (x + step) ∈ Set.Icc low high := by
  rw [atMost_eq_min]
  exact ⟨le_min (h.1.trans (le_add_of_nonneg_right hstep)) (h.1.trans h.2), min_le_right _ _⟩

namespace Geometry

/-- A position as far from every edge as the margin asks. -/
structure Inside (geometry : Geometry ℚ) (position : Point ℚ) : Prop where
  left : geometry.margin ≤ position.x
  right : position.x ≤ geometry.width - geometry.margin
  top : geometry.margin ≤ position.y
  bottom : position.y ≤ geometry.height - geometry.margin

/-- The last coordinate that moves in a direction may reach. -/
def bound (geometry : Geometry ℚ) : Direction → ℚ
  | .up => geometry.margin
  | .down => geometry.height - geometry.margin
  | .left => geometry.margin
  | .right => geometry.width - geometry.margin

/-- Where `n` moves in a direction lead: as far as they would without any margin, or to the one
ahead if that is nearer. -/
def carried (geometry : Geometry ℚ) (position : Point ℚ) (n : ℕ) : Direction → Point ℚ
  | .up => { position with y := max (position.y - n * geometry.step) geometry.margin }
  | .down =>
    { position with y := min (position.y + n * geometry.step) (geometry.height - geometry.margin) }
  | .left => { position with x := max (position.x - n * geometry.step) geometry.margin }
  | .right =>
    { position with x := min (position.x + n * geometry.step) (geometry.width - geometry.margin) }

end Geometry

/-- The coordinate that a move in some direction changes. -/
def Point.along (position : Point ℚ) : Direction → ℚ
  | .up => position.y
  | .down => position.y
  | .left => position.x
  | .right => position.x

namespace Geometry

variable {geometry : Geometry ℚ} {position : Point ℚ}

/-- No moves lead nowhere. -/
theorem Inside.carried_zero (h : geometry.Inside position) (direction : Direction) :
    geometry.carried position 0 direction = position := by
  cases direction with
  | up => simp [carried, h.top]
  | down => simp [carried, h.bottom]
  | left => simp [carried, h.left]
  | right => simp [carried, h.right]

/-- One move more leads one step further. -/
theorem carried_succ (hstep : 0 ≤ geometry.step) (n : ℕ) (direction : Direction) :
    geometry.carried position (n + 1) direction
      = { x := geometry.stepX (geometry.carried position n direction).x direction
          y := geometry.stepY (geometry.carried position n direction).y direction } := by
  have hback (x : ℚ) : x - ↑(n + 1) * geometry.step = x - n * geometry.step - geometry.step := by
    push_cast
    ring
  have hforth (x : ℚ) : x + ↑(n + 1) * geometry.step = x + n * geometry.step + geometry.step := by
    push_cast
    ring
  cases direction with
  | up => simp only [carried, stepX, stepY, atLeast_eq_max, max_sub_of_nonneg hstep, hback]
  | down => simp only [carried, stepX, stepY, atMost_eq_min, min_add_of_nonneg hstep, hforth]
  | left => simp only [carried, stepX, stepY, atLeast_eq_max, max_sub_of_nonneg hstep, hback]
  | right => simp only [carried, stepX, stepY, atMost_eq_min, min_add_of_nonneg hstep, hforth]

/-- At the margin, no moves lead any further. -/
theorem carried_of_along_eq_bound (hstep : 0 ≤ geometry.step) {direction : Direction}
    (h : position.along direction = geometry.bound direction) (n : ℕ) :
    geometry.carried position n direction = position := by
  have hway : 0 ≤ n * geometry.step := mul_nonneg n.cast_nonneg hstep
  obtain ⟨x, y⟩ := position
  cases direction with
  | up =>
    obtain rfl : y = geometry.margin := h
    simp [carried, hway]
  | down =>
    obtain rfl : y = geometry.height - geometry.margin := h
    simp [carried, hway]
  | left =>
    obtain rfl : x = geometry.margin := h
    simp [carried, hway]
  | right =>
    obtain rfl : x = geometry.width - geometry.margin := h
    simp [carried, hway]

end Geometry

/-! ## Stages -/

namespace StageState

variable {geometry : Geometry ℚ} {state : StageState ℚ}

/-- A move does not lead past a margin: along its own axis it is held back by the one ahead. -/
theorem inside_move (hstep : 0 ≤ geometry.step) (h : geometry.Inside state.actor)
    (direction : Direction) : geometry.Inside (state.move geometry direction).actor := by
  cases direction with
  | up =>
    obtain ⟨htop, hbottom⟩ := atLeast_sub_mem hstep ⟨h.top, h.bottom⟩
    exact ⟨h.left, h.right, htop, hbottom⟩
  | down =>
    obtain ⟨htop, hbottom⟩ := atMost_add_mem hstep ⟨h.top, h.bottom⟩
    exact ⟨h.left, h.right, htop, hbottom⟩
  | left =>
    obtain ⟨hleft, hright⟩ := atLeast_sub_mem hstep ⟨h.left, h.right⟩
    exact ⟨hleft, hright, h.top, h.bottom⟩
  | right =>
    obtain ⟨hleft, hright⟩ := atMost_add_mem hstep ⟨h.left, h.right⟩
    exact ⟨hleft, hright, h.top, h.bottom⟩

theorem actor_consume (state : StageState ℚ) : state.consume.actor = state.actor := by
  rw [consume]
  split <;> rfl

/-- No change leads past a margin. -/
theorem inside_changed (hstep : 0 ≤ geometry.step)
    (hstart : geometry.Inside (geometry.resolve geometry.actorStart))
    (h : geometry.Inside state.actor) (poke : Poke) :
    geometry.Inside (state.changed geometry poke).actor := by
  cases poke with
  | reset => exact hstart
  | consume => rwa [changed, actor_consume]
  | move direction => exact inside_move hstep h direction

theorem inside_changedAll (hstep : 0 ≤ geometry.step)
    (hstart : geometry.Inside (geometry.resolve geometry.actorStart)) (pokes : List Poke) :
    geometry.Inside ((initial geometry).changedAll geometry pokes).actor := by
  induction pokes using List.reverseRecOn with
  | nil => exact hstart
  | append_singleton pokes poke ih =>
    rw [changedAll_concat]
    exact inside_changed hstep hstart ih poke

/-- Some moves in one direction carry the actor as the formula says, and change nothing else. -/
theorem changedAll_replicate (hstep : 0 ≤ geometry.step) (h : geometry.Inside state.actor)
    (direction : Direction) (n : ℕ) :
    state.changedAll geometry (List.replicate n (.move direction))
      = { state with actor := geometry.carried state.actor n direction } := by
  induction n with
  | zero => rw [h.carried_zero]; rfl
  | succ n ih =>
    rw [List.replicate_succ', changedAll_concat, ih, changed, move_eq,
      Geometry.carried_succ hstep]

/-- **The actor never passes a margin.**  If a step is not negative and the actor begins inside the
margins, then it is inside them after any changes of the stage.  From there, `n` moves in one
direction lead it `n` steps further, or to the margin ahead if that is nearer, and change nothing
else on the stage; so if it is at that margin already, they change nothing at all. -/
theorem stays_inside (geometry : Geometry ℚ) (hstep : 0 ≤ geometry.step)
    (hstart : geometry.Inside (geometry.resolve geometry.actorStart)) (pokes : List Poke) :
    let state := (initial geometry).changedAll geometry pokes
    geometry.Inside state.actor
      ∧ ∀ (direction : Direction) (n : ℕ),
          state.changedAll geometry (List.replicate n (.move direction))
              = { state with actor := geometry.carried state.actor n direction }
            ∧ (state.actor.along direction = geometry.bound direction →
                state.changedAll geometry (List.replicate n (.move direction)) = state) := by
  intro state
  have hinside : geometry.Inside state.actor := inside_changedAll hstep hstart pokes
  refine ⟨hinside, fun direction n => ?_⟩
  have hcarried := changedAll_replicate hstep hinside direction n
  refine ⟨hcarried, fun hbound => ?_⟩
  rw [hcarried, Geometry.carried_of_along_eq_bound hstep hbound]

/-- A stage with the usual measures, in exact numbers. -/
def usual : Geometry ℚ where
  width := 480
  height := 360
  step := 30
  margin := 20
  actorStart := ⟨25, 50⟩
  targetStart := ⟨75, 33⟩

/-- Twenty moves to the right end at the margin, and one more changes nothing. -/
theorem stays_inside_usual :
    let state := (initial usual).changedAll usual ([.move .down, .consume]
      ++ List.replicate 20 (.move .right))
    state.actor = ⟨460, 210⟩ ∧ usual.Inside state.actor
      ∧ state.changedAll usual [.move .right] = state := by
  have hstep : 0 ≤ usual.step := by decide
  have hstart : usual.Inside (usual.resolve usual.actorStart) := by
    constructor <;> decide +kernel
  intro state
  have hactor : state.actor = ⟨460, 210⟩ := by
    have hbefore := (stays_inside usual hstep hstart [.move .down, .consume]).2 .right 20
    rw [← changedAll_append] at hbefore
    rw [show state = _ from hbefore.1]
    decide +kernel
  obtain ⟨hinside, hkept⟩ := stays_inside usual hstep hstart ([.move .down, .consume]
    ++ List.replicate 20 (.move .right))
  have hbound : state.actor.along .right = usual.bound .right := by
    rw [hactor]
    decide +kernel
  exact ⟨hactor, hinside, (hkept .right 1).2 hbound⟩

end StageState
end BlockScript
