import BlockScript.Run.Rehearsal
import Mathlib.Data.List.Basic

/-!
# What blocks mean

A walk keeps frames, positions and iterations in a list and looks at the success only between two
turns.  This file says what blocks do by recursion on the blocks alone, and proves that a walk does
exactly that.

## What is here

* `Course` — what comes of running something; `Course.andThen` goes on with something else unless
  the target has been eaten, and `Course.inTurn` does so along a list.
* `Block.meaning` and `Block.meaningAll` — what a block and a list of blocks do, by recursion.
* `Frame.meaning` and `Walk.meaning` — what the frames of a walk still have to do.  This is the
  quantity that a turn keeps (`Walk.meaning_turn`), so that `Walk.run_eq_meaning` follows by
  induction on the turns.
* `Block.runAll_eq_meaning` — **a walk refines the recursion**: the effects with their times, the
  scene that is left and the success are the same.
-/

set_option autoImplicit false
namespace BlockScript

variable {σ : Type}

/-! ## Courses -/

/-- What comes of running something against a scene. -/
@[ext] structure Course (σ : Type) where
  /-- What has happened, in order. -/
  effects : List Effect
  /-- Whether the target has been eaten. -/
  succeeded : Bool
  /-- The state of the scene at the end. -/
  state : σ

namespace Course

/-- Nothing happens. -/
def idle (state : σ) : Course σ := ⟨[], false, state⟩

/-- A course with some effects ahead of it. -/
def after (earlier : List Effect) (course : Course σ) : Course σ :=
  { course with effects := earlier ++ course.effects }

/-- A course, and then what follows it unless the target has been eaten. -/
def andThen (course : Course σ) (next : σ → Course σ) : Course σ :=
  if course.succeeded then course else (next course.state).after course.effects

/-- Runs some things one after another until the target has been eaten. -/
def inTurn : List (σ → Course σ) → σ → Course σ
  | [], state => idle state
  | part :: parts, state => (part state).andThen (inTurn parts)

/-- One iteration of a loop: it is announced, the body is run, and a rest follows. -/
def iteration (rest count : Nat) (body : σ → Course σ) (number : Nat) (state : σ) : Course σ :=
  ((body state).andThen fun state => ⟨[.rest rest], false, state⟩).after
    [.emit (.repetition number count)]

/-! ### Algebra of courses -/

@[simp] theorem after_nil (course : Course σ) : course.after [] = course := rfl

@[simp] theorem after_after (earlier later : List Effect) (course : Course σ) :
    (course.after later).after earlier = course.after (earlier ++ later) := by
  simp [after]

@[simp] theorem andThen_of_success (effects : List Effect) (state : σ) (next : σ → Course σ) :
    andThen ⟨effects, true, state⟩ next = ⟨effects, true, state⟩ := rfl

@[simp] theorem andThen_of_failure (effects : List Effect) (state : σ) (next : σ → Course σ) :
    andThen ⟨effects, false, state⟩ next = (next state).after effects := rfl

@[simp] theorem idle_andThen (state : σ) (next : σ → Course σ) :
    (idle state).andThen next = next state := rfl

/-- Effects ahead of a course do not touch what follows it. -/
theorem after_andThen (earlier : List Effect) (course : Course σ) (next : σ → Course σ) :
    (course.after earlier).andThen next = (course.andThen next).after earlier := by
  obtain ⟨effects, succeeded, state⟩ := course
  cases succeeded with
  | true => rfl
  | false => simp [after, andThen]

theorem andThen_assoc (course : Course σ) (next later : σ → Course σ) :
    (course.andThen next).andThen later
      = course.andThen fun state => (next state).andThen later := by
  obtain ⟨effects, succeeded, state⟩ := course
  cases succeeded with
  | true => rfl
  | false => rw [andThen_of_failure, andThen_of_failure, after_andThen]

theorem andThen_idle (course : Course σ) : course.andThen idle = course := by
  obtain ⟨effects, succeeded, state⟩ := course
  cases succeeded with
  | true => rfl
  | false => simp [idle, after]

end Course

/-! ## Blocks -/

mutual

/-- What a block does. -/
def Block.meaning (scene : Scene σ) (pacing : Pacing) : Block → σ → Course σ
  | .start, state => .idle state
  | .move direction, state =>
    let (answer, state) := scene.distance (scene.move state direction)
    { effects :=
        [.call (.move direction), .call (.distance answer)]
          ++ (if answer < 60 then [.emit (.nearTarget answer)] else []) ++ [.rest pacing.step]
      succeeded := false
      state }
  | .eat, state =>
    let (answer, state) := scene.distance state
    if answer < 50 then
      { effects :=
          [.call (.distance answer), .call .consume, .emit .targetEaten, .rest pacing.celebration]
        succeeded := true
        state := scene.consume state }
    else
      { effects := [.call (.distance answer), .emit (.tooFar answer)]
        succeeded := false
        state }
  | .loop count body, state =>
    .inTurn ((List.range' 1 count.val).map
      (Course.iteration pacing.step count.val (Block.meaningAll scene pacing body))) state

/-- What a list of blocks does: each block in order, until the target has been eaten. -/
def Block.meaningAll (scene : Scene σ) (pacing : Pacing) : List Block → σ → Course σ
  | [], state => .idle state
  | block :: blocks, state =>
    (block.meaning scene pacing state).andThen (Block.meaningAll scene pacing blocks)

end

/-- What a list of blocks does if the target may have been eaten already. -/
def Block.meaningFrom (scene : Scene σ) (pacing : Pacing) (blocks : List Block)
    (succeeded : Bool) (state : σ) : Course σ :=
  if succeeded then ⟨[], true, state⟩ else Block.meaningAll scene pacing blocks state

/-! ## Frames -/

/-- What a frame still has to do: its next blocks, and for a loop also the rest at the end of this
iteration and the iterations after it. -/
def Frame.meaning (scene : Scene σ) (pacing : Pacing) (frame : Frame) (state : σ) : Course σ :=
  match frame.kind with
  | .sequence => Block.meaningAll scene pacing frame.next state
  | .loop iteration count =>
    ((Block.meaningAll scene pacing frame.next state).andThen
      fun state => ⟨[.rest pacing.step], false, state⟩).andThen
    (Course.inTurn ((List.range' (iteration + 1) (count - iteration)).map
      (Course.iteration pacing.step count (Block.meaningAll scene pacing frame.blocks))))

/-- What frames still have to do, the innermost first. -/
def Frame.meaningAll (scene : Scene σ) (pacing : Pacing) (frames : List Frame) : σ → Course σ :=
  Course.inTurn (frames.map (Frame.meaning scene pacing))

/-- What a walk still has to do. -/
def Walk.meaning (scene : Scene σ) (pacing : Pacing) (walk : Walk) (state : σ) : Course σ :=
  if walk.succeeded then ⟨[], true, state⟩ else Frame.meaningAll scene pacing walk.frames state

section Turns

variable (scene : Scene σ) (pacing : Pacing)

/-- A frame does its next block first. -/
theorem Frame.meaning_cons (kind : Frame.Kind) (blocks next : List Block) (block : Block)
    (state : σ) :
    Frame.meaning scene pacing ⟨kind, blocks, block :: next⟩ state
      = (block.meaning scene pacing state).andThen fun state =>
          Frame.meaning scene pacing ⟨kind, blocks, next⟩ state := by
  cases kind with
  | sequence => rfl
  | loop iteration count => simp only [Frame.meaning, Block.meaningAll, Course.andThen_assoc]

/-- Frames do the next block of the innermost one first. -/
theorem Frame.meaningAll_cons (kind : Frame.Kind) (blocks next : List Block) (block : Block)
    (frames : List Frame) (state : σ) :
    Frame.meaningAll scene pacing (⟨kind, blocks, block :: next⟩ :: frames) state
      = (block.meaning scene pacing state).andThen
          (Frame.meaningAll scene pacing (⟨kind, blocks, next⟩ :: frames)) := by
  rw [Frame.meaningAll, List.map_cons, Course.inTurn, Frame.meaning_cons, Course.andThen_assoc]
  rfl

/-- A loop does what the frame of its first iteration still has to do, once it is announced. -/
theorem Block.meaning_loop (count : RepeatCount) (body : List Block) (state : σ) :
    (Block.loop count body).meaning scene pacing state
      = (Frame.meaning scene pacing (Frame.loop 1 count.val body) state).after
          [.emit (.repetition 1 count.val)] := by
  obtain ⟨n, hn⟩ : ∃ n, count.val = n + 1 := ⟨count.val - 1, by have := count.pos; omega⟩
  simp only [Block.meaning, Frame.meaning, Frame.loop, hn, Nat.add_sub_cancel, List.range'_succ,
    List.map_cons, Course.inTurn]
  rw [Course.iteration, Course.after_andThen]

/-! ### Eat attempts -/

theorem Block.meaning_eat_of_lt {state : σ} (h : (scene.distance state).1 < 50) :
    Block.eat.meaning scene pacing state
      = { effects := [.call (.distance (scene.distance state).1), .call .consume,
            .emit .targetEaten, .rest pacing.celebration]
          succeeded := true
          state := scene.consume (scene.distance state).2 } := by
  simp only [Block.meaning]
  exact if_pos h

theorem Block.meaning_eat_of_not_lt {state : σ} (h : ¬ (scene.distance state).1 < 50) :
    Block.eat.meaning scene pacing state
      = { effects := [.call (.distance (scene.distance state).1),
            .emit (.tooFar (scene.distance state).1)]
          succeeded := false
          state := (scene.distance state).2 } := by
  simp only [Block.meaning]
  exact if_neg h

theorem Walk.runBlock_eat_of_lt (frames : List Frame) {state : σ}
    (h : (scene.distance state).1 < 50) :
    Walk.runBlock scene pacing frames state .eat
      = ([.call (.distance (scene.distance state).1), .call .consume, .emit .targetEaten,
          .rest pacing.celebration],
        { frames, succeeded := true }, scene.consume (scene.distance state).2) := by
  simp only [Walk.runBlock]
  exact if_pos h

theorem Walk.runBlock_eat_of_not_lt (frames : List Frame) {state : σ}
    (h : ¬ (scene.distance state).1 < 50) :
    Walk.runBlock scene pacing frames state .eat
      = ([.call (.distance (scene.distance state).1), .emit (.tooFar (scene.distance state).1)],
        { frames }, (scene.distance state).2) := by
  simp only [Walk.runBlock]
  exact if_neg h

/-! ### Turns -/

/-- Running a block is what the block means, with the frames around it left for later. -/
theorem Walk.meaning_runBlock {frames : List Frame} {block : Block} {state state' : σ}
    {effects : List Effect} {walk : Walk}
    (h : Walk.runBlock scene pacing frames state block = (effects, walk, state')) :
    (block.meaning scene pacing state).andThen (Frame.meaningAll scene pacing frames)
      = (walk.meaning scene pacing state').after effects := by
  cases block with
  | start =>
    obtain ⟨rfl, rfl, rfl⟩ := h
    rfl
  | move direction =>
    obtain ⟨rfl, rfl, rfl⟩ := h
    rfl
  | eat =>
    by_cases hreach : (scene.distance state).1 < 50
    · rw [Walk.runBlock_eat_of_lt scene pacing frames hreach] at h
      obtain ⟨rfl, rfl, rfl⟩ := h
      rw [Block.meaning_eat_of_lt scene pacing hreach]
      simp [Walk.meaning, Course.after]
    · rw [Walk.runBlock_eat_of_not_lt scene pacing frames hreach] at h
      obtain ⟨rfl, rfl, rfl⟩ := h
      rw [Block.meaning_eat_of_not_lt scene pacing hreach]
      rfl
  | loop count body =>
    obtain ⟨rfl, rfl, rfl⟩ := h
    rw [Block.meaning_loop, Course.after_andThen]
    rfl

/-- A frame whose blocks have run out has the rest of its loop left. -/
theorem Walk.meaning_leaveFrame (frame : Frame) (frames : List Frame) (state : σ)
    (hnext : frame.next = []) :
    Frame.meaningAll scene pacing (frame :: frames) state
      = ((Walk.leaveFrame pacing frame frames).2.meaning scene pacing state).after
          (Walk.leaveFrame pacing frame frames).1 := by
  obtain ⟨kind, blocks, next⟩ := frame
  subst hnext
  cases kind with
  | sequence => rfl
  | loop iteration count =>
    by_cases hlast : iteration < count
    · obtain ⟨n, hn⟩ : ∃ n, count - iteration = n + 1 := ⟨count - iteration - 1, by omega⟩
      have hn' : count - (iteration + 1) = n := by omega
      simp only [Frame.meaningAll, List.map_cons, Course.inTurn, Frame.meaning, Block.meaningAll,
        hn, List.range'_succ, Course.idle_andThen, Course.andThen_of_failure, Walk.leaveFrame,
        if_pos hlast]
      simp only [Course.iteration, Course.after_andThen, Course.after_after]
      simp [Walk.meaning, Frame.meaningAll, Course.inTurn, Frame.meaning, Frame.loop, hn',
        Course.andThen_assoc]
    · have hn : count - iteration = 0 := by omega
      simp only [Frame.meaningAll, List.map_cons, Course.inTurn, Frame.meaning, Block.meaningAll,
        hn, List.range'_zero, List.map_nil, Course.idle_andThen, Course.andThen_of_failure,
        Walk.leaveFrame, if_neg hlast, Course.after_andThen]
      rfl

/-- **A turn keeps what a walk means**: what is left afterwards, with the effects of the turn ahead
of it, is what was left before. -/
theorem Walk.meaning_turn {walk walk' : Walk} {state state' : σ} {effects : List Effect}
    (h : walk.turn scene pacing state = some (effects, walk', state')) :
    walk.meaning scene pacing state = (walk'.meaning scene pacing state').after effects := by
  obtain ⟨frames, succeeded⟩ := walk
  cases succeeded with
  | true => simp [Walk.turn] at h
  | false =>
    cases frames with
    | nil => simp [Walk.turn] at h
    | cons frame frames =>
      obtain ⟨kind, blocks, next⟩ := frame
      cases next with
      | nil =>
        obtain ⟨rfl, rfl, rfl⟩ := Option.some.inj h
        exact Walk.meaning_leaveFrame scene pacing _ frames state rfl
      | cons block next =>
        have hblock := Walk.meaning_runBlock scene pacing (Option.some.inj h)
        rwa [← Frame.meaningAll_cons] at hblock

/-- A walk that has no turn left has nothing left to do. -/
theorem Walk.meaning_of_turn_eq_none {walk : Walk} {state : σ}
    (h : walk.turn scene pacing state = none) :
    walk.meaning scene pacing state = ⟨[], walk.succeeded, state⟩ := by
  obtain ⟨frames, succeeded⟩ := walk
  cases succeeded with
  | true => rfl
  | false =>
    cases frames with
    | nil => rfl
    | cons frame frames =>
      obtain ⟨kind, blocks, next⟩ := frame
      cases next <;> simp [Walk.turn] at h

/-! ## Walks -/

/-- **A walk does what its frames mean.** -/
theorem Walk.runFrom_eq_meaning (effects : Array Effect) (walk : Walk) (state : σ) :
    ∃ walk', walk.runFrom scene pacing effects state
        = (effects ++ (walk.meaning scene pacing state).effects, walk',
            (walk.meaning scene pacing state).state)
      ∧ walk'.succeeded = (walk.meaning scene pacing state).succeeded := by
  fun_induction Walk.runFrom scene pacing effects walk state with
  | case1 effects walk state hturn =>
    exact ⟨walk, by simp [Walk.meaning_of_turn_eq_none scene pacing hturn]⟩
  | case2 effects walk state more walk' state' hturn ih =>
    obtain ⟨last, hrun, hlast⟩ := ih
    have happend : effects ++ more ++ (walk'.meaning scene pacing state').effects
        = effects ++ (more ++ (walk'.meaning scene pacing state').effects) := Array.ext' (by simp)
    rw [Walk.meaning_turn scene pacing hturn]
    exact ⟨last, by rw [hrun, happend]; rfl, hlast⟩

theorem Walk.run_eq_meaning (walk : Walk) (state : σ) :
    ∃ walk', walk.run scene pacing state
        = ((walk.meaning scene pacing state).effects, walk',
            (walk.meaning scene pacing state).state)
      ∧ walk'.succeeded = (walk.meaning scene pacing state).succeeded := by
  obtain ⟨walk', hrun, hlast⟩ := walk.runFrom_eq_meaning scene pacing #[] state
  exact ⟨walk', by simp [Walk.run, hrun], hlast⟩

theorem Block.meaningFrom_eq (blocks : List Block) (succeeded : Bool) (state : σ) :
    Block.meaningFrom scene pacing blocks succeeded state
      = Walk.meaning scene pacing { frames := [Frame.sequence blocks], succeeded } state := by
  cases succeeded with
  | true => rfl
  | false => exact (Course.andThen_idle _).symm

/-- **A walk refines the recursion.**  Running a list of blocks with frames has the effects of its
meaning in the same order, and leaves the same success and the same scene; in a rehearsal everything
happens at the same time too. -/
theorem Block.runAll_eq_meaning (blocks : List Block) (succeeded : Bool) (state : σ) :
    let course := Block.meaningFrom scene pacing blocks succeeded state
    Block.runAll scene pacing blocks succeeded state
        = (course.effects, course.succeeded, course.state)
      ∧ ∀ clock, Rehearsal.perform scene pacing { state, clock, succeeded } blocks
        = (Effect.timeline clock course.effects,
            { state := course.state
              clock := clock + Effect.totalDuration course.effects
              succeeded := course.succeeded }) := by
  obtain ⟨walk, hrun, hwalk⟩ :=
    Walk.run_eq_meaning scene pacing { frames := [Frame.sequence blocks], succeeded } state
  rw [← Block.meaningFrom_eq] at hrun hwalk
  have hall : Block.runAll scene pacing blocks succeeded state
      = ((Block.meaningFrom scene pacing blocks succeeded state).effects,
          (Block.meaningFrom scene pacing blocks succeeded state).succeeded,
          (Block.meaningFrom scene pacing blocks succeeded state).state) := by
    simp only [Block.runAll, hrun, hwalk]
  exact ⟨hall, fun clock => by simp only [Rehearsal.perform, hall]⟩

end Turns

end BlockScript
