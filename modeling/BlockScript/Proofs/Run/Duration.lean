import BlockScript.Proofs.Run.Composition
import BlockScript.Proofs.Run.Position

/-!
# How long a run takes

A run rests after every move and at the end of every iteration of a loop, and after the target has
been eaten.  An iteration that is cut short by a success has no end, so the loops that are open at
that moment have announced one iteration more than they rest for.  This file counts the rests of a
turn against the loops that it opens and closes, and from that the rests of a whole run.

## What is here

* `Effect.moves` and `Effect.repetitions` — how often effects move the actor, and how many
  iterations they announce; `Frame.openLoops` — the loops that some frames are in.
* `Walk.time_turn` — **what a turn takes**, with the loops that are open before and after it.
* `Walk.EatsInside` and `Block.EatenWithin` — the target is eaten by an attempt inside of so many
  loops, in a run of some blocks, or of lists of blocks one after another.
* `Walk.time_meaning`, `Block.time_inTurn` and `Program.time_performance` — **what a walk, some
  lists of blocks and a program take**.
-/

set_option autoImplicit false
namespace BlockScript

variable {σ : Type}

/-- Whether a use of the scene moves the actor. -/
def Scene.Call.isMove : Scene.Call → Bool
  | .move _ => true
  | _ => false

namespace Effect

/-- How often effects move the actor. -/
def moves (effects : List Effect) : Nat := (calls effects).countP Scene.Call.isMove

/-- How many iterations of loops effects announce. -/
def repetitions (effects : List Effect) : Nat := (events effects).countP Event.isRepetition

theorem moves_append (effects more : List Effect) :
    moves (effects ++ more) = moves effects + moves more := by
  rw [moves, calls_append, List.countP_append]
  rfl

theorem repetitions_append (effects more : List Effect) :
    repetitions (effects ++ more) = repetitions effects + repetitions more := by
  rw [repetitions, events_append, List.countP_append]
  rfl

end Effect

open Effect (moves repetitions totalDuration)

/-! ## Open loops -/

namespace Frame

/-- Whether a frame is in an iteration of a loop. -/
def isLoop (frame : Frame) : Bool :=
  match frame.kind with
  | .sequence => false
  | .loop .. => true

/-- How many loops frames are in. -/
def openLoops (frames : List Frame) : Nat := frames.countP isLoop

theorem openLoops_cons (frame : Frame) (frames : List Frame) :
    openLoops (frame :: frames) = openLoops frames + frame.isLoop.toNat := by
  rw [openLoops, List.countP_cons]
  cases frame.isLoop <;> rfl

/-- Nested frames are in the loops on the path to the body that the innermost of them runs. -/
theorem Nested.openLoops_eq {blocks : List Block} {path : List Nat} {counts : List RepeatCount}
    {frames : List Frame} (h : Nested blocks path counts frames) :
    openLoops frames = counts.length := by
  induction h with
  | sequence hnext => rfl
  | loop h hindex hloop hfirst hlast hnext ih =>
    rw [openLoops_cons, ih, List.length_append]
    rfl

end Frame

open BlockScript.Frame (openLoops openLoops_cons)

/-! ## Turns -/

section Turns

variable (scene : Scene σ) (pacing : Pacing)

/-- How long a run celebrates that ends with or without success. -/
def Pacing.celebrates (pacing : Pacing) (succeeded : Bool) : Nat :=
  if succeeded then pacing.celebration else 0

/-- What a block takes: a move rests once, and a loop that begins is open from then on. -/
theorem Walk.time_runBlock {frames : List Frame} {block : Block} {state state' : σ}
    {effects : List Effect} {walk : Walk}
    (h : runBlock scene pacing frames state block = (effects, walk, state')) :
    ∃ rests, moves effects + repetitions effects + openLoops frames
        = rests + openLoops walk.frames
      ∧ totalDuration effects = pacing.step * rests + pacing.celebrates walk.succeeded := by
  cases block with
  | start =>
    obtain ⟨rfl, rfl, -⟩ := h
    exact ⟨0, rfl, rfl⟩
  | move direction =>
    obtain ⟨rfl, rfl, -⟩ := h
    refine ⟨1, ?_, ?_⟩
    · by_cases hnear : (scene.distance (scene.move state direction)).1 < nearDistance <;>
        simp [hnear, moves, repetitions, List.countP_cons, Scene.Call.isMove, Event.isRepetition]
    · by_cases hnear : (scene.distance (scene.move state direction)).1 < nearDistance <;>
        simp [hnear, totalDuration, Effect.duration, Pacing.celebrates]
  | eat =>
    by_cases hreach : (scene.distance state).1 < 50
    · rw [runBlock_eat_of_lt scene pacing frames hreach] at h
      obtain ⟨rfl, rfl, -⟩ := h
      refine ⟨0, ?_, ?_⟩
      · simp [moves, repetitions, Scene.Call.isMove, Event.isRepetition]
      · simp [totalDuration, Effect.duration, Pacing.celebrates]
    · rw [runBlock_eat_of_not_lt scene pacing frames hreach] at h
      obtain ⟨rfl, rfl, -⟩ := h
      refine ⟨0, ?_, ?_⟩
      · simp [moves, repetitions, Scene.Call.isMove, Event.isRepetition]
      · simp [totalDuration, Effect.duration, Pacing.celebrates]
  | loop count body =>
    obtain ⟨rfl, rfl, -⟩ := h
    refine ⟨0, ?_, rfl⟩
    rw [openLoops_cons]
    simp [moves, repetitions, Event.isRepetition, Frame.isLoop, Frame.loop, Nat.add_comm]

/-- What it takes to leave a frame: one rest for the iteration that has ended. -/
theorem Walk.time_leaveFrame {frame : Frame} {outer : List Frame} {effects : List Effect}
    {walk : Walk} (h : leaveFrame pacing frame outer = (effects, walk)) :
    ∃ rests, moves effects + repetitions effects + openLoops (frame :: outer)
        = rests + openLoops walk.frames
      ∧ totalDuration effects = pacing.step * rests + pacing.celebrates walk.succeeded := by
  obtain ⟨kind, blocks, next⟩ := frame
  rw [openLoops_cons]
  cases kind with
  | sequence =>
    obtain ⟨rfl, rfl⟩ := h
    exact ⟨0, by simp [moves, repetitions, Frame.isLoop], rfl⟩
  | loop iteration count =>
    by_cases hmore : iteration < count
    · simp only [leaveFrame, if_pos hmore] at h
      obtain ⟨rfl, rfl⟩ := h
      refine ⟨1, ?_, ?_⟩
      · rw [openLoops_cons]
        simp [moves, repetitions, Event.isRepetition, Frame.isLoop, Frame.loop, Nat.add_comm]
      · simp [totalDuration, Effect.duration, Pacing.celebrates]
    · simp only [leaveFrame, if_neg hmore] at h
      obtain ⟨rfl, rfl⟩ := h
      refine ⟨1, ?_, ?_⟩
      · simp [moves, repetitions, Frame.isLoop, Nat.add_comm]
      · simp [totalDuration, Effect.duration, Pacing.celebrates]

/-- **What a turn takes.**  There is a rest for every move and every iteration announced, except
that a loop that is opened rests later, and one that is closed rests now. -/
theorem Walk.time_turn {walk walk' : Walk} {state state' : σ} {effects : List Effect}
    (h : walk.turn scene pacing state = some (effects, walk', state')) :
    ∃ rests, moves effects + repetitions effects + openLoops walk.frames
        = rests + openLoops walk'.frames
      ∧ totalDuration effects = pacing.step * rests + pacing.celebrates walk'.succeeded := by
  obtain ⟨-, frame, outer, hframes, ⟨block, next, hnext, hrun⟩ | ⟨hnext, hleave, -⟩⟩ :=
    turn_cases scene pacing h
  · have hsame : openLoops (frame :: outer) = openLoops ({ frame with next } :: outer) := rfl
    rw [hframes, hsame]
    exact time_runBlock scene pacing hrun
  · rw [hframes]
    exact time_leaveFrame pacing hleave

/-- **What a turn consumes**: nothing, or it runs an attempt to eat, and the walk has succeeded. -/
theorem Walk.consume_turn {walk walk' : Walk} {state state' : σ} {effects : List Effect}
    (h : walk.turn scene pacing state = some (effects, walk', state')) :
    (walk'.succeeded = false ∧ effects.filter (fun effect => effect = .call .consume) = [])
      ∨ (walk'.succeeded = true
        ∧ effects.filter (fun effect => effect = .call .consume) = [.call .consume]
        ∧ ∃ frame outer next, walk.frames = frame :: outer ∧ frame.next = .eat :: next
          ∧ walk'.frames = { frame with next } :: outer) := by
  obtain ⟨-, frame, outer, hframes, ⟨block, next, hnext, hrun⟩ | ⟨hnext, hleave, -⟩⟩ :=
    turn_cases scene pacing h
  · cases block with
    | eat =>
      by_cases hreach : (scene.distance state).1 < 50
      · rw [runBlock_eat_of_lt scene pacing _ hreach] at hrun
        obtain ⟨rfl, rfl, -⟩ := hrun
        exact .inr ⟨rfl, by simp, frame, outer, next, hframes, hnext, rfl⟩
      · rw [runBlock_eat_of_not_lt scene pacing _ hreach] at hrun
        obtain ⟨rfl, rfl, -⟩ := hrun
        exact .inl ⟨rfl, by simp⟩
    | start | loop count body =>
      obtain ⟨rfl, rfl, -⟩ := hrun
      exact .inl ⟨rfl, by simp⟩
    | move direction =>
      obtain ⟨rfl, rfl, -⟩ := hrun
      refine .inl ⟨rfl, ?_⟩
      by_cases hnear : (scene.distance (scene.move state direction)).1 < nearDistance <;>
        simp [hnear]
  · obtain ⟨kind, blocks, next⟩ := frame
    cases kind with
    | sequence =>
      obtain ⟨rfl, rfl⟩ := hleave
      exact .inl ⟨rfl, by simp⟩
    | loop iteration count =>
      by_cases hmore : iteration < count
      · simp only [leaveFrame, if_pos hmore] at hleave
        obtain ⟨rfl, rfl⟩ := hleave
        exact .inl ⟨rfl, by simp⟩
      · simp only [leaveFrame, if_neg hmore] at hleave
        obtain ⟨rfl, rfl⟩ := hleave
        exact .inl ⟨rfl, by simp⟩

end Turns

/-! ## Runs -/

/-- A walk through some blocks eats the target once, by an attempt inside of so many loops. -/
def Walk.EatsInside (scene : Scene σ) (pacing : Pacing) (blocks : List Block) (walk : Walk)
    (state : σ) (depth : Nat) : Prop :=
  ∃ path counts body index,
    (walk.placed scene pacing state).filter (fun entry => entry.2 = .call .consume)
        = [(path ++ [index], .call .consume)]
      ∧ Block.BodyAt blocks path counts body ∧ body[index]? = some .eat ∧ depth = counts.length

/-- In a run of lists of blocks one after another, all of them fail up to one that eats the target,
by an attempt inside of so many loops. -/
inductive Block.EatenWithin (scene : Scene σ) (pacing : Pacing) :
    List (List Block) → σ → Nat → Prop
  | first {blocks : List Block} {lists : List (List Block)} {state : σ} {depth : Nat}
      (h : (Walk.through blocks).EatsInside scene pacing blocks state depth) :
      EatenWithin scene pacing (blocks :: lists) state depth
  | later {blocks : List Block} {lists : List (List Block)} {state : σ} {depth : Nat}
      (hfails : (Block.runAll scene pacing blocks false state).2.1 = false)
      (h : EatenWithin scene pacing lists (Block.runAll scene pacing blocks false state).2.2
        depth) :
      EatenWithin scene pacing (blocks :: lists) state depth

/-- What a course takes that begins with some loops open: a rest for each move, for each iteration
announced and for each open loop, except for the loops that the target is eaten in. -/
def Course.Timed (pacing : Pacing) (opened : Nat) (eaten : Nat → Prop) (course : Course σ) : Prop :=
  ∃ rests depth, moves course.effects + repetitions course.effects + opened = rests + depth
    ∧ totalDuration course.effects = pacing.step * rests + pacing.celebrates course.succeeded
    ∧ (course.succeeded = false → depth = 0) ∧ (course.succeeded = true → eaten depth)

/-- Effects ahead of a course take their own time. -/
theorem Course.Timed.after {pacing : Pacing} {opened opened' : Nat} {eaten eaten' : Nat → Prop}
    {course : Course σ} (h : course.Timed pacing opened eaten) {earlier : List Effect} {rests : Nat}
    (hrests : moves earlier + repetitions earlier + opened' = rests + opened)
    (htime : totalDuration earlier = pacing.step * rests)
    (heaten : ∀ depth, eaten depth → eaten' depth) :
    (course.after earlier).Timed pacing opened' eaten' := by
  obtain ⟨more, depth, hcount, hduration, hfailed, hsucceeded⟩ := h
  refine ⟨rests + more, depth, ?_, ?_, hfailed, fun h => heaten depth (hsucceeded h)⟩
  · simp only [Course.after, Effect.moves_append, Effect.repetitions_append]
    omega
  · simp only [Course.after, Effect.totalDuration_append, htime, hduration, Nat.mul_add]
    omega

section Runs

variable (scene : Scene σ) (pacing : Pacing)

/-- Where a walk consumes the target is where its first turn does, or where the rest of it does. -/
theorem Walk.filter_placed {walk walk' : Walk} {state state' : σ} {effects : List Effect}
    (h : walk.turn scene pacing state = some (effects, walk', state')) :
    (walk.placed scene pacing state).filter (fun entry => entry.2 = .call .consume)
      = (effects.filter fun effect => effect = .call .consume).map (walk.place, ·)
        ++ (walk'.placed scene pacing state').filter (fun entry => entry.2 = .call .consume) := by
  rw [placed_of_turn_eq_some h, List.filter_append, List.filter_map]
  rfl

/-- **What a walk takes.** -/
theorem Walk.time_meaning {blocks : List Block} {walk : Walk} (h : walk.Nested blocks)
    (hbefore : walk.succeeded = false) (state : σ) :
    (walk.meaning scene pacing state).Timed pacing (openLoops walk.frames)
      (walk.EatsInside scene pacing blocks state) := by
  fun_induction placed scene pacing walk state with
  | case1 walk state hturn =>
    obtain hsucceeded | hnil := (turn_eq_none_iff scene pacing).1 hturn
    · exact absurd (hbefore.symm.trans hsucceeded) Bool.false_ne_true
    · rw [meaning_of_turn_eq_none scene pacing hturn, hbefore, hnil]
      exact ⟨0, 0, rfl, rfl, fun _ => rfl, fun h => absurd h Bool.false_ne_true⟩
  | case2 walk state effects walk' state' hturn ih =>
    obtain ⟨rests, hrests, htime⟩ := time_turn scene pacing hturn
    have hfilter := filter_placed scene pacing hturn
    rw [meaning_turn scene pacing hturn]
    rcases consume_turn scene pacing hturn with
      ⟨hfails, hnone⟩ | ⟨hover, hconsume, frame, outer, next, hframes, hnext, hframes'⟩
    · rw [hnone, List.map_nil, List.nil_append] at hfilter
      rw [hfails] at htime
      refine (ih (h.turn hturn) hfails).after hrests htime ?_
      rintro depth ⟨path, counts, body, index, hplaced, hbody⟩
      exact ⟨path, counts, body, index, hfilter.trans hplaced, hbody⟩
    · -- The loops around the attempt are those that are open, before and after it.
      obtain hnil | ⟨path, counts, hnested⟩ := h
      · rw [hnil] at hframes
        simp at hframes
      have hopen : openLoops walk'.frames = counts.length := by
        rw [hframes', ← hnested.openLoops_eq, hframes]
        rfl
      rw [hframes] at hnested
      have hplace : walk.place = path ++ [frame.index] := by
        rw [place, hframes, hnested.path_eq]
      have hlast : walk'.turn scene pacing state' = none :=
        (turn_eq_none_iff scene pacing).2 (.inl hover)
      have hmeaning : walk'.meaning scene pacing state' = ⟨[], true, state'⟩ := by
        rw [meaning_of_turn_eq_none scene pacing hlast, hover]
      rw [placed_of_turn_eq_none hlast, hconsume, hplace] at hfilter
      rw [hmeaning]
      refine ⟨rests, counts.length, ?_, ?_, fun h => absurd h.symm Bool.false_ne_true, fun _ => ?_⟩
      · rw [Course.after, List.append_nil, hrests, hopen]
      · rw [Course.after, List.append_nil, htime, hover]
      · exact ⟨path, counts, frame.blocks, frame.index, hfilter, hnested.bodyAt,
          (Frame.index_advance hnested.suffix hnext).1, rfl⟩

/-- **What some blocks take.** -/
theorem Block.time_meaningAll (blocks : List Block) (state : σ) :
    (Block.meaningAll scene pacing blocks state).Timed pacing 0
      ((Walk.through blocks).EatsInside scene pacing blocks state) := by
  have hwalk := Walk.time_meaning scene pacing (Walk.nested_through blocks) rfl state
  have hmeaning : (Walk.through blocks).meaning scene pacing state
      = Block.meaningAll scene pacing blocks state :=
    (Block.meaningFrom_eq scene pacing blocks false state).symm
  rwa [hmeaning] at hwalk

/-- **What lists of blocks take** one after another. -/
theorem Block.time_inTurn (lists : List (List Block)) (state : σ) :
    (Course.inTurn (lists.map (Block.meaningAll scene pacing)) state).Timed pacing 0
      (Block.EatenWithin scene pacing lists state) := by
  induction lists generalizing state with
  | nil => exact ⟨0, 0, rfl, rfl, fun _ => rfl, fun h => absurd h Bool.false_ne_true⟩
  | cons blocks lists ih =>
    have hfirst := Block.time_meaningAll scene pacing blocks state
    have hrun := Block.runAll_eq_meaningFrom scene pacing blocks false state
    obtain ⟨⟨effects, succeeded, next⟩, hcourse⟩ :
        ∃ course, Block.meaningFrom scene pacing blocks false state = course := ⟨_, rfl⟩
    have hmeaning : Block.meaningAll scene pacing blocks state = ⟨effects, succeeded, next⟩ :=
      hcourse
    rw [hcourse] at hrun
    rw [hmeaning] at hfirst
    obtain ⟨rests, depth, hcount, htime, hfailed, heaten⟩ := hfirst
    rw [List.map_cons, Course.inTurn, hmeaning]
    cases succeeded with
    | true => exact ⟨rests, depth, hcount, htime, hfailed, fun h => .first (heaten h)⟩
    | false =>
      obtain rfl : depth = 0 := hfailed rfl
      refine (ih next).after hcount htime fun depth hwithin => .later ?_ ?_
      · rw [hrun]
      · rwa [hrun]

/-- **What a program takes**: nothing if there is nothing to run, and else what its entry points
take one after another. -/
theorem Program.time_performance (program : Program) (state : σ) :
    (program.performance scene pacing state).Timed pacing 0
      (Block.EatenWithin scene pacing program.entryPoints state) := by
  obtain ⟨rests, depth, hcount, htime, hfailed, heaten⟩ :=
    Block.time_inTurn scene pacing program.entryPoints state
  rw [Program.performance_eq]
  split
  · exact ⟨0, 0, rfl, rfl, fun _ => rfl, fun h => absurd h Bool.false_ne_true⟩
  · refine ⟨rests, depth, ?_, ?_, hfailed, heaten⟩
    · rw [← hcount]
      simp [Program.course, moves, repetitions, Event.isRepetition]
    · refine Eq.trans ?_ htime
      simp [Program.course, totalDuration, Effect.duration, Effect.totalDuration_append]

end Runs

end BlockScript
