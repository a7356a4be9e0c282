import BlockScript.Proofs.Program.Places
import BlockScript.Proofs.Run.Eating

/-!
# Where a walk stands

The frames of a walk are nested as the blocks are: a frame above another runs the body of the loop
that the lower one has just passed.  So the frames name a place in the list that is run, and what
a turn does is done by the block at that place.

## What is here

* `Walk.turn_cases` — all that a turn can do: it runs the next block of the innermost frame, or it
  leaves a frame whose blocks have run out.
* `Frame.Nested` — frames are nested as the loops on a path to a body; `Walk.Nested.turn` says that
  every turn keeps this.
* `Frame.Nested.bodyAt` and `Frame.Nested.path_eq` — the innermost frame runs the body that the path
  leads to, and the path can be read off the frames.
* `Walk.place` and `Walk.placed` — where a walk stands, and the effects of a whole walk with the
  places at which they happen; `Walk.map_snd_placed` says that those are all its effects.
-/

set_option autoImplicit false
namespace BlockScript

variable {σ : Type}

/-! ## Turns -/

section Turns

variable (scene : Scene σ) (pacing : Pacing)

/-- **What a turn can do.**  It runs the next block of the innermost frame, or it leaves that frame
if its blocks have run out. -/
theorem Walk.turn_cases {walk walk' : Walk} {state state' : σ} {effects : List Effect}
    (h : walk.turn scene pacing state = some (effects, walk', state')) :
    walk.succeeded = false ∧ ∃ frame outer, walk.frames = frame :: outer
      ∧ ((∃ block next, frame.next = block :: next
            ∧ runBlock scene pacing ({ frame with next } :: outer) state block
              = (effects, walk', state'))
          ∨ (frame.next = [] ∧ leaveFrame pacing frame outer = (effects, walk')
            ∧ state' = state)) := by
  obtain ⟨frames, succeeded⟩ := walk
  cases succeeded with
  | true => simp [turn] at h
  | false =>
    cases frames with
    | nil => simp [turn] at h
    | cons frame outer =>
      refine ⟨rfl, frame, outer, rfl, ?_⟩
      cases hnext : frame.next with
      | nil =>
        simp only [turn, hnext, Bool.false_eq_true, if_false] at h
        obtain ⟨rfl, rfl, rfl⟩ := Option.some.inj h
        exact .inr ⟨rfl, rfl, rfl⟩
      | cons block next =>
        simp only [turn, hnext, Bool.false_eq_true, if_false] at h
        exact .inl ⟨block, next, rfl, Option.some.inj h⟩

/-- A walk is over if the target has been eaten or no frame is left. -/
theorem Walk.turn_eq_none_iff {walk : Walk} {state : σ} :
    walk.turn scene pacing state = none ↔ walk.succeeded = true ∨ walk.frames = [] := by
  obtain ⟨frames, succeeded⟩ := walk
  cases succeeded with
  | true => simp [turn]
  | false =>
    cases frames with
    | nil => simp [turn]
    | cons frame outer => cases hnext : frame.next <;> simp [turn, hnext]

/-- The frames after a block has been run: a loop adds the frame of its first iteration. -/
theorem Walk.frames_runBlock {frames : List Frame} {block : Block} {state state' : σ}
    {effects : List Effect} {walk : Walk}
    (h : runBlock scene pacing frames state block = (effects, walk, state')) :
    walk.frames = match block with
      | .loop count body => Frame.loop 1 count.val body :: frames
      | _ => frames := by
  cases block with
  | eat =>
    by_cases hreach : (scene.distance state).1 < 50
    · rw [runBlock_eat_of_lt scene pacing frames hreach] at h
      obtain ⟨-, rfl, -⟩ := h
      rfl
    · rw [runBlock_eat_of_not_lt scene pacing frames hreach] at h
      obtain ⟨-, rfl, -⟩ := h
      rfl
  | start | move direction | loop count body =>
    obtain ⟨-, rfl, -⟩ := h
    rfl

/-- The frames after a frame has been left: a loop begins its next iteration if one is left. -/
theorem Walk.frames_leaveFrame {frame : Frame} {outer : List Frame} {effects : List Effect}
    {walk : Walk} (h : leaveFrame pacing frame outer = (effects, walk)) :
    walk.frames = match frame.kind with
      | .sequence => outer
      | .loop iteration count =>
        if iteration < count then Frame.loop (iteration + 1) count frame.blocks :: outer
        else outer := by
  obtain rfl : (leaveFrame pacing frame outer).2 = walk := by rw [h]
  cases hkind : frame.kind with
  | sequence => simp [leaveFrame, hkind]
  | loop iteration count =>
    by_cases hlast : iteration < count <;> simp [leaveFrame, hkind, hlast]

end Turns

/-! ## Nested frames -/

namespace Frame

/-- The index of the block that a frame runs next. -/
def index (frame : Frame) : Nat := frame.blocks.length - frame.next.length

/-- The path from the bottom of some frames to the body that a frame above them runs: each of them
has just passed the loop that the next one is in. -/
def path (frames : List Frame) : List Nat := (frames.map fun frame => frame.index - 1).reverse

/-- Some frames run a list of blocks: at the bottom the list itself as a sequence, and above each
frame the body of the loop that it has just passed, in one of its iterations. -/
inductive Nested (blocks : List Block) : List Nat → List RepeatCount → List Frame → Prop
  | sequence {next : List Block} (hnext : next <:+ blocks) :
      Nested blocks [] [] [⟨.sequence, blocks, next⟩]
  | loop {path : List Nat} {counts : List RepeatCount} {outer : Frame} {frames : List Frame}
      {iteration : Nat} {count : RepeatCount} {body next : List Block}
      (h : Nested blocks path counts (outer :: frames)) (hindex : 0 < outer.index)
      (hloop : outer.blocks[outer.index - 1]? = some (.loop count body))
      (hfirst : 1 ≤ iteration) (hlast : iteration ≤ count.val) (hnext : next <:+ body) :
      Nested blocks (path ++ [outer.index - 1]) (counts ++ [count])
        (⟨.loop iteration count.val, body, next⟩ :: outer :: frames)

variable {blocks : List Block} {path : List Nat} {counts : List RepeatCount} {frame : Frame}
  {outer : List Frame}

/-- The innermost frame runs the body that the path leads to. -/
theorem Nested.bodyAt (h : Nested blocks path counts (frame :: outer)) :
    Block.BodyAt blocks path counts frame.blocks := by
  generalize hframes : frame :: outer = frames at h
  induction h generalizing frame outer with
  | sequence hnext =>
    obtain ⟨rfl, -⟩ := List.cons.inj hframes
    exact .top
  | loop h hindex hloop hfirst hlast hnext ih =>
    obtain ⟨rfl, -⟩ := List.cons.inj hframes
    exact (ih rfl).inside hloop

/-- The path can be read off the frames around the innermost one. -/
theorem Nested.path_eq (h : Nested blocks path counts (frame :: outer)) :
    path = Frame.path outer := by
  generalize hframes : frame :: outer = frames at h
  induction h generalizing frame outer with
  | sequence hnext =>
    obtain ⟨-, rfl⟩ := List.cons.inj hframes
    rfl
  | loop h hindex hloop hfirst hlast hnext ih =>
    obtain ⟨-, rfl⟩ := List.cons.inj hframes
    rw [ih rfl, Frame.path, Frame.path, List.map_cons, List.reverse_cons]

theorem Nested.suffix (h : Nested blocks path counts (frame :: outer)) :
    frame.next <:+ frame.blocks := by
  cases h with
  | sequence hnext => exact hnext
  | loop h hindex hloop hfirst hlast hnext => exact hnext

/-- A frame that has passed a block stands one further, behind that block. -/
theorem index_advance {block : Block} {next : List Block} (h : frame.next <:+ frame.blocks)
    (hnext : frame.next = block :: next) :
    frame.blocks[frame.index]? = some block ∧ index { frame with next } = frame.index + 1 := by
  obtain ⟨passed, hpassed⟩ := h
  have hindex : frame.index = passed.length := by
    rw [index, ← hpassed, List.length_append, Nat.add_sub_cancel]
  constructor
  · rw [hindex, ← hpassed, hnext]
    simp
  · have hlength : frame.blocks.length = passed.length + (next.length + 1) := by
      rw [← hpassed, hnext, List.length_append, List.length_cons]
    rw [hindex, index, hlength]
    show passed.length + (next.length + 1) - next.length = passed.length + 1
    omega

/-- Frames stay nested when the innermost one goes on. -/
theorem Nested.advance (h : Nested blocks path counts (frame :: outer)) {next : List Block}
    (hnext : next <:+ frame.next) : Nested blocks path counts ({ frame with next } :: outer) := by
  cases h with
  | sequence hbefore => exact .sequence (hnext.trans hbefore)
  | loop h hindex hloop hfirst hlast hbefore =>
    exact .loop h hindex hloop hfirst hlast (hnext.trans hbefore)

end Frame

/-- The frames of a walk run a list of blocks, or nothing is left to run. -/
def Walk.Nested (blocks : List Block) (walk : Walk) : Prop :=
  walk.frames = [] ∨ ∃ path counts, Frame.Nested blocks path counts walk.frames

/-- A walk through a list of blocks that has not begun. -/
def Walk.through (blocks : List Block) : Walk := { frames := [Frame.sequence blocks] }

theorem Walk.nested_through (blocks : List Block) : (Walk.through blocks).Nested blocks :=
  .inr ⟨[], [], .sequence (List.suffix_refl _)⟩

/-- **Every turn keeps the frames nested.** -/
theorem Walk.Nested.turn {scene : Scene σ} {pacing : Pacing} {blocks : List Block}
    {walk walk' : Walk} {state state' : σ} {effects : List Effect} (h : walk.Nested blocks)
    (hturn : walk.turn scene pacing state = some (effects, walk', state')) :
    walk'.Nested blocks := by
  obtain ⟨-, frame, outer, hframes, hcases⟩ := Walk.turn_cases scene pacing hturn
  obtain hnil | ⟨path, counts, hnested⟩ := h
  · rw [hnil] at hframes
    simp at hframes
  rw [hframes] at hnested
  rcases hcases with ⟨block, next, hnext, hrun⟩ | ⟨hnext, hleave, -⟩
  · -- The frame has passed the block, and a loop has put its own frame on top.
    have hgone := hnested.advance (hnext ▸ List.suffix_cons block next)
    obtain ⟨hblock, hindex⟩ := Frame.index_advance hnested.suffix hnext
    have hframes' := Walk.frames_runBlock scene pacing hrun
    cases block with
    | loop count body =>
      have hloop := Frame.Nested.loop hgone (by omega) (by rw [hindex]; exact hblock)
        (Nat.le_refl 1) count.pos (List.suffix_refl body)
      rw [Walk.Nested, hframes']
      exact .inr ⟨_, _, hloop⟩
    | start | move direction | eat =>
      rw [Walk.Nested, hframes']
      exact .inr ⟨_, _, hgone⟩
  · have hframes' := Walk.frames_leaveFrame pacing hleave
    cases hnested with
    | sequence hbefore => exact .inl hframes'
    | @loop path counts outer frames iteration count body next h hindex hloop hfirst hlast
        hbefore =>
      by_cases hmore : iteration < count.val
      · have hagain := Frame.Nested.loop h hindex hloop (Nat.le_add_left 1 iteration) hmore
          (List.suffix_refl body)
        simp only [hmore, if_true] at hframes'
        rw [Walk.Nested, hframes']
        exact .inr ⟨_, _, hagain⟩
      · simp only [hmore, if_false] at hframes'
        rw [Walk.Nested, hframes']
        exact .inr ⟨_, _, h⟩

/-! ## Effects with their places -/

/-- Where a walk stands: at the index of the next block of its innermost frame, on the path to the
body that this frame runs. -/
def Walk.place (walk : Walk) : List Nat :=
  match walk.frames with
  | [] => []
  | frame :: outer => Frame.path outer ++ [frame.index]

/-- All effects of a walk, each with the place at which the walk stood. -/
def Walk.placed (scene : Scene σ) (pacing : Pacing) (walk : Walk) (state : σ) :
    List (List Nat × Effect) :=
  match _h : walk.turn scene pacing state with
  | none => []
  | some (effects, walk', state') =>
    effects.map (walk.place, ·) ++ placed scene pacing walk' state'
termination_by walk.work
decreasing_by exact work_turn (by assumption)

theorem Walk.placed_of_turn_eq_none {scene : Scene σ} {pacing : Pacing} {walk : Walk} {state : σ}
    (h : walk.turn scene pacing state = none) : walk.placed scene pacing state = [] := by
  rw [placed]
  split
  · rfl
  · next heq => simp [h] at heq

theorem Walk.placed_of_turn_eq_some {scene : Scene σ} {pacing : Pacing} {walk walk' : Walk}
    {state state' : σ} {effects : List Effect}
    (h : walk.turn scene pacing state = some (effects, walk', state')) :
    walk.placed scene pacing state
      = effects.map (walk.place, ·) ++ walk'.placed scene pacing state' := by
  rw [placed]
  split
  · next heq => simp [h] at heq
  · next heq =>
    rw [h] at heq
    obtain ⟨rfl, rfl, rfl⟩ := Option.some.inj heq
    rfl

/-- **The effects with their places are the effects of the walk.** -/
theorem Walk.map_snd_placed (scene : Scene σ) (pacing : Pacing) (walk : Walk) (state : σ) :
    (walk.placed scene pacing state).map Prod.snd = (walk.meaning scene pacing state).effects := by
  fun_induction placed scene pacing walk state with
  | case1 walk state hturn => rw [meaning_of_turn_eq_none scene pacing hturn, List.map_nil]
  | case2 walk state effects walk' state' hturn ih =>
    rw [meaning_turn scene pacing hturn, List.map_append, ih, List.map_map]
    simp [Course.after, Function.comp_def]

end BlockScript
