import BlockScript.Block
import BlockScript.Pacing
import BlockScript.Run.Event
import BlockScript.Scene

/-!
# Walking through blocks

Blocks are run with a list of frames: one for the sequence that is run, and one for every loop
around the current block. A turn of the walk runs one block, or deals with a frame whose blocks
have run out. An eat attempt that succeeds ends the walk whatever frames are left.

## What is here

* `Effect` — what a run does that can be noticed from outside: it uses the scene, reports an
  event, or rests.
* `Frame` and `Walk` — what is left to run; `Walk.work` measures it.
* `Walk.turn` — one turn; `Walk.work_turn` says that it leaves less to do.
* `Walk.run` — all turns, with the effects in order.
-/

set_option autoImplicit false
namespace BlockScript

/-- A move that ends closer to the target than this is reported. -/
def nearDistance : Float := 60

/-- An eat attempt succeeds if the target is closer than this. -/
def eatDistance : Float := 50

/-- What a run does that can be noticed from outside. -/
inductive Effect where
  /-- It uses the scene. -/
  | call (call : Scene.Call)
  /-- It reports an event. -/
  | emit (event : Event)
  /-- It rests for some milliseconds; a rest of none is no rest. -/
  | rest (duration : Nat)
  deriving DecidableEq

/-- Why a frame runs its blocks. -/
inductive Frame.Kind where
  /-- Once, as a sequence. -/
  | sequence
  /-- As the body of a loop, in an iteration counted from one. -/
  | loop (iteration count : Nat)
  deriving DecidableEq

/-- Blocks that are being run. -/
structure Frame where
  kind : Frame.Kind
  /-- All blocks of the frame. -/
  blocks : List Block
  /-- The blocks that come next. -/
  next : List Block

/-- A frame that runs blocks once. -/
def Frame.sequence (blocks : List Block) : Frame := ⟨.sequence, blocks, blocks⟩

/-- A frame in an iteration of a loop, before the first block of its body. -/
def Frame.loop (iteration count : Nat) (body : List Block) : Frame :=
  ⟨.loop iteration count, body, body⟩

/-- What is left to run. -/
structure Walk where
  /-- The frames, the innermost first. -/
  frames : List Frame
  /-- Whether the target has been eaten. -/
  succeeded : Bool := false

/-! ## The work that is left -/

mutual

/-- The number of turns that a block takes at most. -/
def Block.work : Block → Nat
  | .start => 1
  | .move _ => 1
  | .eat => 1
  | .loop count body => 1 + count.val * (Block.workAll body + 1)

/-- The number of turns that some blocks take at most. -/
def Block.workAll : List Block → Nat
  | [] => 0
  | b :: bs => b.work + Block.workAll bs

end

/-- The number of turns that a frame takes at most. -/
def Frame.work (frame : Frame) : Nat :=
  match frame.kind with
  | .sequence => Block.workAll frame.next + 1
  | .loop iteration count =>
    Block.workAll frame.next + 1 + (count - iteration) * (Block.workAll frame.blocks + 1)

/-- The number of turns that some frames take at most. -/
def Frame.workAll : List Frame → Nat
  | [] => 0
  | frame :: frames => frame.work + Frame.workAll frames

/-- The number of turns that a walk takes at most. -/
def Walk.work (walk : Walk) : Nat := Frame.workAll walk.frames

namespace Walk

variable {σ : Type}

/-! ## Turns -/

/-- The outcome if the walk ended here. -/
def outcome (walk : Walk) : Outcome := if walk.succeeded then .succeeded else .exhausted

/-- Runs one block, with the frames that are left around it. -/
def runBlock (scene : Scene σ) (pacing : Pacing) (frames : List Frame) (state : σ) :
    Block → List Effect × Walk × σ
  | .start => ([], { frames }, state)
  | .move direction =>
    let (answer, state) := scene.distance (scene.move state direction)
    let report := if answer < nearDistance then [.emit (.nearTarget answer)] else []
    ([.call (.move direction), .call (.distance answer)] ++ report ++ [.rest pacing.step],
      { frames }, state)
  | .eat =>
    let (answer, state) := scene.distance state
    if answer < eatDistance then
      ([.call (.distance answer), .call .consume, .emit .targetEaten, .rest pacing.celebration],
        { frames, succeeded := true }, scene.consume state)
    else ([.call (.distance answer), .emit (.tooFar answer)], { frames }, state)
  | .loop count body =>
    ([.emit (.repetition 1 count.val)], { frames := Frame.loop 1 count.val body :: frames }, state)

/-- Deals with a frame whose blocks have run out: an iteration of a loop ends with a rest, after
which the next one begins if there is one left. -/
def leaveFrame (pacing : Pacing) (frame : Frame) (frames : List Frame) : List Effect × Walk :=
  match frame.kind with
  | .sequence => ([], { frames })
  | .loop iteration count =>
    if iteration < count then
      ([.rest pacing.step, .emit (.repetition (iteration + 1) count)],
        { frames := Frame.loop (iteration + 1) count frame.blocks :: frames })
    else ([.rest pacing.step], { frames })

/-- One turn of a walk; nothing if the walk is over. -/
def turn (scene : Scene σ) (pacing : Pacing) (walk : Walk) (state : σ) :
    Option (List Effect × Walk × σ) :=
  if walk.succeeded then none
  else
    match walk.frames with
    | [] => none
    | frame :: frames =>
      match frame.next with
      | [] =>
        let (effects, walk) := leaveFrame pacing frame frames
        some (effects, walk, state)
      | block :: next => some (runBlock scene pacing ({ frame with next } :: frames) state block)

theorem work_runBlock (scene : Scene σ) (pacing : Pacing) (frames : List Frame) (state : σ)
    (block : Block) :
    (runBlock scene pacing frames state block).2.1.work + 1
      ≤ block.work + Frame.workAll frames := by
  cases block with
  | start => simp only [runBlock, work, Block.work]; omega
  | move direction => simp only [runBlock, work, Block.work]; omega
  | eat => simp only [runBlock, work, Block.work]; split <;> (simp only; omega)
  | loop count body =>
    obtain ⟨n, hn⟩ : ∃ n, count.val = n + 1 := ⟨count.val - 1, by have := count.pos; omega⟩
    simp only [runBlock, work, Block.work, Frame.workAll, Frame.work, Frame.loop, hn,
      Nat.add_sub_cancel, Nat.succ_mul]
    omega

theorem work_leaveFrame (pacing : Pacing) (frame : Frame) (frames : List Frame)
    (h : frame.next = []) :
    (leaveFrame pacing frame frames).2.work + 1
      ≤ frame.work + Frame.workAll frames := by
  unfold leaveFrame
  split
  · rename_i heq
    simp only [work, Frame.work, heq]
    omega
  · rename_i iteration count heq
    split
    · obtain ⟨n, hn⟩ : ∃ n, count - iteration = n + 1 := ⟨count - iteration - 1, by omega⟩
      have hn' : count - (iteration + 1) = n := by omega
      simp only [work, Frame.workAll, Frame.work, Frame.loop, heq, h, Block.workAll, hn, hn',
        Nat.succ_mul]
      omega
    · simp only [work, Frame.work, heq]
      omega

/-- Every turn leaves less to do. -/
theorem work_turn {scene : Scene σ} {pacing : Pacing} {walk walk' : Walk} {state state' : σ}
    {effects : List Effect} (h : walk.turn scene pacing state = some (effects, walk', state')) :
    walk'.work < walk.work := by
  unfold turn at h
  split at h
  · simp at h
  · split at h
    · simp at h
    · rename_i frame frames hframes
      have hwork : walk.work = frame.work + Frame.workAll frames := by
        simp only [work, hframes, Frame.workAll]
      split at h
      · rename_i hnext
        have := work_leaveFrame pacing frame frames hnext
        simp only [Option.some.injEq, Prod.mk.injEq] at h
        obtain ⟨-, rfl, -⟩ := h
        omega
      · rename_i block next hnext
        have hblock := work_runBlock scene pacing ({ frame with next } :: frames) state block
        simp only [Option.some.injEq] at h
        rw [h] at hblock
        have hframe : block.work + Frame.work { frame with next } = frame.work := by
          simp only [Frame.work, hnext, Block.workAll]
          split <;> omega
        simp only [Frame.workAll] at hblock
        omega

theorem length_runBlock (scene : Scene σ) (pacing : Pacing) (frames : List Frame) (state : σ)
    (block : Block) : (runBlock scene pacing frames state block).1.length ≤ 4 := by
  cases block with
  | start => simp [runBlock]
  | move direction => simp only [runBlock]; split <;> simp
  | eat => simp only [runBlock]; split <;> simp
  | loop count body => simp [runBlock]

/-- Every turn has at most four effects. -/
theorem length_turn {scene : Scene σ} {pacing : Pacing} {walk walk' : Walk} {state state' : σ}
    {effects : List Effect} (h : walk.turn scene pacing state = some (effects, walk', state')) :
    effects.length ≤ 4 := by
  unfold turn at h
  split at h
  · simp at h
  · split at h
    · simp at h
    · split at h
      · simp only [Option.some.injEq, Prod.mk.injEq] at h
        obtain ⟨rfl, -⟩ := h
        unfold leaveFrame
        split
        · simp
        · split <;> simp
      · rename_i frame frames _ _ block next hnext
        have hlength := length_runBlock scene pacing ({ frame with next } :: frames) state block
        simp only [Option.some.injEq] at h
        rwa [h] at hlength

/-! ## All turns -/

/-- Runs a walk to its end, after the effects so far. -/
def runFrom (scene : Scene σ) (pacing : Pacing) (effects : Array Effect) (walk : Walk)
    (state : σ) : Array Effect × Walk × σ :=
  match _h : walk.turn scene pacing state with
  | none => (effects, walk, state)
  | some (more, walk, state) => runFrom scene pacing (effects ++ more) walk state
termination_by walk.work
decreasing_by exact work_turn (by assumption)

/-- Runs a walk to its end: the effects in order, the walk as it ends, and the state it leaves. -/
def run (scene : Scene σ) (pacing : Pacing) (walk : Walk) (state : σ) :
    List Effect × Walk × σ :=
  let (effects, walk, state) := walk.runFrom scene pacing #[] state
  (effects.toList, walk, state)

end Walk

/-- Runs a list of blocks once. The target may have been eaten already, and then nothing runs.
Gives the effects in order, whether the target has been eaten at the end, and the state left. -/
def Block.runAll {σ : Type} (scene : Scene σ) (pacing : Pacing) (blocks : List Block)
    (succeeded : Bool) (state : σ) : List Effect × Bool × σ :=
  let walk : Walk := { frames := [Frame.sequence blocks], succeeded }
  let (effects, walk, state) := walk.run scene pacing state
  (effects, walk.succeeded, state)

end BlockScript
