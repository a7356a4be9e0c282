import BlockScript.Proofs.Run.Composition
import BlockScript.Proofs.Run.Visits

/-!
# Loops unrolled

A loop is an abbreviation: running it is running as many copies of its body as it counts, one after
another, and a success in any copy cuts off the others.  This file writes blocks out as a straight
line without loops and start blocks, and proves that the line does the same, except that nobody
announces iterations and that there are fewer rests.

## What is here

* `Block.unroll` and `Block.unrollAll` — blocks as a straight line; `Block.straight_unrollAll` says
  that only moves and attempts to eat are left.
* `Effect.isPlain` — whether an effect is neither a rest nor the announcement of an iteration.
* `Block.plain_meaning` and `Block.plain_meaningAll` — blocks do as their line does, by induction on
  the blocks; a round of a loop does as its body does (`Course.plain_iteration`).
* `Block.unrolling_preserves_meaning` — **unrolling preserves meaning**, and so every move acts as
  often as the product of the counts around it says, if the target is not eaten.
-/

set_option autoImplicit false
namespace BlockScript

variable {σ : Type}

/-! ## Straight lines -/

namespace Block

mutual

/-- A block as a straight line: a loop is replaced by as many copies of its body, unrolled, as it
counts, and a start block by nothing. -/
def unroll : Block → List Block
  | .start => []
  | .move direction => [.move direction]
  | .eat => [.eat]
  | .loop count body => (List.replicate count.val (unrollAll body)).flatten

/-- Some blocks as a straight line. -/
def unrollAll : List Block → List Block
  | [] => []
  | block :: blocks => block.unroll ++ unrollAll blocks

end

/-- Whether a block is a move or an attempt to eat. -/
def isStraight : Block → Bool
  | .move _ | .eat => true
  | .start | .loop .. => false

mutual

theorem straight_unroll : ∀ (block step : Block), step ∈ block.unroll → step.isStraight = true
  | .start, step, h => absurd h (by simp [unroll])
  | .move direction, step, h => by
    obtain rfl : step = .move direction := by simpa [unroll] using h
    rfl
  | .eat, step, h => by
    obtain rfl : step = .eat := by simpa [unroll] using h
    rfl
  | .loop count body, step, h => by
    rw [unroll] at h
    obtain ⟨copy, hcopy, hstep⟩ := List.mem_flatten.1 h
    rw [List.eq_of_mem_replicate hcopy] at hstep
    exact straight_unrollAll body step hstep

/-- Only moves and attempts to eat are left in a straight line. -/
theorem straight_unrollAll :
    ∀ (blocks : List Block) (step : Block), step ∈ unrollAll blocks → step.isStraight = true
  | [], step, h => absurd h (by simp [unrollAll])
  | block :: blocks, step, h => by
    rw [unrollAll] at h
    rcases List.mem_append.1 h with h | h
    · exact straight_unroll block step h
    · exact straight_unrollAll blocks step h

end

end Block

/-! ## Plain effects -/

namespace Effect

/-- Whether an effect is neither a rest nor the announcement of an iteration. -/
def isPlain : Effect → Bool
  | .call _ => true
  | .emit event => !event.isRepetition
  | .rest _ => false

@[simp] theorem isPlain_call (use : Scene.Call) : (call use).isPlain = true := rfl

@[simp] theorem isPlain_emit (report : Event) : (emit report).isPlain = !report.isRepetition := rfl

@[simp] theorem isPlain_rest (duration : Nat) : (rest duration).isPlain = false := rfl

theorem calls_filter_isPlain (effects : List Effect) :
    calls (effects.filter isPlain) = calls effects := by
  refine filterMap_filter_of_rest (fun effect h => ?_) effects
  cases effect with
  | call use => simp [isPlain] at h
  | emit event => rfl
  | rest duration => rfl

theorem events_filter_isPlain (effects : List Effect) :
    events (effects.filter isPlain) = (events effects).filter (!·.isRepetition) := by
  induction effects with
  | nil => rfl
  | cons effect effects ih =>
    cases effect with
    | call use => simp [List.filter_cons, ih]
    | emit event => cases hevent : event.isRepetition <;> simp [hevent, ih]
    | rest duration => simp [ih]

end Effect

namespace Course

/-- **A round of a loop does as its body does**, apart from its announcement and the rest after
it. -/
theorem plain_iteration (rest count number : Nat) (body : σ → Course σ) (state : σ) :
    (iteration rest count body number state).only Effect.isPlain
      = (body state).only Effect.isPlain := by
  have hrest : ∀ state : σ, (⟨[.rest rest], false, state⟩ : Course σ).only Effect.isPlain
      = (idle state).only Effect.isPlain := fun _ => rfl
  rw [iteration, only_after, only_andThen_congr rfl hrest, andThen_idle]
  rfl

end Course

/-! ## Blocks and their lines -/

section Meaning

variable (scene : Scene σ) (pacing : Pacing)

/-- A move or an attempt to eat announces nothing. -/
theorem Block.plain_meaning_single {block : Block} (hstraight : block.isStraight = true)
    (state : σ) :
    (block.meaning scene pacing state).only Effect.isPlain
      = (Block.meaningAll scene pacing [block] state).deeds := by
  have hsingle : Block.meaningAll scene pacing [block] state = block.meaning scene pacing state :=
    Course.andThen_idle _
  rw [hsingle]
  cases block with
  | move direction =>
    by_cases hnear : (scene.distance (scene.move state direction)).1 < 60 <;>
      simp [Block.meaning, Course.only, Course.deeds, List.filter_cons, Event.isRepetition, hnear]
  | eat =>
    by_cases hreach : (scene.distance state).1 < 50
    · rw [Block.meaning_eat_of_lt scene pacing hreach]
      rfl
    · rw [Block.meaning_eat_of_not_lt scene pacing hreach]
      rfl
  | start | loop count body => simp [Block.isStraight] at hstraight

mutual

theorem Block.plain_meaning : ∀ (block : Block) (state : σ),
    (block.meaning scene pacing state).only Effect.isPlain
      = (Block.meaningAll scene pacing block.unroll state).deeds
  | .start, _ => rfl
  | .move _, state => Block.plain_meaning_single scene pacing rfl state
  | .eat, state => Block.plain_meaning_single scene pacing rfl state
  | .loop count body, state => by
    -- A straight line has the copies of the body in the places of the rounds.
    have hcopies : List.replicate count.val (Block.unrollAll body)
        = (List.range' 1 count.val).map fun _ => Block.unrollAll body := by
      rw [List.map_const', List.length_range']
    rw [Block.unroll, Block.meaningAll_flatten, hcopies, List.map_map]
    refine Course.only_inTurn_map (fun number state => ?_) _ state
    rw [Course.plain_iteration]
    exact Block.plain_meaningAll body state

/-- **Blocks do as their straight line does**, apart from rests and announcements. -/
theorem Block.plain_meaningAll : ∀ (blocks : List Block) (state : σ),
    (Block.meaningAll scene pacing blocks state).only Effect.isPlain
      = (Block.meaningAll scene pacing (Block.unrollAll blocks) state).deeds
  | [], _ => rfl
  | block :: blocks, state => by
    rw [Block.unrollAll, Block.meaningAll_append]
    exact Course.only_andThen_congr (Block.plain_meaning block state)
      (Block.plain_meaningAll blocks)

end

/-- The same holds of runs that may have succeeded before they begin. -/
theorem Block.plain_meaningFrom (blocks : List Block) (succeeded : Bool) (state : σ) :
    (Block.meaningFrom scene pacing blocks succeeded state).only Effect.isPlain
      = (Block.meaningFrom scene pacing (Block.unrollAll blocks) succeeded state).deeds := by
  cases succeeded with
  | true => rfl
  | false => exact Block.plain_meaningAll scene pacing blocks state

/-- **Unrolling preserves meaning.**  A list of blocks uses the scene as its straight line does,
leaves the same success and the same scene, and reports the same events apart from announcements of
iterations, with calls and events in the same order.  Each of its uses of a move is due to a move
block at some place; and if it ends without success, every move block has acted as often as the
product of the counts of the loops around it says. -/
theorem Block.unrolling_preserves_meaning (blocks : List Block) (succeeded : Bool) (state : σ) :
    let run := Block.runAll scene pacing blocks succeeded state
    let line := Block.runAll scene pacing (Block.unrollAll blocks) succeeded state
    let placed := Walk.placed scene pacing { Walk.through blocks with succeeded } state
    (∀ step ∈ Block.unrollAll blocks, step.isStraight = true)
      ∧ Effect.calls run.1 = Effect.calls line.1
      ∧ run.2 = line.2
      ∧ (Effect.events run.1).filter (!·.isRepetition) = Effect.events line.1
      ∧ run.1.filter Effect.isPlain = line.1.filter (!·.isRest)
      ∧ placed.map Prod.snd = run.1
      ∧ (∀ place direction, (place, .call (.move direction)) ∈ placed →
          Block.At blocks place (.move direction))
      ∧ (run.2.1 = false → ∀ path counts body index direction,
          Block.BodyAt blocks path counts body → body[index]? = some (.move direction) →
          placed.count (path ++ [index], .call (.move direction))
            = RepeatCount.product counts) := by
  have hmeaning : Walk.meaning scene pacing { Walk.through blocks with succeeded } state
      = Block.meaningFrom scene pacing blocks succeeded state :=
    (Block.meaningFrom_eq scene pacing blocks succeeded state).symm
  have hplain := Block.plain_meaningFrom scene pacing blocks succeeded state
  have heffects : (Block.meaningFrom scene pacing blocks succeeded state).effects.filter
        Effect.isPlain
      = (Block.meaningFrom scene pacing (Block.unrollAll blocks) succeeded state).deeds.effects :=
    congrArg (fun course => course.effects) hplain
  simp only [Block.runAll_eq_meaningFrom]
  refine ⟨Block.straight_unrollAll blocks, ?_, ?_, ?_, heffects, ?_, ?_, ?_⟩
  · rw [← Effect.calls_filter_isPlain, heffects, Course.calls_deeds]
  · exact congrArg (fun course => (course.succeeded, course.state)) hplain
  · rw [← Effect.events_filter_isPlain, heffects, Course.events_deeds]
  · rw [Walk.map_snd_placed, hmeaning]
  · intro place direction hmem
    obtain ⟨left, hleft, -⟩ := @Walk.count_placed_through _ direction scene pacing blocks succeeded
      state place
    refine Block.at_of_movesAt_pos ?_
    rw [hleft]
    exact Nat.add_pos_left (List.count_pos_iff.2 hmem) left
  · intro hexhausted path counts body index direction hbody hmove
    obtain ⟨left, hleft, hnone⟩ := @Walk.count_placed_through _ direction scene pacing blocks
      succeeded state (path ++ [index])
    rw [hmeaning] at hnone
    rw [← Block.movesAt_of_bodyAt hbody hmove, hleft, hnone hexhausted, Nat.add_zero]

end Meaning

/-- A loop with a move, and in it another loop with a move and an attempt to eat. -/
def Block.loopInLoop : List Block :=
  [.loop ⟨3, by decide, by decide⟩ [.move .right, .loop .standard [.move .up, .eat]]]

/-- The inner move of a loop that runs four times, in one that runs three times, acts twelve
times. -/
theorem Block.inner_move_acts_twelve_times :
    (Block.runAll Scene.rehearsal .instant Block.loopInLoop false []).2.1 = false
      ∧ Block.BodyAt Block.loopInLoop [0, 1] [⟨3, by decide, by decide⟩, .standard]
          [.move .up, .eat]
      ∧ (Walk.placed Scene.rehearsal .instant (Walk.through Block.loopInLoop) []).count
          ([0, 1, 0], .call (.move .up)) = 12 := by
  have hexhausted : (Block.runAll Scene.rehearsal .instant Block.loopInLoop false []).2.1
      = false := by
    rw [Block.runAll_eq_meaningFrom]
    decide +kernel
  have hbody : Block.BodyAt Block.loopInLoop [0, 1]
      [⟨3, by decide, by decide⟩, .standard] [.move .up, .eat] :=
    (Block.BodyAt.top.inside rfl).inside rfl
  obtain ⟨-, -, -, -, -, -, -, hacts⟩ :=
    Block.unrolling_preserves_meaning Scene.rehearsal .instant Block.loopInLoop false []
  exact ⟨hexhausted, hbody, hacts hexhausted [0, 1] _ _ 0 .up hbody rfl⟩

end BlockScript
