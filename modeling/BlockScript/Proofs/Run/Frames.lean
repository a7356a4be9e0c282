import BlockScript.Proofs.Run.Position

/-!
# The frames of a walk

A loop begins its body anew in every iteration, and nothing that its frame holds gets smaller then
but the number of iterations ahead.  So the end of a walk has to be told from all of its frames at
once, and `Walk.work` does that as long as no frame is beyond the last iteration of its loop.  This
file says what the frames of a walk look like at any time, and that they come to an end.

## What is here

* `Block.nestingAll` — how deep loops nest in some blocks; `Block.BodyAt.nesting_le` says that a
  path can go down no deeper.
* `Frame.Nested.drop` — what holds of the frames of a walk holds of those below any of them.
* `Walk.InOrder` — what the frames of a walk look like, and `Walk.Nested.inOrder`.
* `Walk.Reaches` — where a walk comes to, turn by turn; `Walk.reaches_runFrom` says that the walk
  comes to its end.
* `Block.walk_in_order` — **a walk ends, and its frames are in order all the time**.
-/

set_option autoImplicit false
namespace BlockScript

variable {σ : Type}

/-! ## How deep loops nest -/

namespace Block

mutual

/-- How deep loops nest in a block, the block itself included. -/
def nesting : Block → Nat
  | .start => 0
  | .move _ => 0
  | .eat => 0
  | .loop _ body => nestingAll body + 1

/-- How deep loops nest in some blocks. -/
def nestingAll : List Block → Nat
  | [] => 0
  | b :: bs => max b.nesting (nestingAll bs)

end

variable {blocks body : List Block} {block : Block} {path : List Nat} {counts : List RepeatCount}

theorem nesting_le_of_mem (h : block ∈ blocks) : block.nesting ≤ nestingAll blocks := by
  induction blocks with
  | nil => cases h
  | cons first blocks ih =>
    rw [nestingAll]
    rcases List.mem_cons.1 h with rfl | hlater
    · exact Nat.le_max_left _ _
    · exact Nat.le_trans (ih hlater) (Nat.le_max_right _ _)

/-- A path goes down no deeper than loops nest. -/
theorem BodyAt.nesting_le (h : BodyAt blocks path counts body) :
    nestingAll body + path.length ≤ nestingAll blocks := by
  induction h with
  | top => exact Nat.le_refl _
  | inside h hloop ih =>
    have hinner := nesting_le_of_mem (List.mem_of_getElem? hloop)
    rw [nesting] at hinner
    rw [List.length_append, List.length_singleton]
    omega

end Block

/-! ## Nested frames -/

namespace Frame

variable {blocks : List Block} {path : List Nat} {counts : List RepeatCount} {frame : Frame}
  {frames front back : List Frame}

/-- There is one frame for every loop on the path, and one at the bottom. -/
theorem Nested.length_eq (h : Nested blocks path counts frames) :
    frames.length = path.length + 1 := by
  induction h with
  | sequence hnext => rfl
  | loop h hindex hloop hfirst hlast hnext ih =>
    rw [List.length_cons, ih, List.length_append, List.length_singleton]

/-- **Some frames below a frame, and the frame itself, are nested like all of them.** -/
theorem Nested.drop (h : Nested blocks path counts (front ++ frame :: back)) :
    ∃ path counts, Nested blocks path counts (frame :: back) := by
  induction front generalizing path counts with
  | nil => exact ⟨path, counts, h⟩
  | cons inner front ih =>
    generalize houter : front ++ frame :: back = outer at h
    rw [List.cons_append, houter] at h
    cases h with
    | sequence hnext => simp at houter
    | loop h hindex hloop hfirst hlast hnext => exact ih (houter ▸ h)

/-- The blocks that a frame runs next are those from its index on. -/
theorem Nested.next_eq (h : Nested blocks path counts (frame :: back)) :
    frame.index ≤ frame.blocks.length ∧ frame.next = frame.blocks.drop frame.index := by
  have hindex : frame.index = frame.blocks.length - frame.next.length := rfl
  refine ⟨hindex ▸ Nat.sub_le _ _, ?_⟩
  rw [hindex]
  exact List.suffix_iff_eq_drop.1 h.suffix

end Frame

/-! ## Frames in order -/

/-- The frames of a walk through some blocks, as they are at any time. -/
structure Walk.InOrder (blocks : List Block) (walk : Walk) : Prop where
  /-- There is at most one frame more than loops nest. -/
  height : walk.frames.length ≤ Block.nestingAll blocks + 1
  /-- The frame at the bottom runs the blocks as a sequence, and no other frame runs a sequence. -/
  bottom : ∀ front frame back, walk.frames = front ++ frame :: back →
    (frame.kind = .sequence ↔ back = []) ∧ (back = [] → frame.blocks = blocks)
  /-- No frame has come further than to the end of its blocks. -/
  index : ∀ frame ∈ walk.frames,
    frame.index ≤ frame.blocks.length ∧ frame.next = frame.blocks.drop frame.index
  /-- A loop is in one of its iterations, and their number fits 32 bits. -/
  iteration : ∀ frame ∈ walk.frames, ∀ iteration count, frame.kind = .loop iteration count →
    1 ≤ iteration ∧ iteration ≤ count ∧ count ≤ 4294967295
  /-- A frame above another one runs the body of the loop that stands just before the index of the
  other one, as often as that loop says. -/
  above : ∀ front inner outer back, walk.frames = front ++ inner :: outer :: back →
    0 < outer.index ∧ ∃ iteration count,
      outer.blocks[outer.index - 1]? = some (.loop count inner.blocks)
        ∧ inner.kind = .loop iteration count.val

/-- **Nested frames are in order.** -/
theorem Walk.Nested.inOrder {blocks : List Block} {walk : Walk} (h : walk.Nested blocks) :
    walk.InOrder blocks := by
  obtain ⟨frames, succeeded⟩ := walk
  obtain hnil | ⟨path, counts, hnested⟩ := h
  · obtain rfl : frames = [] := hnil
    exact ⟨Nat.zero_le _, by simp, by simp, by simp, by simp⟩
  · have hbelow : ∀ {front frame back}, frames = front ++ frame :: back →
        ∃ path counts, Frame.Nested blocks path counts (frame :: back) := by
      rintro front frame back rfl
      exact hnested.drop
    constructor
    case height =>
      cases frames with
      | nil => exact Nat.zero_le _
      | cons frame outer =>
        have hdeep := hnested.bodyAt.nesting_le
        have hlength := hnested.length_eq
        rw [hlength]
        omega
    case bottom =>
      intro front frame back hframes
      obtain ⟨path, counts, hframe⟩ := hbelow hframes
      cases hframe with
      | sequence hnext => simp
      | loop h hindex hloop hfirst hlast hnext => simp
    case index =>
      intro frame hmem
      obtain ⟨front, back, hframes⟩ := List.append_of_mem hmem
      obtain ⟨path, counts, hframe⟩ := hbelow hframes
      exact hframe.next_eq
    case iteration =>
      intro frame hmem iteration count hkind
      obtain ⟨front, back, hframes⟩ := List.append_of_mem hmem
      obtain ⟨path, counts, hframe⟩ := hbelow hframes
      cases hframe with
      | sequence hnext => cases hkind
      | @loop path counts outer others iteration' count' body next h hindex hloop hfirst hlast
          hnext =>
        obtain ⟨rfl, rfl⟩ := Frame.Kind.loop.inj hkind
        exact ⟨hfirst, hlast, count'.le_maximum⟩
    case above =>
      intro front inner outer back hframes
      obtain ⟨path, counts, hframe⟩ := hbelow hframes
      cases hframe with
      | loop h hindex hloop hfirst hlast hnext => exact ⟨hindex, _, _, hloop, rfl⟩

/-! ## Turn by turn -/

section Turns

variable (scene : Scene σ) (pacing : Pacing)

/-- Where a walk comes to after a number of turns, and the effects of these turns. -/
inductive Walk.Reaches (start : Walk) (before : σ) : Nat → List Effect → Walk → σ → Prop where
  | start : Reaches start before 0 [] start before
  | turn {turns : Nat} {effects more : List Effect} {walk walk' : Walk} {state state' : σ}
      (h : Reaches start before turns effects walk state)
      (hturn : walk.turn scene pacing state = some (more, walk', state')) :
      Reaches start before (turns + 1) (effects ++ more) walk' state'

variable {scene pacing} {blocks : List Block} {start walk : Walk} {before state : σ}
  {turns : Nat} {effects : List Effect}

/-- A walk takes no more turns than its work says. -/
theorem Walk.Reaches.work_le (h : start.Reaches scene pacing before turns effects walk state) :
    turns + walk.work ≤ start.work := by
  induction h with
  | start => exact Nat.le_of_eq (Nat.zero_add _)
  | turn h hturn ih =>
    have hless := work_turn hturn
    omega

/-- Frames stay nested wherever a walk comes to. -/
theorem Walk.Reaches.nested (h : start.Reaches scene pacing before turns effects walk state)
    (hstart : start.Nested blocks) : walk.Nested blocks := by
  induction h with
  | start => exact hstart
  | turn h hturn ih => exact ih.turn hturn

/-- **All the turns of a walk lead to its end.** -/
theorem Walk.reaches_runFrom {earlier : Array Effect}
    (h : start.Reaches scene pacing before turns earlier.toList walk state) :
    ∃ turns effects last final, walk.runFrom scene pacing earlier state = (effects, last, final)
      ∧ start.Reaches scene pacing before turns effects.toList last final
      ∧ last.turn scene pacing final = none := by
  fun_induction runFrom scene pacing earlier walk state generalizing turns with
  | case1 earlier walk state hturn => exact ⟨turns, earlier, walk, state, rfl, h, hturn⟩
  | case2 earlier walk state more walk' state' hturn ih =>
    have hnext : start.Reaches scene pacing before (turns + 1) (earlier ++ more).toList walk'
        state' := by
      rw [Array.toList_appendList]
      exact h.turn hturn
    exact ih hnext

/-! ## Iterations that are reported -/

/-- A block reports an iteration only if it is a loop, whose first one it is. -/
theorem Walk.loop_of_runBlock {frames : List Frame} {block : Block} {iteration count : Nat}
    (h : .emit (.repetition iteration count) ∈ (runBlock scene pacing frames state block).1) :
    iteration = 1 ∧ ∃ own body, block = .loop own body ∧ count = own.val := by
  cases block with
  | start => simp [runBlock] at h
  | move direction =>
    simp only [runBlock] at h
    split at h <;> simp at h
  | eat =>
    simp only [runBlock] at h
    split at h <;> simp at h
  | loop own body =>
    obtain ⟨rfl, rfl⟩ : iteration = 1 ∧ count = own.val := by simpa [runBlock] using h
    exact ⟨rfl, own, body, rfl, rfl⟩

/-- A frame that is left reports an iteration only if it is in the one before it, and there is one
left. -/
theorem Walk.loop_of_leaveFrame {frame : Frame} {outer : List Frame} {iteration count : Nat}
    (h : .emit (.repetition iteration count) ∈ (leaveFrame pacing frame outer).1) :
    ∃ current, frame.kind = .loop current count ∧ current < count ∧ iteration = current + 1 := by
  unfold leaveFrame at h
  split at h
  · simp at h
  · next current own hkind =>
    split at h
    · next hmore =>
      obtain ⟨rfl, rfl⟩ : iteration = current + 1 ∧ count = own := by simpa using h
      exact ⟨current, hkind, hmore, rfl⟩
    · simp at h

/-- A turn of nested frames reports only iterations that their loops have. -/
theorem Walk.Nested.repetition_of_turn {walk' : Walk} {state' : σ} {more : List Effect}
    (h : walk.Nested blocks) (hturn : walk.turn scene pacing state = some (more, walk', state'))
    {iteration count : Nat} (hmem : .emit (.repetition iteration count) ∈ more) :
    1 ≤ iteration ∧ iteration ≤ count ∧ count ≤ 4294967295 := by
  obtain ⟨-, frame, outer, hframes, hcases⟩ := turn_cases scene pacing hturn
  rcases hcases with ⟨block, next, -, hrun⟩ | ⟨-, hleave, -⟩
  · have hmore : (runBlock scene pacing ({ frame with next } :: outer) state block).1 = more :=
      congrArg Prod.fst hrun
    rw [← hmore] at hmem
    obtain ⟨rfl, own, body, -, rfl⟩ := loop_of_runBlock hmem
    exact ⟨Nat.le_refl 1, own.pos, own.le_maximum⟩
  · have hmore : (leaveFrame pacing frame outer).1 = more := congrArg Prod.fst hleave
    rw [← hmore] at hmem
    obtain ⟨current, hkind, hless, rfl⟩ := loop_of_leaveFrame hmem
    have hframe : frame ∈ walk.frames := hframes ▸ List.mem_cons_self
    obtain ⟨-, -, hfits⟩ := h.inOrder.iteration frame hframe current count hkind
    exact ⟨Nat.le_add_left 1 current, hless, hfits⟩

theorem Walk.Reaches.repetition (h : start.Reaches scene pacing before turns effects walk state)
    (hstart : start.Nested blocks) {iteration count : Nat}
    (hmem : .emit (.repetition iteration count) ∈ effects) :
    1 ≤ iteration ∧ iteration ≤ count ∧ count ≤ 4294967295 := by
  induction h with
  | start => cases hmem
  | turn h hturn ih =>
    rcases List.mem_append.1 hmem with hearlier | hlast
    · exact ih hearlier
    · exact (h.nested hstart).repetition_of_turn hturn hlast

end Turns

/-! ## Running blocks -/

/-- **A walk ends, and its frames are in order all the time.**  Some blocks are run in a number of
turns after which there is no other, and what these turns do is what running the blocks does.  No
turns at all lead further than the work of the blocks allows, and wherever turns lead, the frames
are in order, and every iteration that was reported is one that its loop has. -/
theorem Block.walk_in_order (scene : Scene σ) (pacing : Pacing) (blocks : List Block)
    (succeeded : Bool) (before : σ) :
    let start : Walk := { frames := [Frame.sequence blocks], succeeded }
    (∃ turns effects last final, start.Reaches scene pacing before turns effects last final
      ∧ last.turn scene pacing final = none
      ∧ runAll scene pacing blocks succeeded before = (effects, last.succeeded, final))
    ∧ ∀ turns effects walk state, start.Reaches scene pacing before turns effects walk state →
      turns ≤ workAll blocks + 1 ∧ walk.InOrder blocks
      ∧ ∀ iteration count, .emit (.repetition iteration count) ∈ effects →
        1 ≤ iteration ∧ iteration ≤ count ∧ count ≤ 4294967295 := by
  intro start
  have hnested : start.Nested blocks := Walk.nested_through blocks
  refine ⟨?_, fun turns effects walk state h => ⟨?_, (h.nested hnested).inOrder, ?_⟩⟩
  · have hstart : start.Reaches scene pacing before 0 (#[] : Array Effect).toList start before :=
      .start
    obtain ⟨turns, effects, last, final, hrun, hreaches, hlast⟩ := Walk.reaches_runFrom hstart
    refine ⟨turns, effects.toList, last, final, hreaches, hlast, ?_⟩
    rw [runAll, Walk.run, hrun]
  · have hwork : start.work = workAll blocks + 1 := rfl
    have hless := h.work_le
    omega
  · intro iteration count hmem
    exact h.repetition hnested hmem

end BlockScript
