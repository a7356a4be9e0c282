import BlockScript.Proofs.Run.Position
import Mathlib.Data.List.Count

/-!
# How often a move acts

A move in nested loops acts once in every iteration of the innermost one, and so as often as the
product of their counts says, if no success cuts the run short.  A walk only knows its frames, the
iterations they are in and the indices they have come to.  This file counts how often they will
still come to a place; every turn lowers that number by what it does there.

## What is here

* `RepeatCount.product` — the product of some counts.
* `Block.movesAt` — how often the move at a place acts in a whole run, by recursion on the place;
  `Block.movesAt_of_bodyAt` says that it is the product of the counts around it.
* `Frame.dueAll` — how often the move at a place is still due with some frames.
* `Walk.dueAll_turn` — **a turn does what it takes off**; `Walk.count_placed` follows by induction
  on the turns, and `Walk.count_placed_through` for a walk that has not begun.
-/

set_option autoImplicit false
namespace BlockScript

/-- The product of some counts. -/
def RepeatCount.product : List RepeatCount → Nat
  | [] => 1
  | count :: counts => count.val * product counts

variable {σ : Type} {direction : Direction}

/-! ## A whole run -/

namespace Block

/-- How often the move at a place acts in its direction if some blocks are run to their end; never
if there is no such move. -/
def movesAt (direction : Direction) (blocks : List Block) : List Nat → Nat
  | [] => 0
  | index :: place =>
    match blocks[index]? with
    | some (.move heading) => if heading = direction ∧ place = [] then 1 else 0
    | some (.loop count body) => count.val * movesAt direction body place
    | _ => 0

theorem movesAt_loop {blocks body : List Block} {index : Nat} {count : RepeatCount}
    (h : blocks[index]? = some (.loop count body)) (place : List Nat) :
    movesAt direction blocks (index :: place) = count.val * movesAt direction body place := by
  rw [movesAt, h]

/-- **A move acts as often as the product of the counts around it says.** -/
theorem movesAt_of_bodyAt {blocks body : List Block} {path : List Nat} {counts : List RepeatCount}
    {index : Nat} (hbody : BodyAt blocks path counts body)
    (hmove : body[index]? = some (.move direction)) :
    movesAt direction blocks (path ++ [index]) = RepeatCount.product counts := by
  induction path generalizing blocks counts with
  | nil =>
    obtain ⟨rfl, rfl⟩ := bodyAt_nil_iff.1 hbody
    simp [movesAt, hmove, RepeatCount.product]
  | cons first path ih =>
    obtain ⟨count, inner, rest, rfl, hloop, hbody⟩ := bodyAt_cons_iff.1 hbody
    rw [List.cons_append, movesAt_loop hloop, ih hbody, RepeatCount.product]

/-- What acts as a move is one. -/
theorem at_of_movesAt_pos {blocks : List Block} {place : List Nat}
    (h : 0 < movesAt direction blocks place) : At blocks place (.move direction) := by
  induction place generalizing blocks with
  | nil => simp [movesAt] at h
  | cons index place ih =>
    rw [movesAt] at h
    split at h
    · next heading hmove =>
      obtain ⟨rfl, rfl⟩ : heading = direction ∧ place = [] := by
        by_contra hne
        simp [hne] at h
      exact at_singleton_iff.2 hmove
    · next count body hloop =>
      have hinner := ih (Nat.pos_of_mul_pos_left h)
      cases place with
      | nil => exact absurd hinner not_at_nil
      | cons next place => exact at_cons_cons_iff.2 ⟨count, body, hloop, hinner⟩
    · simp at h

end Block

/-! ## What frames still come to -/

namespace Frame

/-- The iterations of its loop that a frame has still ahead of it. -/
def iterationsLeft (frame : Frame) : Nat :=
  match frame.kind with
  | .sequence => 0
  | .loop iteration count => count - iteration

/-- How often the move at a place in its blocks is still due with a frame: in this iteration, if the
frame has not passed it, and in those to come. -/
def left (direction : Direction) (frame : Frame) (place : List Nat) : Nat :=
  (if frame.index ≤ place.headD 0 then Block.movesAt direction frame.blocks place else 0)
    + frame.iterationsLeft * Block.movesAt direction frame.blocks place

/-- How often the move at a place is still due with a frame that others are around. -/
def due (direction : Direction) (place : List Nat) (frame : Frame) (outer : List Frame) : Nat :=
  match (path outer).isPrefixOf? place with
  | none => 0
  | some rest => frame.left direction rest

/-- How often the move at a place is still due with some frames. -/
def dueAll (direction : Direction) (place : List Nat) : List Frame → Nat
  | [] => 0
  | frame :: outer => due direction place frame outer + dueAll direction place outer

theorem due_append (frame : Frame) (outer : List Frame) (rest : List Nat) :
    due direction (path outer ++ rest) frame outer = frame.left direction rest := by
  have hprefix : (path outer).isPrefixOf? (path outer ++ rest) = some rest :=
    List.isPrefixOf?_eq_some_iff_append_eq.2 rfl
  rw [due, hprefix]

theorem due_of_elsewhere {place : List Nat} {outer : List Frame}
    (h : ∀ rest, place ≠ path outer ++ rest) (frame : Frame) :
    due direction place frame outer = 0 := by
  cases hprefix : (path outer).isPrefixOf? place with
  | none => rw [due, hprefix]
  | some rest => exact absurd (List.isPrefixOf?_eq_some_iff_append_eq.1 hprefix).symm (h rest)

/-- A frame that has not begun still comes to everything in its first iteration too. -/
theorem left_loop (iteration count : Nat) (body : List Block) (place : List Nat) :
    (Frame.loop iteration count body).left direction place
      = (count - iteration + 1) * Block.movesAt direction body place := by
  have hindex : (Frame.loop iteration count body).index = 0 := by simp [index, Frame.loop]
  rw [left, hindex, if_pos (Nat.zero_le _), Nat.add_one_mul, Nat.add_comm]
  rfl

/-- A sequence that has not begun comes to every move as often as the move acts. -/
theorem dueAll_sequence (blocks : List Block) (place : List Nat) :
    dueAll direction place [Frame.sequence blocks] = Block.movesAt direction blocks place := by
  have hindex : (Frame.sequence blocks).index = 0 := by simp [index, Frame.sequence]
  have hiterations : (Frame.sequence blocks).iterationsLeft = 0 := rfl
  have hdue : due direction place (Frame.sequence blocks) []
      = (Frame.sequence blocks).left direction place := due_append _ [] place
  rw [dueAll, dueAll, hdue, left, hindex, hiterations, if_pos (Nat.zero_le _), Nat.zero_mul]
  rfl

/-- A frame whose blocks have run out comes to nothing more in this iteration. -/
theorem left_of_next_eq_nil {frame : Frame} (h : frame.next = []) (place : List Nat) :
    frame.left direction place
      = frame.iterationsLeft * Block.movesAt direction frame.blocks place := by
  have hindex : frame.index = frame.blocks.length := by simp [index, h]
  rw [left, hindex]
  cases place with
  | nil => simp [Block.movesAt]
  | cons first place =>
    by_cases hpast : frame.blocks.length ≤ first
    · simp [Block.movesAt, List.getElem?_eq_none hpast]
    · simp [hpast]

theorem path_cons (frame : Frame) (outer : List Frame) :
    path (frame :: outer) = path outer ++ [frame.index - 1] := by
  simp [path]

section Advance

variable {frame : Frame} {block : Block} {next : List Block}

/-- A frame that passes a block takes off what is due at the block and in it. -/
theorem due_of_passed (hsuffix : frame.next <:+ frame.blocks) (hnext : frame.next = block :: next)
    (outer : List Frame) (rest : List Nat) :
    due direction (path outer ++ frame.index :: rest) frame outer
      = Block.movesAt direction frame.blocks (frame.index :: rest)
        + due direction (path outer ++ frame.index :: rest) { frame with next } outer := by
  obtain ⟨-, hindex⟩ := index_advance hsuffix hnext
  have hiterations : iterationsLeft { frame with next } = frame.iterationsLeft := rfl
  simp only [due_append, left, hindex, hiterations, List.headD_cons, Nat.le_refl,
    Nat.not_succ_le_self, if_true, if_false, Nat.zero_add]

/-- A frame that passes a block takes nothing else off. -/
theorem due_of_not_passed (hsuffix : frame.next <:+ frame.blocks)
    (hnext : frame.next = block :: next) {outer : List Frame} {place : List Nat}
    (h : ∀ rest, place ≠ path outer ++ frame.index :: rest) :
    due direction place frame outer = due direction place { frame with next } outer := by
  obtain ⟨-, hindex⟩ := index_advance hsuffix hnext
  have hiterations : iterationsLeft { frame with next } = frame.iterationsLeft := rfl
  by_cases hprefix : ∃ rest, place = path outer ++ rest
  · obtain ⟨rest, rfl⟩ := hprefix
    simp only [due_append, left, hindex, hiterations]
    cases rest with
    | nil => simp [Block.movesAt]
    | cons first rest =>
      have hfirst : first ≠ frame.index := fun heq => h rest (by rw [heq])
      have hiff : frame.index ≤ first ↔ frame.index + 1 ≤ first := by omega
      rw [List.headD_cons, if_congr hiff rfl rfl]
  · have hnot : ∀ rest, place ≠ path outer ++ rest := fun rest heq => hprefix ⟨rest, heq⟩
    rw [due_of_elsewhere hnot, due_of_elsewhere hnot]

/-- **A frame that passes a block takes off what the block does**, and a loop leaves that to the
frame of its first iteration. -/
theorem dueAll_advance (hsuffix : frame.next <:+ frame.blocks) (hnext : frame.next = block :: next)
    (outer : List Frame) (place : List Nat) :
    dueAll direction place (frame :: outer)
      = (if place = path outer ++ [frame.index] ∧ block = .move direction then 1 else 0)
        + dueAll direction place (match block with
            | .loop count body => Frame.loop 1 count.val body :: { frame with next } :: outer
            | _ => { frame with next } :: outer) := by
  obtain ⟨hblock, hindex⟩ := index_advance hsuffix hnext
  have hpath : path ({ frame with next } :: outer) = path outer ++ [frame.index] := by
    rw [path_cons, hindex, Nat.add_sub_cancel]
  by_cases hpassed : ∃ rest, place = path outer ++ frame.index :: rest
  · obtain ⟨rest, rfl⟩ := hpassed
    rw [dueAll, due_of_passed hsuffix hnext]
    cases block with
    | start => simp [dueAll, Block.movesAt, hblock]
    | eat => simp [dueAll, Block.movesAt, hblock]
    | move heading =>
      simp [dueAll, Block.movesAt, hblock, and_comm, Nat.add_assoc]
    | loop count body =>
      have hinner : due direction (path outer ++ frame.index :: rest)
          (Frame.loop 1 count.val body) ({ frame with next } :: outer)
            = count.val * Block.movesAt direction body rest := by
        rw [List.append_cons, ← hpath, due_append, left_loop, Nat.sub_add_cancel count.pos]
      simp [dueAll, Block.movesAt_loop hblock, hinner, Nat.add_assoc]
  · have hnot : ∀ rest, place ≠ path outer ++ frame.index :: rest :=
      fun rest heq => hpassed ⟨rest, heq⟩
    rw [dueAll, due_of_not_passed hsuffix hnext hnot, if_neg fun h => hnot [] h.1, Nat.zero_add]
    cases block with
    | loop count body =>
      have hinner : due direction place (Frame.loop 1 count.val body) ({ frame with next } :: outer)
          = 0 := by
        refine due_of_elsewhere (fun rest heq => hnot rest ?_) _
        rw [heq, hpath, List.append_assoc]
        rfl
      simp [dueAll, hinner]
    | start | move heading | eat => rfl

end Advance

/-- **A frame that begins its next iteration, or is left, takes nothing off.** -/
theorem dueAll_leave {frame : Frame} (hnext : frame.next = []) (outer : List Frame)
    (place : List Nat) :
    dueAll direction place (frame :: outer)
      = dueAll direction place (match frame.kind with
          | .sequence => outer
          | .loop iteration count =>
            if iteration < count then Frame.loop (iteration + 1) count frame.blocks :: outer
            else outer) := by
  by_cases hprefix : ∃ rest, place = path outer ++ rest
  · obtain ⟨rest, rfl⟩ := hprefix
    rw [dueAll, due_append, left_of_next_eq_nil hnext]
    cases hkind : frame.kind with
    | sequence => simp [iterationsLeft, hkind]
    | loop iteration count =>
      by_cases hmore : iteration < count
      · have hleft : count - (iteration + 1) + 1 = count - iteration := by omega
        simp [iterationsLeft, hkind, hmore, dueAll, due_append, left_loop, hleft]
      · have hleft : count - iteration = 0 := by omega
        simp [iterationsLeft, hkind, hmore, hleft]
  · have hnot : ∀ rest, place ≠ path outer ++ rest := fun rest heq => hprefix ⟨rest, heq⟩
    rw [dueAll, due_of_elsewhere hnot, Nat.zero_add]
    cases frame.kind with
    | sequence => rfl
    | loop iteration count =>
      by_cases hmore : iteration < count
      · simp [hmore, dueAll, due_of_elsewhere hnot]
      · simp [hmore]

end Frame

/-! ## Turns and walks -/

section Walks

variable (scene : Scene σ) (pacing : Pacing)

/-- A block that is run moves the actor once if it is a move, and otherwise not. -/
theorem Walk.count_move_runBlock {frames : List Frame} {block : Block} {state state' : σ}
    {effects : List Effect} {walk : Walk}
    (h : runBlock scene pacing frames state block = (effects, walk, state')) :
    effects.count (.call (.move direction)) = if block = .move direction then 1 else 0 := by
  cases block with
  | start =>
    obtain ⟨rfl, -, -⟩ := h
    rfl
  | move heading =>
    obtain ⟨rfl, -, -⟩ := h
    by_cases hnear : (scene.distance (scene.move state heading)).1 < nearDistance <;>
      simp [hnear, List.count_cons]
  | eat =>
    by_cases hreach : (scene.distance state).1 < 50
    · rw [runBlock_eat_of_lt scene pacing frames hreach] at h
      obtain ⟨rfl, -, -⟩ := h
      simp
    · rw [runBlock_eat_of_not_lt scene pacing frames hreach] at h
      obtain ⟨rfl, -, -⟩ := h
      simp
  | loop count body =>
    obtain ⟨rfl, -, -⟩ := h
    simp

/-- A frame that is left does not move the actor. -/
theorem Walk.count_move_leaveFrame {frame : Frame} {outer : List Frame} {effects : List Effect}
    {walk : Walk} (h : leaveFrame pacing frame outer = (effects, walk)) :
    effects.count (.call (.move direction)) = 0 := by
  obtain rfl : (leaveFrame pacing frame outer).1 = effects := by rw [h]
  rw [leaveFrame]
  split
  · rfl
  · split <;> simp

/-- What stands at one place in effects that all stand at another, or at the same. -/
theorem count_map_place (here place : List Nat) (effects : List Effect) (effect : Effect) :
    (effects.map (here, ·)).count (place, effect)
      = if place = here then effects.count effect else 0 := by
  by_cases hplace : place = here
  · subst hplace
    rw [if_pos rfl]
    exact List.count_map_of_injective effects (place, ·) (fun _ _ h => (Prod.mk.inj h).2) effect
  · rw [if_neg hplace, List.count_eq_zero]
    intro hmem
    obtain ⟨_, -, heq⟩ := List.mem_map.1 hmem
    exact hplace (Prod.mk.inj heq).1.symm

/-- **A turn does what it takes off.** -/
theorem Walk.dueAll_turn {blocks : List Block} {walk walk' : Walk} {state state' : σ}
    {effects : List Effect} (h : walk.Nested blocks)
    (hturn : walk.turn scene pacing state = some (effects, walk', state')) (place : List Nat) :
    Frame.dueAll direction place walk.frames
      = (effects.map (walk.place, ·)).count (place, .call (.move direction))
        + Frame.dueAll direction place walk'.frames := by
  obtain ⟨-, frame, outer, hframes, hcases⟩ := turn_cases scene pacing hturn
  obtain hnil | ⟨path, counts, hnested⟩ := h
  · rw [hnil] at hframes
    simp at hframes
  rw [hframes] at hnested
  rw [count_map_place, hframes]
  rcases hcases with ⟨block, next, hnext, hrun⟩ | ⟨hnext, hleave, -⟩
  · have hplace : walk.place = Frame.path outer ++ [frame.index] := by rw [Walk.place, hframes]
    rw [Frame.dueAll_advance hnested.suffix hnext, frames_runBlock scene pacing hrun, hplace,
      count_move_runBlock scene pacing hrun, ite_and]
    cases block <;> rfl
  · rw [Frame.dueAll_leave hnext, frames_leaveFrame pacing hleave,
      count_move_leaveFrame pacing hleave, ite_self]
    exact (Nat.zero_add _).symm

/-- **What a walk does was due**, and nothing is left of it unless the walk is cut short. -/
theorem Walk.count_placed {blocks : List Block} {walk : Walk} (h : walk.Nested blocks) (state : σ)
    (place : List Nat) :
    ∃ left, Frame.dueAll direction place walk.frames
        = (walk.placed scene pacing state).count (place, .call (.move direction)) + left
      ∧ ((walk.meaning scene pacing state).succeeded = false → left = 0) := by
  fun_induction placed scene pacing walk state with
  | case1 walk state hturn =>
    refine ⟨Frame.dueAll direction place walk.frames, by simp, ?_⟩
    rw [meaning_of_turn_eq_none scene pacing hturn]
    intro hover
    rcases (turn_eq_none_iff scene pacing).1 hturn with hsucceeded | hnil
    · exact absurd (hover.symm.trans hsucceeded) Bool.false_ne_true
    · rw [hnil, Frame.dueAll]
  | case2 walk state effects walk' state' hturn ih =>
    obtain ⟨left, hleft, hover⟩ := ih (h.turn hturn)
    refine ⟨left, ?_, ?_⟩
    · rw [dueAll_turn scene pacing h hturn, hleft, List.count_append, Nat.add_assoc]
    · rw [meaning_turn scene pacing hturn]
      exact hover

/-- **The move at a place acts as often as it should** in a run of some blocks that is not cut
short, and in no run more often. -/
theorem Walk.count_placed_through (blocks : List Block) (succeeded : Bool) (state : σ)
    (place : List Nat) :
    ∃ left, Block.movesAt direction blocks place
        = (placed scene pacing { through blocks with succeeded } state).count
            (place, .call (.move direction)) + left
      ∧ ((meaning scene pacing { through blocks with succeeded } state).succeeded = false →
          left = 0) := by
  rw [← Frame.dueAll_sequence]
  have hnested : Walk.Nested blocks { through blocks with succeeded } := nested_through blocks
  exact count_placed scene pacing hnested state place

end Walks

end BlockScript
