import BlockScript.Program
import Mathlib.Algebra.GroupWithZero.Nat

/-!
# The size of a program

Blocks are counted without a stack, with a list of those that have still to be visited.  This file
says that such a count comes to an end, and that it counts every block of a tree once.

## What is here

* `Block.Tallies` — a count that comes to its end: the block that was put on the list last is
  visited next, and its children are put there in its place.
* `Block.tallies_iff` — **every count comes to its end**, and to the number of blocks in the trees
  on the list, at whatever depth.
* `Block.length_preorderAll` — there are as many blocks in document order.
* `Program.blockCount_eq_sum` — counting all blocks of a program at once or one tree after another
  comes to the same.
-/

set_option autoImplicit false
namespace BlockScript
namespace Block

/-- Visiting the blocks on a list, the one that was put there last first, when some have been
counted before, comes to an end with some total. -/
inductive Tallies : List Block → Nat → Nat → Prop
  /-- There is nothing left to visit. -/
  | done (counted : Nat) : Tallies [] counted counted
  /-- A block is taken off the list and counted, and its children are put there. -/
  | visit {pending : List Block} {block : Block} {counted total : Nat}
    (h : Tallies (pending ++ block.children) (counted + 1) total) :
    Tallies (pending ++ [block]) counted total

/-- A visit keeps the number of blocks counted and to count. -/
theorem nodesAll_visit (pending : List Block) (block : Block) :
    nodesAll (pending ++ [block]) = nodesAll (pending ++ block.children) + 1 := by
  simp only [nodesAll_append, nodesAll, nodes_eq block]
  omega

theorem Tallies.total_eq {pending : List Block} {counted total : Nat}
    (h : Tallies pending counted total) : total = counted + nodesAll pending := by
  induction h with
  | done counted => rfl
  | visit h ih => rw [ih, nodesAll_visit]; omega

/-- Every visit leaves fewer blocks to count, so a count comes to its end. -/
theorem tallies_nodesAll (pending : List Block) (counted : Nat) :
    Tallies pending counted (counted + nodesAll pending) := by
  induction hleft : nodesAll pending using Nat.strongRecOn generalizing pending counted with
  | ind left ih =>
    rcases List.eq_nil_or_concat pending with rfl | ⟨rest, block, rfl⟩
    · obtain rfl : 0 = left := hleft
      exact .done counted
    · rw [List.concat_eq_append, nodesAll_visit] at hleft
      have hrest := ih _ (by omega) (rest ++ block.children) (counted + 1) rfl
      rw [List.concat_eq_append, ← hleft, Nat.add_comm _ 1, ← Nat.add_assoc]
      exact .visit hrest

/-- **Every count comes to its end**, with the number of blocks in the trees on the list. -/
theorem tallies_iff {pending : List Block} {counted total : Nat} :
    Tallies pending counted total ↔ total = counted + nodesAll pending :=
  ⟨Tallies.total_eq, fun h => h ▸ tallies_nodesAll pending counted⟩

/-- The size of a block is what a count that begins with it alone comes to. -/
theorem tallies_iff_size {block : Block} {total : Nat} :
    Tallies [block] 0 total ↔ total = block.size := by
  rw [tallies_iff, size_eq_nodes, nodesAll, nodesAll, Nat.zero_add, Nat.add_zero]

mutual

theorem length_preorder (depth : Nat) (block : Block) :
    (block.preorder depth).length = block.nodes := by
  match block with
  | .start => rfl
  | .move direction => rfl
  | .eat => rfl
  | .loop count body =>
    rw [preorder, List.length_cons, length_preorderAll, nodes, Nat.add_comm]

/-- As many blocks are listed in document order as there are in a forest. -/
theorem length_preorderAll (depth : Nat) (blocks : List Block) :
    (preorderAll depth blocks).length = nodesAll blocks := by
  match blocks with
  | [] => rfl
  | block :: rest =>
    rw [preorderAll, List.length_append, length_preorder, length_preorderAll, nodesAll]

end

end Block

namespace Program

/-- The blocks of a program are counted tree by tree. -/
theorem blockCount_eq_sum (program : Program) :
    program.blockCount = (program.blocks.map Block.size).sum := by
  rw [blockCount_eq_nodesAll]
  induction program.blocks with
  | nil => rfl
  | cons block rest ih =>
    rw [Block.nodesAll, ih, List.map_cons, List.sum_cons, Block.size_eq_nodes]

end Program
end BlockScript
