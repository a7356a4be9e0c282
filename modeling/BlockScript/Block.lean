import BlockScript.Direction
import BlockScript.RepeatCount

/-!
# Blocks

A script is a list of blocks. A loop owns its body, so a block is a tree, and a list of blocks is
an ordered forest.

## What is here

* `Block` — start markers, moves, eat attempts and loops, with decidable equality.
* `Block.nodes` — the number of blocks in a tree, by recursion on the tree.
* `Block.size` — the same number, counted with a list of blocks still to visit, so that it needs
  no stack however deep the tree is; `Block.size_eq_nodes` says that the two agree.
* `Block.preorder` — every block of a forest with its depth, parents before their children.
-/

set_option autoImplicit false
namespace BlockScript

/-- One block of a script. -/
inductive Block where
  /-- Marks an entry point: the blocks after it run when the program starts. -/
  | start
  /-- Steps the actor once. -/
  | move (direction : Direction)
  /-- Tries to eat the target. -/
  | eat
  /-- Runs `body` as often as `count` says. -/
  | loop (count : RepeatCount) (body : List Block)
  deriving Repr, Inhabited

namespace Block

/-! ## Equality -/

mutual

/-- Whether two blocks are the same tree. -/
def same : Block → Block → Bool
  | .start, .start => true
  | .move d, .move e => d == e
  | .eat, .eat => true
  | .loop m xs, .loop n ys => m == n && sameAll xs ys
  | _, _ => false

/-- Whether two lists of blocks are the same forest. -/
def sameAll : List Block → List Block → Bool
  | [], [] => true
  | x :: xs, y :: ys => same x y && sameAll xs ys
  | _, _ => false

end

mutual

theorem same_iff : ∀ a b : Block, same a b = true ↔ a = b
  | .start, b => by cases b <;> simp [same]
  | .move d, b => by cases b <;> simp [same]
  | .eat, b => by cases b <;> simp [same]
  | .loop m xs, b => by
    cases b with
    | loop n ys => simp [same, sameAll_iff xs ys]
    | start => simp [same]
    | move e => simp [same]
    | eat => simp [same]

theorem sameAll_iff : ∀ xs ys : List Block, sameAll xs ys = true ↔ xs = ys
  | [], ys => by cases ys <;> simp [sameAll]
  | x :: xs, ys => by
    cases ys with
    | nil => simp [sameAll]
    | cons y ys => simp [sameAll, same_iff x y, sameAll_iff xs ys]

end

instance : DecidableEq Block := fun a b => decidable_of_iff _ (same_iff a b)

/-! ## Parts of a block -/

/-- The blocks inside a block: the body of a loop, and nothing for any other block. -/
def children : Block → List Block
  | .loop _ body => body
  | _ => []

/-- Whether a block marks an entry point. -/
def isStart : Block → Bool
  | .start => true
  | _ => false

/-- The name of a block in scripts, documents and logs. -/
def label : Block → String
  | .start => "start"
  | .move _ => "move"
  | .eat => "eat"
  | .loop _ _ => "repeat"

/-! ## Counting -/

mutual

/-- The number of blocks in a tree, the root included. -/
def nodes : Block → Nat
  | .start => 1
  | .move _ => 1
  | .eat => 1
  | .loop _ body => 1 + nodesAll body

/-- The number of blocks in a forest. -/
def nodesAll : List Block → Nat
  | [] => 0
  | b :: bs => b.nodes + nodesAll bs

end

theorem nodes_eq (b : Block) : b.nodes = 1 + nodesAll b.children := by
  cases b <;> simp [nodes, nodesAll, children]

theorem nodesAll_append (xs ys : List Block) :
    nodesAll (xs ++ ys) = nodesAll xs + nodesAll ys := by
  induction xs with
  | nil => simp [nodesAll]
  | cons x xs ih => simp [nodesAll, ih, Nat.add_assoc]

/-- The blocks counted so far, plus all those in the trees still to visit. -/
def sizeFrom (pending : List Block) (counted : Nat) : Nat :=
  match pending with
  | [] => counted
  | b :: rest => sizeFrom (b.children ++ rest) (counted + 1)
termination_by nodesAll pending
decreasing_by
  simp only [nodesAll, nodesAll_append, nodes_eq b]
  omega

theorem sizeFrom_eq (pending : List Block) (counted : Nat) :
    sizeFrom pending counted = counted + nodesAll pending := by
  fun_induction sizeFrom pending counted with
  | case1 counted => simp [nodesAll]
  | case2 counted b rest ih => rw [ih, nodesAll_append, nodesAll, nodes_eq b]; omega

/-- The number of blocks in a tree, the root included. -/
def size (b : Block) : Nat := sizeFrom [b] 0

theorem size_eq_nodes (b : Block) : b.size = b.nodes := by
  simp [size, sizeFrom_eq, nodesAll]

/-! ## Document order -/

mutual

/-- A block and all blocks inside it, each with its depth, parents before their children. -/
def preorder (depth : Nat) : Block → List (Nat × Block)
  | .start => [(depth, .start)]
  | .move d => [(depth, .move d)]
  | .eat => [(depth, .eat)]
  | .loop count body => (depth, .loop count body) :: preorderAll (depth + 1) body

/-- All blocks of a forest in document order, each with its depth. -/
def preorderAll (depth : Nat) : List Block → List (Nat × Block)
  | [] => []
  | b :: bs => b.preorder depth ++ preorderAll depth bs

end

end Block
end BlockScript
