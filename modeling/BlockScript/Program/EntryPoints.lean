import BlockScript.Block

/-!
# Entry points

Every start block, at any depth, opens an entry point: the blocks after it in the same body, up to
the next start block of that body. The entry points of a forest are enumerated in document order
with a list of sibling runs still to scan, the innermost first, so that no stack is needed however
deep the forest is.

## What is here

* `EntryPoints.next?` — the next entry point, and the runs left to scan after it;
  `EntryPoints.left_next?` says that something has been scanned.
* `EntryPoints.toList` — all entry points that a list of runs holds.
* `Block.entryPoints` — the entry points of a forest.
-/

set_option autoImplicit false
namespace BlockScript
namespace EntryPoints

/-- How much is left to scan: every block, the start of every body, and the end of every run. -/
def left : List (List Block) → Nat
  | [] => 0
  | run :: outer => 2 * Block.nodesAll run + 1 + left outer

/-- The next entry point in document order, and the runs left to scan after it. The innermost run
comes first; an enclosing run waits behind the body that is being scanned. -/
def next? (pending : List (List Block)) : Option (List Block × List (List Block)) :=
  match pending with
  | [] => none
  | [] :: outer => next? outer
  | (.start :: rest) :: outer => some (rest.takeWhile (!·.isStart), rest :: outer)
  | (.loop _ body :: rest) :: outer => next? (body :: rest :: outer)
  | (.move _ :: rest) :: outer => next? (rest :: outer)
  | (.eat :: rest) :: outer => next? (rest :: outer)
termination_by left pending
decreasing_by
  all_goals simp only [left, Block.nodesAll, Block.nodes]
  all_goals omega

/-- Finding an entry point scans at least the start block that opens it. -/
theorem left_next? {pending rest : List (List Block)} {sequence : List Block}
    (h : next? pending = some (sequence, rest)) : left rest < left pending := by
  fun_induction next? pending with
  | case1 => simp at h
  | case2 outer ih =>
    have := ih h
    simp only [left, Block.nodesAll] at this ⊢
    omega
  | case3 after outer =>
    obtain ⟨-, rfl⟩ := h
    simp only [left, Block.nodesAll, Block.nodes]
    omega
  | case4 count body after outer ih =>
    have := ih h
    simp only [left, Block.nodesAll, Block.nodes] at this ⊢
    omega
  | case5 direction after outer ih =>
    have := ih h
    simp only [left, Block.nodesAll, Block.nodes] at this ⊢
    omega
  | case6 after outer ih =>
    have := ih h
    simp only [left, Block.nodesAll, Block.nodes] at this ⊢
    omega

/-- The entry points found by scanning the pending runs to their ends, in document order. -/
def toList (pending : List (List Block)) : List (List Block) :=
  match _h : next? pending with
  | none => []
  | some (sequence, rest) => sequence :: toList rest
termination_by left pending
decreasing_by exact left_next? (by assumption)

theorem toList_of_next?_eq_none {pending : List (List Block)} (h : next? pending = none) :
    toList pending = [] := by
  rw [toList]
  split
  · rfl
  · next heq => simp [h] at heq

theorem toList_of_next?_eq_some {pending rest : List (List Block)} {sequence : List Block}
    (h : next? pending = some (sequence, rest)) : toList pending = sequence :: toList rest := by
  rw [toList]
  split
  · next heq => simp [h] at heq
  · next heq =>
    rw [h] at heq
    obtain ⟨rfl, rfl⟩ := Prod.mk.inj (Option.some.inj heq)
    rfl

end EntryPoints

/-- The sequences that the start blocks of a forest open, in document order. A sequence runs from
the block after its start block to the next start block of the same body, or to the body's end. -/
def Block.entryPoints (blocks : List Block) : List (List Block) :=
  EntryPoints.toList [blocks]

end BlockScript
