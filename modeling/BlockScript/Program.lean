import BlockScript.Program.EntryPoints

/-!
# Programs

A program is a name and the blocks laid out at its top level.

## What is here

* `Program` — the name and the blocks; the empty program has neither.
* `Program.entryPoints`, `Program.hasEntryPoint` — what runs when the program starts.
* `Program.blockCount` — the number of blocks at every depth.
-/

set_option autoImplicit false
namespace BlockScript

/-- A complete script. -/
structure Program where
  /-- The name to display, usually that of the file the program was read from. -/
  name : String := ""
  /-- The top-level blocks in layout order. -/
  blocks : List Block := []
  deriving DecidableEq, Repr, Inhabited

namespace Program

/-- The sequences to run, one for each start block at any depth, in document order. Blocks ahead
of the first start block of a body belong to no entry point. -/
def entryPoints (program : Program) : List (List Block) :=
  Block.entryPoints program.blocks

/-- Whether there is a start block at any depth. -/
def hasEntryPoint (program : Program) : Bool :=
  (EntryPoints.next? [program.blocks]).isSome

/-- The number of blocks at every depth. -/
def blockCount (program : Program) : Nat := Block.sizeFrom program.blocks 0

theorem blockCount_eq_nodesAll (program : Program) :
    program.blockCount = Block.nodesAll program.blocks := by
  simp [blockCount, Block.sizeFrom_eq]

end Program
end BlockScript
