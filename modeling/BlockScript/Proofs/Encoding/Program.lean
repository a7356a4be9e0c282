import BlockScript.Encoding.Program
import BlockScript.Proofs.Encoding.Block

/-!
# Programs that were written

The text of a program is read back as the program, whatever its name and its blocks are, as long as
its lists and objects are not nested more deeply than the reader follows them.  A program is itself
an object around a list, so its blocks may have two levels less.

## What is here

* `Program.levels` — how deep the levels of a program are nested in its text.
* `Program.ofJson_toJson` — the round trip, and the depth at which it ends.
-/

set_option autoImplicit false
namespace BlockScript

open Json

namespace Program

/-- The number of lists and objects around the innermost one in the text of a program: the program
is an object, and its blocks are a list. -/
def levels (program : Program) : Nat := 2 + Block.levelsAll program.blocks

theorem depth_toValue (program : Program) : program.toValue.depth = program.levels := by
  simp only [toValue, levels, Value.depth, Value.depthOfFields, Block.depthOfItems_toValues]
  omega

-- an empty body is a level of its own
example : levels { blocks := [.start, .loop .standard []] } = 4 := rfl

/-- The document of a program with the given values for its blocks. -/
def document (name : String) (items : List Value) : Value :=
  .object [("name", .string name), ("blocks", .list items)]

/-- A program is decoded from its name and the texts of its blocks. -/
theorem decodes_document (name : String) {items : List Value} {blocks : List Block}
    (h : List.Forall₂ (Decodes Block.decoder) items blocks) :
    Decodes asRecord.decoder (document name items) { name, blocks } := by
  have hname : Decodes Decoder.text (.string name) name := decodes_string rfl
  have hblocks := decodes_list h
  have hfills : Fills asRecord.fields asRecord.blank
      [("name", .string name), ("blocks", .list items)]
      { name := some name, blocks := some blocks } :=
    .cons _ rfl rfl (hname.kept _ _ _ _) (.cons _ rfl rfl (hblocks.kept _ _ _ _) (.nil _))
  exact decodes_record hfills rfl

/-- **A program is what the decoder makes of its text.** -/
theorem decodes_toValue (program : Program) :
    Decodes asRecord.decoder program.toValue program :=
  decodes_document program.name (Block.decodes_toValues program.blocks)

/-- **A program is read back from its text exactly if its lists and objects are nested at most 127
levels deep.**  Otherwise the text is refused for its depth. -/
theorem ofJson_toJson (program : Program) :
    if program.levels ≤ 127 then ofJson program.toJson = .ok program
    else ∃ error, ofJson program.toJson = .error error ∧ error.cause = .tooDeep := by
  have hdecode := decode_pretty program.decodes_toValue
  rwa [depth_toValue] at hdecode

end Program
end BlockScript
