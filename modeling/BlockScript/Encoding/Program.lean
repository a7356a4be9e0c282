import BlockScript.Encoding.Block
import BlockScript.Program

/-!
# Programs in documents

## What is here

* `Program.toValue` and `Program.toJson` — a program as a value, and as the text of a document.
* `Program.ofJson` — the program that a document spells; its name may be left out.
-/

set_option autoImplicit false
namespace BlockScript

open Json

namespace Program

/-- A program as a value. -/
def toValue (program : Program) : Value :=
  .object [("name", .string program.name), ("blocks", .list (Block.toValues program.blocks))]

/-- A program as the text of a document, with one item or field on a line. -/
def toJson (program : Program) : String := program.toValue.pretty

/-- The fields of a program, as far as they have been read. -/
structure Draft where
  name : Option String := none
  blocks : Option (List Block) := none

/-- Programs as records: the name is empty unless it is given. -/
def asRecord : Record Draft Program where
  name := "struct Program"
  fields :=
    [.kept "name" Draft.name (fun draft name => { draft with name := some name }) .text,
      .kept "blocks" Draft.blocks (fun draft blocks => { draft with blocks := some blocks })
        (.list Block.decoder)]
  blank := {}
  build draft :=
    match draft.blocks with
    | some blocks => .ok { name := draft.name.getD "", blocks }
    | none => .error "blocks"

/-- The program that a document spells. -/
def ofJson (text : String) : Except Json.Error Program :=
  decode asRecord.decoder text.toUTF8.toList

end Program
end BlockScript
