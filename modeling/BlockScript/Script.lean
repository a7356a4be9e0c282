import BlockScript.Program
import BlockScript.Script.Form

/-!
# Scripts

The text of a script is a list of forms, each of which stands for a block. They are read lexeme
by lexeme, with the forms that are still open kept in a list, so that the depth of a script is not
limited by a stack.

## What is here

* `Script.Reading` — the forms still open and the blocks read so far; `Script.Reading.step` takes
  one lexeme further, `Script.Reading.finish` is the end of the text.
* `Program.ofScript` — the program that a text spells.
-/

set_option autoImplicit false
namespace BlockScript
namespace Script

/-- A form whose closing parenthesis has not come yet. -/
structure OpenForm where
  /-- The line of its opening parenthesis. -/
  line : Nat
  /-- Its parts so far. -/
  items : Array Item := #[]
  deriving Repr

/-- A script that has been read up to some lexeme. -/
structure Reading where
  /-- The forms still open, the innermost first. -/
  openForms : List OpenForm := []
  /-- The top-level blocks so far. -/
  blocks : Array Block := #[]
  deriving Repr

namespace Reading

/-- Puts a finished block into the innermost open form, or at the top level. -/
def add (reading : Reading) (block : Block) : Reading :=
  match reading.openForms with
  | [] => { reading with blocks := reading.blocks.push block }
  | form :: outer =>
    { reading with openForms := { form with items := form.items.push (.block block) } :: outer }

/-- Reads one more lexeme. -/
def step (reading : Reading) (lexeme : Lexeme) : Except Error Reading :=
  match lexeme.token, reading.openForms with
  | .opening, forms => .ok { reading with openForms := { line := lexeme.line } :: forms }
  | .closing, [] => .error (.malformed lexeme.line .strayClosing)
  | .closing, form :: outer =>
    (blockOf form.line form.items.toList).map fun block =>
      { reading with openForms := outer }.add block
  | .atom atom, [] => .error (.malformed lexeme.line (.strayAtom atom.display))
  | .atom atom, form :: outer =>
    .ok { reading with openForms := { form with items := form.items.push (.atom atom) } :: outer }

/-- The blocks of a script that ends here. -/
def finish (reading : Reading) : Except Error (List Block) :=
  match reading.openForms with
  | [] => .ok reading.blocks.toList
  | form :: _ => .error (.malformed form.line .unterminated)

end Reading

/-- The blocks that a text spells. -/
def blocks (text : List Char) : Except Error (List Block) :=
  (lexemes text).foldlM Reading.step {} >>= Reading.finish

end Script

/-- The program of the given name whose blocks a text spells. -/
def Program.ofScript (name : String) (text : String) : Except Script.Error Program :=
  (Script.blocks text.toList).map fun blocks => { name, blocks }

end BlockScript
