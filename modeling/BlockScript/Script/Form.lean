import BlockScript.Block
import BlockScript.Script.Error
import BlockScript.Script.Lexeme

/-!
# Forms

A form is a pair of parentheses around a name and the parts that the name takes. Forms become
blocks one by one as they are closed, so what is inside a form when it closes is atoms and blocks.

## What is here

* `Script.Item` — an atom, or the block of an inner form.
* `Script.blockOf` — the block that a form stands for, or what is wrong with it.
-/

set_option autoImplicit false
namespace BlockScript.Script

/-- A part of a form. -/
inductive Item where
  | atom (atom : Atom)
  | block (block : Block)
  deriving DecidableEq, Repr

/-- The count that an atom spells. -/
def Atom.count : Atom → RepeatCount
  | .integer n => .ofInt n
  | .word text => .ofText text

/-- A block that takes no further parts. -/
def alone (line : Nat) (name : String) (block : Block) : List Item → Except Error Block
  | [] => .ok block
  | _ :: _ => .error (.malformed line (.surplusArgument name))

/-- The move that the parts of a form describe: the first part names the direction. -/
def moveOf (line : Nat) : List Item → Except Error Block
  | [] => .error .missingDirection
  | .block _ :: _ => .error (.malformed line .directionIsForm)
  | .atom (.integer n) :: _ => .error (.unknownDirection (toString n))
  | .atom (.word text) :: rest =>
    match Direction.ofName? text with
    | some direction => alone line "move" (.move direction) rest
    | none => .error (.unknownDirection text)

/-- The blocks among the parts of a form, provided that there is nothing else. -/
def bodyOf (line : Nat) : List Item → Except Error (List Block)
  | [] => .ok []
  | .block block :: rest => (bodyOf line rest).map (block :: ·)
  | .atom atom :: _ => .error (.malformed line (.strayAtom atom.display))

/-- The loop that the parts of a form describe: an atom may come first and is then the count. -/
def loopOf (line : Nat) : List Item → Except Error Block
  | .atom atom :: rest => (bodyOf line rest).map (.loop atom.count)
  | items => (bodyOf line items).map (.loop .standard)

/-- The block that a form opened on `line` stands for. -/
def blockOf (line : Nat) : List Item → Except Error Block
  | [] => .error (.malformed line .emptyForm)
  | .atom (.word text) :: rest =>
    match text.toLower with
    | "start" => alone line "start" .start rest
    | "eat" => alone line "eat" .eat rest
    | "move" => moveOf line rest
    | "repeat" => loopOf line rest
    | name => .error (.unknownBlock name)
  | _ :: _ => .error (.malformed line .unnamedForm)

end BlockScript.Script
