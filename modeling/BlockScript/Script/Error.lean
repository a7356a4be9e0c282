/-!
# What can be wrong with a script

## What is here

* `Script.Flaw` — the ways in which the forms of a script can be put together wrongly.
* `Script.Error` — why a script is refused, and `Script.Error.message`, its wording.
-/

set_option autoImplicit false
namespace BlockScript.Script

/-- What is wrong with the shape of a script. -/
inductive Flaw where
  /-- A form is closed that was never opened. -/
  | strayClosing
  /-- The script ends inside a form. -/
  | unterminated
  /-- An atom stands where only forms may stand. -/
  | strayAtom (text : String)
  /-- A form has nothing inside. -/
  | emptyForm
  /-- A form begins with something that is no word. -/
  | unnamedForm
  /-- The direction of a move is given by a form. -/
  | directionIsForm
  /-- A form has more parts than its name takes. -/
  | surplusArgument (name : String)
  deriving DecidableEq, Repr

/-- The wording of a flaw. -/
def Flaw.message : Flaw → String
  | .strayClosing => "unexpected `)`"
  | .unterminated => "unterminated form"
  | .strayAtom text => "expected a block form, found `" ++ text ++ "`"
  | .emptyForm => "empty block form"
  | .unnamedForm => "block form must start with a name"
  | .directionIsForm => "move direction must be a name"
  | .surplusArgument name => "unexpected argument to `" ++ name ++ "`"

/-- Why a script is refused. -/
inductive Error where
  /-- Its shape is wrong at a line, counted from one. -/
  | malformed (line : Nat) (flaw : Flaw)
  /-- A form has a name, here in lower case, that no block has. -/
  | unknownBlock (name : String)
  /-- A move goes in no known direction. -/
  | unknownDirection (name : String)
  /-- A move says no direction. -/
  | missingDirection
  deriving DecidableEq, Repr

/-- The wording of an error. -/
def Error.message : Error → String
  | .malformed line flaw =>
    "invalid script syntax at line " ++ toString line ++ ": " ++ flaw.message
  | .unknownBlock name => "unknown block `" ++ name ++ "`"
  | .unknownDirection name => "unknown direction `" ++ name ++ "`"
  | .missingDirection => "move block requires a direction"

end BlockScript.Script
