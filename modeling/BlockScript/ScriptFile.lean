import BlockScript.Encoding.Program
import BlockScript.Folder
import BlockScript.Script
import BlockScript.Text.Quoted

/-!
# Script files

A file holds a program either as a document, if its extension says so, or as the text of a script.
A program without a name of its own is named after its file.

## What is here

* `ScriptFile.holdsDocument` — whether the path of a file announces a document.
* `ScriptFile.program` — the program in a file, given what reading the file gave.
* `ScriptFile.Failure` — why there is no program in a file.
-/

set_option autoImplicit false
namespace BlockScript.ScriptFile

/-- Why there is no program in a file. -/
inductive Failure where
  | unreadable (path : String) (failure : Folder.Failure)
  | notText (path : String)
  | notAScript (error : Script.Error)
  | notADocument (error : Json.Error)

/-- The wording of a failure. -/
def Failure.message : Failure → String
  | .unreadable path _ => "Failed to read script: " ++ Text.quoted path
  | .notText path => "Failed to read script: " ++ Text.quoted path
  | .notAScript error => error.message
  | .notADocument error => "invalid program JSON: " ++ error.message

/-- The wording of the cause of a failure, where there is one. -/
def Failure.cause? : Failure → Option String
  | .unreadable _ failure => some failure.message
  | .notText _ => some "stream did not contain valid UTF-8"
  | .notAScript _ => none
  | .notADocument error => some error.message

/-- Whether the path of a file announces a document. -/
def holdsDocument (path : String) : Bool :=
  (Folder.extension? path).map String.toLower = some "json"

/-- The program that a text spells, if it comes from a file of the given path. -/
def ofText (path text : String) : Except Failure Program :=
  if holdsDocument path then (Program.ofJson text).mapError .notADocument
  else (Program.ofScript (Folder.stem path) text).mapError .notAScript

/-- The program under its own name, or under another one if it has none. -/
def named (program : Program) (name : String) : Program :=
  if program.name.isEmpty then { program with name } else program

/-- The program in the file of a path, given what reading the file gave. -/
def program (path : String) (file : Except Folder.Failure ByteArray) : Except Failure Program :=
  match file with
  | .error failure => .error (.unreadable path failure)
  | .ok bytes =>
    match String.fromUTF8? bytes with
    | none => .error (.notText path)
    | some text => (ofText path text).map (named · (Folder.stem path))

end BlockScript.ScriptFile
