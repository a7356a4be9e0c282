import BlockScript.Encoding.Stage
import BlockScript.Folder
import BlockScript.Pacing
import BlockScript.Text.Quoted

/-!
# Settings

The pacing of runs and the geometry of the stage are settings that can be kept in a file. Whatever
a file leaves out has its usual value.

## What is here

* `Pacing.toValue` and `Pacing.asRecord` — a pacing as a value, and as a record to be read.
* `Settings` with `Settings.toValue`, `Settings.toJson` and `Settings.ofJson`.
* `Settings.load` and `Settings.save` — settings in a file, and why that can fail.
-/

set_option autoImplicit false
namespace BlockScript

open Json

/-! ## Pacing -/

namespace Pacing

/-- A pacing as a value. -/
def toValue (pacing : Pacing) : Value :=
  .object [("step_ms", .integer pacing.step), ("celebration_ms", .integer pacing.celebration)]

/-- The fields of a pacing, as far as they have been read. -/
structure Draft where
  step : Option Nat := none
  celebration : Option Nat := none

/-- Pacings as records. -/
def asRecord : Record Draft Pacing where
  name := "struct Pacing"
  fields :=
    [.kept "step_ms" Draft.step (fun draft n => { draft with step := some n }) .nat64,
      .kept "celebration_ms" Draft.celebration (fun draft n => { draft with celebration := some n })
        .nat64]
  blank := {}
  build draft :=
    .ok { step := draft.step.getD standard.step
          celebration := draft.celebration.getD standard.celebration }

end Pacing

/-! ## Settings -/

/-- How fast a run goes, and on which stage. -/
structure Settings where
  pacing : Pacing := .standard
  geometry : Geometry Float := .standard
  deriving DecidableEq

namespace Settings

/-- Settings as a value. -/
def toValue (settings : Settings) : Value :=
  .object [("pacing", settings.pacing.toValue), ("stage", settings.geometry.toValue)]

/-- Settings as the text of a document. -/
def toJson (settings : Settings) : String := settings.toValue.pretty

/-- The sections of settings, as far as they have been read. -/
structure Draft where
  pacing : Option Pacing := none
  geometry : Option (Geometry Float) := none

/-- Settings as records. -/
def asRecord : Record Draft Settings where
  name := "struct EngineConfig"
  fields :=
    [.kept "pacing" Draft.pacing (fun draft pacing => { draft with pacing := some pacing })
        Pacing.asRecord.decoder,
      .kept "stage" Draft.geometry (fun draft g => { draft with geometry := some g })
        Geometry.asRecord.decoder]
  blank := {}
  build draft :=
    .ok { pacing := draft.pacing.getD .standard, geometry := draft.geometry.getD .standard }

/-- The settings that a document spells. -/
def ofJson (text : ByteArray) : Except Json.Error Settings :=
  decode asRecord.decoder text.toList

/-! ## Files -/

/-- Why settings cannot be loaded or saved. -/
inductive Failure where
  | unreadable (path : String) (failure : Folder.Failure)
  | invalid (path : String) (error : Json.Error)
  | unwritable (path : String) (failure : Folder.Failure)

/-- The wording of a failure, without its cause. -/
def Failure.message : Failure → String
  | .unreadable path _ => "Failed to read engine config: " ++ Text.quoted path
  | .invalid path _ => "Failed to parse engine config: " ++ Text.quoted path
  | .unwritable path _ => "Failed to write engine config: " ++ Text.quoted path

/-- The wording of the cause of a failure. -/
def Failure.cause : Failure → String
  | .unreadable _ failure => failure.message
  | .invalid _ error => error.message
  | .unwritable _ failure => failure.message

/-- The settings in the file at a path, given what reading the file gave. -/
def ofFile (path : String) (file : Except Folder.Failure ByteArray) : Except Failure Settings :=
  match file with
  | .error failure => .error (.unreadable path failure)
  | .ok bytes =>
    match ofJson bytes with
    | .error error => .error (.invalid path error)
    | .ok settings => .ok settings

/-- The settings in the file that a path leads to. -/
def load (folder : Folder) (path : String) : Except Failure Settings :=
  ofFile path (folder.read path)

/-- The folder with the settings written to a path. -/
def save (settings : Settings) (folder : Folder) (path : String) : Except Failure Folder :=
  match folder.write path settings.toJson.toUTF8 with
  | .error failure => .error (.unwritable path failure)
  | .ok folder => .ok folder

end Settings
end BlockScript
