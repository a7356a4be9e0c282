import BlockScript.ScriptFile
import BlockScript.Settings
import BlockScript.Tool.Command
import BlockScript.Tool.Showing

/-!
# What the tool does

## What is here

* `Tool.Report` — the exit code and what is written by the end.
* `Tool.Plan` — what is left to do once the files have been read: a report, or a run to be shown.
* `Tool.Command.plan` — the files of a command are read, the script first.
* `Tool.Plan.toReport` — the rest of a command is done.
* `Tool.report` — all that the tool does with some arguments in a folder.
-/

set_option autoImplicit false
namespace BlockScript.Tool

/-- Lines of output, each with its end. -/
def unlines (lines : List String) : String := String.join (lines.map (· ++ "\n"))

/-! ## Reports -/

/-- What the tool leaves behind. -/
structure Report where
  code : Nat
  output : String := ""
  errors : String := ""
  deriving DecidableEq, Repr

namespace Report

/-- The report of a command that was not understood. -/
def misused : Report := { code := 2 }

/-- A cause, set off by blanks on each of its lines. -/
def indented (cause : String) : String :=
  "    " ++ "\n    ".intercalate (cause.splitOn "\n")

/-- The report of a failure, with its cause if there is one. -/
def failed (message : String) (cause? : Option String) : Report where
  code := 1
  errors :=
    "Error: " ++ message ++ "\n" ++
      match cause? with
      | none => ""
      | some cause => "\nCaused by:\n" ++ indented cause ++ "\n"

/-- The report on a program that was checked. -/
def checked (program : Program) : Report where
  code := 0
  output := unlines
    [program.toJson,
      toString program.blockCount ++ " blocks, " ++ toString program.entryPoints.length
        ++ " entry point(s)"]

end Report

/-! ## Plans -/

/-- What is left to do once the files have been read. -/
inductive Plan where
  | report (report : Report)
  /-- Show the run of a program on the stage of a geometry. -/
  | show (geometry : Geometry Float) (pacing : Pacing) (program : Program)

/-- The settings of a run, if the given ones could be loaded. -/
def Plan.ofSettings (program : Program) (fast : Bool) :
    Except Settings.Failure Settings → Plan
  | .error failure => .report (.failed failure.message (some failure.cause))
  | .ok settings => .show settings.geometry (if fast then .instant else settings.pacing) program

/-- Reads the files of a command. The script is read first, and the settings only if there is a
program in it. -/
def Command.plan {m : Type → Type} [Monad m]
    (read : String → m (Except Folder.Failure ByteArray)) : Command → m Plan
  | .check script => do
    match ScriptFile.program script (← read script) with
    | .error failure => return .report (.failed failure.message failure.cause?)
    | .ok program => return .report (.checked program)
  | .run script settings? fast => do
    match ScriptFile.program script (← read script) with
    | .error failure => return .report (.failed failure.message failure.cause?)
    | .ok program =>
      match settings? with
      | none => return .ofSettings program fast (.ok {})
      | some path => return .ofSettings program fast (Settings.ofFile path (← read path))

/-- Does what is left to do. -/
def Plan.toReport : Plan → Report
  | .report finished => finished
  | .show geometry pacing program =>
    let (outcome, showing) := (Showing.start geometry program).toEnd geometry pacing
    { code := 0
      output := unlines (showing.display.lines.toList ++ summary outcome showing.stage) }

/-- All that the tool does with some arguments in a folder. -/
def report (folder : Folder) (arguments : List String) : Report :=
  match Command.ofArguments arguments with
  | none => .misused
  | some command => (Id.run (command.plan fun path => pure (folder.read path))).toReport

end BlockScript.Tool
