/-!
# Commands

What the tool is asked to do, as its arguments say it.

## What is here

* `Tool.Command` — run a script or check it.
* `Tool.CommandLine` — the arguments of a command as far as they have been read;
  `CommandLine.step` reads one more.
* `Tool.Command.ofArguments` — the command that some arguments spell.
-/

set_option autoImplicit false
namespace BlockScript.Tool

/-- What the tool can be asked to do. -/
inductive Command where
  /-- Run a script, with settings from a file if one is given, and without rests if it is to be
  fast. -/
  | run (script : String) (settings : Option String) (fast : Bool)
  /-- Show what is in a script. -/
  | check (script : String)
  deriving DecidableEq, Repr

/-- The names of commands. -/
inductive Command.Name where
  | run
  | check
  deriving DecidableEq, Repr

/-- The arguments of a command as far as they have been read. -/
structure CommandLine where
  name : Command.Name
  script : Option String := none
  settings : Option String := none
  fast : Bool := false
  /-- Whether the steps of a run are to be reported for diagnosis. -/
  verbose : Bool := false
  /-- Whether the path of the settings is to come next. -/
  awaiting : Bool := false
  /-- Whether the options have ended. -/
  optionsEnded : Bool := false

namespace CommandLine

/-- The one operand is the path of the script. -/
def operand (line : CommandLine) (path : String) : Option CommandLine :=
  if line.script.isNone && !path.isEmpty then some { line with script := some path } else none

/-- The path of the settings. -/
def settingsAt (line : CommandLine) (path : String) : Option CommandLine :=
  if line.name = .run && line.settings.isNone && !path.isEmpty then
    some { line with settings := some path, awaiting := false }
  else none

/-- An option whose path is the next argument. -/
def awaitSettings (line : CommandLine) : Option CommandLine :=
  if line.name = .run && line.settings.isNone then some { line with awaiting := true } else none

/-- The option that asks for diagnosis may be given once. -/
def askVerbose (line : CommandLine) : Option CommandLine :=
  if line.verbose then none else some { line with verbose := true }

/-- The option that leaves out the rests may be given once, for a run. -/
def askFast (line : CommandLine) : Option CommandLine :=
  if line.name = .run && !line.fast then some { line with fast := true } else none

/-- Options of one letter after a dash. A path may follow its option at once or after an equals
sign. -/
def letters (line : CommandLine) : List Char → Option CommandLine
  | [] => some line
  | 'v' :: rest => line.askVerbose.bind (letters · rest)
  | ['c'] => line.awaitSettings
  | 'c' :: '=' :: path => line.settingsAt (String.ofList path)
  | 'c' :: path => line.settingsAt (String.ofList path)
  | _ => none

/-- An option of a whole word after two dashes. -/
def word (line : CommandLine) (name : List Char) : Option CommandLine :=
  match name.span (· ≠ '=') with
  | (name, []) =>
    match String.ofList name with
    | "verbose" => line.askVerbose
    | "fast" => line.askFast
    | "config" => line.awaitSettings
    | _ => none
  | (name, _ :: path) =>
    if String.ofList name = "config" then line.settingsAt (String.ofList path) else none

/-- Reads one more argument. A single dash is an operand or a path. -/
def step (line : CommandLine) (argument : String) : Option CommandLine :=
  if line.optionsEnded then line.operand argument
  else
    match argument.toList with
    | ['-', '-'] => if line.awaiting then none else some { line with optionsEnded := true }
    | '-' :: '-' :: name => if line.awaiting then none else line.word name
    | '-' :: c :: rest => if line.awaiting then none else line.letters (c :: rest)
    | _ => if line.awaiting then line.settingsAt argument else line.operand argument

/-- The command that all arguments spell. -/
def command (line : CommandLine) : Option Command :=
  if line.awaiting then none
  else
    line.script.map fun script =>
      match line.name with
      | .run => .run script line.settings line.fast
      | .check => .check script

end CommandLine

/-- The command with the given name and arguments. -/
def Command.named (name : String) (arguments : List String) : Option Command :=
  let start : Option CommandLine :=
    match name with
    | "run" => some { name := .run }
    | "check" => some { name := .check }
    | _ => none
  start.bind fun line => (arguments.foldlM CommandLine.step line).bind CommandLine.command

/-- The command that some arguments spell. The option that asks for diagnosis may also stand before
the name of the command. -/
def Command.ofArguments : List String → Option Command
  | "-v" :: name :: arguments => Command.named name arguments
  | "--verbose" :: name :: arguments => Command.named name arguments
  | name :: arguments => Command.named name arguments
  | [] => none

end BlockScript.Tool
