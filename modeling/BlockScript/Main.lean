import BlockScript.Tool.Report

/-!
# The command line

Reads the files that a command names, writes what the tool reports, and rests while a run rests.
-/

set_option autoImplicit false
namespace BlockScript.Tool

/-- Why a file cannot be read, as far as the tool tells the reasons apart. -/
def failureOf : IO.Error → Folder.Failure
  | .inappropriateType _ code _ => if code = 21 then .isAFolder else .notAFolder
  | .permissionDenied .. => .denied
  | .invalidArgument .. => .nameTooLong
  | _ => .notFound

/-- The bytes of a file, or why it cannot be read. -/
def readFile (path : String) : IO (Except Folder.Failure ByteArray) := do
  match Folder.refusal? path with
  | some failure => return .error failure
  | none =>
    match ← (IO.FS.readBinFile path).toBaseIO with
    | .ok bytes => return .ok bytes
    | .error error => return .error (failureOf error)

/-- Writes lines that have not been written yet. -/
def writeLines (lines : List String) : IO Unit := do
  let out ← IO.getStdout
  out.putStr (unlines lines)
  out.flush

/-- Shows a run as it goes on, of which some lines have been written. -/
partial def play (geometry : Geometry Float) (pacing : Pacing) (written : Nat)
    (showing : Showing) : IO Unit := do
  match showing.advance geometry pacing with
  | .resting duration showing =>
    writeLines (showing.display.lines.toList.drop written)
    IO.sleep (min duration 4294967295).toUInt32
    play geometry pacing showing.display.lines.size showing
  | .finished outcome showing =>
    writeLines (showing.display.lines.toList.drop written ++ summary outcome showing.stage)

/-- Carries out a plan; gives the exit code. -/
def Plan.carryOut : Plan → IO UInt32
  | .report finished => do
    IO.print finished.output
    IO.eprint finished.errors
    return finished.code.toUInt32
  | .show geometry pacing program => do
    play geometry pacing 0 (Showing.start geometry program)
    return 0

end BlockScript.Tool

/-- Runs or checks the script that the arguments name. -/
def main (arguments : List String) : IO UInt32 := do
  match BlockScript.Tool.Command.ofArguments arguments with
  | none => return 2
  | some command => (← command.plan BlockScript.Tool.readFile).carryOut
