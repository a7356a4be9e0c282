/-!
# Folders

The files that a command can see, relative to the folder it works in.

## What is here

* `Folder.steps`, `Folder.parts`, `Folder.stem`, `Folder.extension?` — the steps and parts of a
  path, and the stem and the extension of the name of the file it leads to.
* `Folder.Failure` — why a file cannot be read or written, with its wording.
* `Folder` with `Folder.read` and `Folder.write` — files and folders by their paths.
-/

set_option autoImplicit false
namespace BlockScript
namespace Folder

/-! ## Paths -/

/-- The steps of a path, one between each two slashes. -/
def steps (path : String) : List String := (path.toList.splitOn '/').map String.ofList

/-- The parts of a path between its slashes, without those that lead nowhere. -/
def parts (path : String) : List String :=
  (steps path).filter fun part => part ≠ "" && part ≠ "."

/-- The name of the file that a path leads to, if it does not lead upward. -/
def fileName? (path : String) : Option String :=
  match (parts path).getLast? with
  | some ".." => none
  | name => name

/-- A file name cut at its last point: the stem, and the extension where there is one. A point that
begins the name cuts nothing. -/
def splitName (name : String) : String × Option String :=
  let after := name.toList.reverse.takeWhile (· ≠ '.')
  let before := name.toList.reverse.dropWhile (· ≠ '.')
  match before with
  | _ :: c :: rest => (String.ofList (c :: rest).reverse, some (String.ofList after.reverse))
  | _ => (name, none)

/-- The file name that a path leads to, without its extension; empty if there is none. -/
def stem (path : String) : String :=
  match fileName? path with
  | some name => (splitName name).1
  | none => ""

/-- The extension of the file name that a path leads to. -/
def extension? (path : String) : Option String :=
  (fileName? path).bind fun name => (splitName name).2

/-! ## Failures -/

/-- Why a file cannot be read or written. -/
inductive Failure where
  | nulInPath
  | notFound
  | denied
  | notAFolder
  | isAFolder
  | nameTooLong
  deriving DecidableEq, Repr

/-- The wording of a failure. -/
def Failure.message : Failure → String
  | .nulInPath => "file name contained an unexpected NUL byte"
  | .notFound => "No such file or directory (os error 2)"
  | .denied => "Permission denied (os error 13)"
  | .notAFolder => "Not a directory (os error 20)"
  | .isAFolder => "Is a directory (os error 21)"
  | .nameTooLong => "File name too long (os error 36)"

end Folder

/-! ## Files -/

/-- Files and folders, each by the parts of its path. -/
structure Folder where
  files : List (List String × ByteArray) := []
  folders : List (List String) := []

namespace Folder

/-- What a path leads to. -/
inductive Place where
  | file (path : List String)
  | folder (path : List String)
  /-- Nothing yet, inside a folder that exists. -/
  | vacant (path : List String)
  deriving DecidableEq

/-- Whether there is a file with the given parts. -/
def isFile (folder : Folder) (path : List String) : Bool :=
  (folder.files.lookup path).isSome

/-- Whether there is a folder with the given parts; files stand in folders too. -/
def isFolder (folder : Folder) (path : List String) : Bool :=
  path.all (· = "..") || path = ["/"] || folder.folders.any (path.isPrefixOf ·)
    || folder.files.any fun file => path.isPrefixOf file.1 && path ≠ file.1

/-! ## Following paths -/

/-- How many bytes a name can have. -/
def longestName : Nat := 255

/-- How many bytes a path can have. -/
def longestPath : Nat := 4095

/-- Why a path leads nowhere, whatever the folder holds. -/
def refusal? (path : String) : Option Failure :=
  if path.toList.contains '\x00' then some .nulInPath
  else if path.isEmpty then some .notFound
  else if longestPath < path.utf8ByteSize then some .nameTooLong
  else none

/-- The folder that a path starts from: the one worked in, or the topmost one. -/
def startingFolder (path : String) : List String :=
  if path.startsWith "/" then ["/"] else []

/-- The folder that a step upward leads to. Those above the folder worked in are there, and nothing
is known to be in them; above the topmost one there is none. -/
def above (here : List String) : List String :=
  if here = ["/"] then here
  else if here.all (· = "..") then here ++ [".."]
  else here.dropLast

/-- The steps of a path to write to. One that ends in a slash names no file, so that only the folder
around its last part is looked for. -/
def stepsToWrite (path : String) : List String :=
  if path.endsWith "/" then
    ((steps path).reverse.dropWhile (· = "")).tail.reverse ++ [""]
  else steps path

/-- Follows the steps of a path from a folder. An empty step and a point stay where they are, which
has to be a folder. -/
def follow (folder : Folder) (here : List String) : List String → Except Failure Place
  | [] => .ok (.folder here)
  | step :: rest =>
    if step = "" ∨ step = "." then folder.follow here rest
    else if step = ".." then folder.follow (above here) rest
    else if longestName < step.utf8ByteSize then .error .nameTooLong
    else
      let there := here ++ [step]
      if folder.isFile there then
        if rest.isEmpty then .ok (.file there) else .error .notAFolder
      else if folder.isFolder there then folder.follow there rest
      else if rest.isEmpty then .ok (.vacant there)
      else .error .notFound

/-- What a path leads to by some of its steps. -/
def locate (folder : Folder) (path : String) (steps : List String) : Except Failure Place :=
  match refusal? path with
  | some failure => .error failure
  | none => folder.follow (startingFolder path) steps

/-! ## Reading and writing -/

/-- The bytes of the file that a path leads to. -/
def read (folder : Folder) (path : String) : Except Failure ByteArray :=
  match folder.locate path (steps path) with
  | .error failure => .error failure
  | .ok (.file there) =>
    match folder.files.lookup there with
    | some bytes => .ok bytes
    | none => .error .notFound
  | .ok (.folder _) => .error .isAFolder
  | .ok (.vacant _) => .error .notFound

/-- The folder with a file written where a path leads. -/
def write (folder : Folder) (path : String) (bytes : ByteArray) : Except Failure Folder :=
  match folder.locate path (stepsToWrite path) with
  | .error failure => .error failure
  | .ok (.folder _) => .error .isAFolder
  | .ok (.vacant there) | .ok (.file there) =>
    .ok { folder with files := (there, bytes) :: folder.files }

end Folder
end BlockScript
