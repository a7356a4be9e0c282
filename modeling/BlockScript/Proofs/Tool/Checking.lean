import BlockScript.Proofs.Encoding.Accepted
import BlockScript.Proofs.Folder
import BlockScript.Tool.Report

/-!
# Checking what was printed

The text of a program that was checked can be put into a file and checked again.  The program has
the name that it was given the first time, whatever the name of the new file, and the output is the
same.  One thing can prevent that: a body that a document leaves out is an empty list in the text,
and this list can be a level too deep.

## What is here

* `Tool.report_check` — what the tool says of a script that is to be checked.
* `Tool.checked_again` — the output for a text that was printed, and when that is refused.
* `Tool.deepest_not_checked_again` — a document whose text is refused.
-/

set_option autoImplicit false
namespace BlockScript

open Json

/-! ## Names of files -/

/-- A file with an extension has a stem. -/
theorem Folder.stem_ne_empty {path extension : String} (h : extension? path = some extension) :
    stem path ≠ "" := by
  rw [extension?] at h
  rw [stem]
  cases hname : fileName? path with
  | none => rw [hname] at h; cases h
  | some name =>
    rw [hname, Option.bind_some, splitName] at h
    simp only [splitName]
    split at h
    · intro hempty
      simpa using congrArg String.toList hempty
    · cases h

theorem ScriptFile.named_of_ne {program : Program} (h : program.name ≠ "") (name : String) :
    named program name = program := by
  rw [named, if_neg]
  simpa using h

/-- A program from a document has a name. -/
theorem ScriptFile.name_ne_empty {path : String} (hdocument : holdsDocument path = true)
    (program : Program) : (named program (Folder.stem path)).name ≠ "" := by
  rw [named]
  split
  · cases hextension : Folder.extension? path with
    | none => rw [holdsDocument, hextension] at hdocument; cases hdocument
    | some extension => exact Folder.stem_ne_empty hextension
  · next h => simpa using h

/-! ## Texts in files -/

theorem fromUTF8?_toUTF8 (text : String) : String.fromUTF8? text.toUTF8 = some text := by
  rw [String.toUTF8_eq_toByteArray, String.fromUTF8?, dif_pos text.isValidUTF8]
  rfl

/-- The program in a file that holds a document. -/
theorem ScriptFile.program_of_document {path : String} (hdocument : holdsDocument path = true)
    (text : String) :
    ScriptFile.program path (.ok text.toUTF8)
      = ((Program.ofJson text).mapError .notADocument).map (named · (Folder.stem path)) := by
  simp only [ScriptFile.program, fromUTF8?_toUTF8, ofText, hdocument, if_pos]

/-- A program from a document has a name, and its text is at most a level deeper than the reader
allows. -/
theorem ScriptFile.of_program_eq_ok {path : String} (hdocument : holdsDocument path = true)
    {file : Except Folder.Failure ByteArray} {program : Program}
    (h : ScriptFile.program path file = .ok program) :
    program.name ≠ "" ∧ program.levels ≤ 128 := by
  rw [ScriptFile.program.eq_def] at h
  split at h
  · cases h
  split at h
  · cases h
  · next text htext =>
    rw [ofText, if_pos hdocument] at h
    obtain ⟨given, hgiven, rfl⟩ := map_eq_ok h
    refine ⟨name_ne_empty hdocument given, ?_⟩
    cases hread : Program.ofJson text with
    | error error => rw [hread] at hgiven; cases hgiven
    | ok read =>
      rw [hread] at hgiven
      obtain rfl := Except.ok.inj hgiven
      have hlevels := Program.levels_ofJson hread
      rw [named]
      split
      · exact hlevels
      · exact hlevels

/-- **The text of a program that has a name is read back from any file**, unless it is too deep. -/
theorem ScriptFile.program_of_toJson {path : String} (hdocument : holdsDocument path = true)
    {program : Program} (hname : program.name ≠ "") :
    if program.levels ≤ 127 then ScriptFile.program path (.ok program.toJson.toUTF8) = .ok program
    else ∃ error, ScriptFile.program path (.ok program.toJson.toUTF8) = .error (.notADocument error)
      ∧ error.cause = .tooDeep := by
  have hdecode := decode_pretty program.decodes_toValue
  rw [Program.depth_toValue, maxDepth] at hdecode
  rw [program_of_document hdocument]
  split
  · next hfits =>
    rw [if_pos hfits] at hdecode
    have hread : Program.ofJson program.toJson = .ok program := hdecode
    rw [hread]
    exact congrArg Except.ok (named_of_ne hname _)
  · next hdeep =>
    rw [if_neg hdeep] at hdecode
    obtain ⟨error, hread, hcause⟩ := hdecode
    have hread : Program.ofJson program.toJson = .error error := hread
    rw [hread]
    exact ⟨error, rfl, hcause⟩

namespace Tool

/-! ## Loops in loops -/

/-- A folder with a document of nested loops. -/
def deepFolder (n : Nat) : Folder := .single "deep.json" (Program.nestedDocument n).pretty

/-- A folder with the text that is written of the nested loops in that document. -/
def againFolder (n : Nat) : Folder := .single "again.json" (Program.nested "deep" n).toJson

theorem read_deep (n : Nat) :
    (deepFolder n).read "deep.json" = .ok (Program.nestedDocument n).pretty.toUTF8 :=
  Folder.read_single _ (by decide +kernel) rfl

theorem read_again (n : Nat) :
    (againFolder n).read "again.json" = .ok (Program.nested "deep" n).toJson.toUTF8 :=
  Folder.read_single _ (by decide +kernel) rfl

theorem holdsDocument_deep : ScriptFile.holdsDocument "deep.json" = true := by decide +kernel

theorem holdsDocument_again : ScriptFile.holdsDocument "again.json" = true := by decide +kernel

/-- Nested loops in a document are named after its file. -/
theorem program_nested {n : Nat} (hn : n ≤ 62) :
    ScriptFile.program "deep.json" ((deepFolder n).read "deep.json")
      = .ok (Program.nested "deep" n) := by
  rw [read_deep, ScriptFile.program_of_document holdsDocument_deep, Program.ofJson_nested hn]
  rfl

/-- The text of a program of nested loops is refused if there are too many. -/
theorem program_nested_again {n : Nat} (hn : 62 ≤ n) :
    ∃ error, ScriptFile.program "again.json" ((againFolder n).read "again.json")
      = .error (.notADocument error) := by
  have hname : (Program.nested "deep" n).name ≠ "" := by simp [Program.nested]
  have hrefused := ScriptFile.program_of_toJson holdsDocument_again hname
  rw [if_neg (by rw [Program.levels_nested]; omega)] at hrefused
  obtain ⟨error, hrefused, -⟩ := hrefused
  exact ⟨error, by rw [read_again, hrefused]⟩

/-! ## Reports -/

/-- What the tool says of a script that is to be checked. -/
theorem report_check {folder : Folder} {arguments : List String} {path : String}
    (hcommand : Command.ofArguments arguments = some (.check path)) :
    report folder arguments = match ScriptFile.program path (folder.read path) with
      | .error failure => .failed failure.message failure.cause?
      | .ok program => .checked program := by
  simp only [report, hcommand, Command.plan, pure_bind]
  cases ScriptFile.program path (folder.read path) <;> rfl

/-- **What `check` printed can be checked again.**  The text of a program that was checked, in any
file for documents, gives the same output, unless it is more than 127 levels deep; then it is
refused for its depth.  It is at most 128 levels deep. -/
theorem checked_again {folder : Folder} {arguments : List String} {path : String}
    (hcommand : Command.ofArguments arguments = some (.check path))
    (hdocument : ScriptFile.holdsDocument path = true)
    (haccepted : (report folder arguments).code = 0) :
    ∃ program, ScriptFile.program path (folder.read path) = .ok program ∧
      report folder arguments = .checked program ∧ program.levels ≤ 128 ∧
      ∀ (folder' : Folder) (arguments' : List String) (path' : String),
        Command.ofArguments arguments' = some (.check path') →
        ScriptFile.holdsDocument path' = true →
        folder'.read path' = .ok program.toJson.toUTF8 →
        if program.levels ≤ 127 then report folder' arguments' = report folder arguments
        else ∃ error : Json.Error, error.cause = .tooDeep ∧ report folder' arguments'
          = .failed ("invalid program JSON: " ++ error.message) (some error.message) := by
  rw [report_check hcommand] at haccepted ⊢
  cases hprogram : ScriptFile.program path (folder.read path) with
  | error failure =>
    rw [hprogram] at haccepted
    cases haccepted
  | ok program =>
    obtain ⟨hname, hlevels⟩ := ScriptFile.of_program_eq_ok hdocument hprogram
    refine ⟨program, rfl, rfl, hlevels, ?_⟩
    intro folder' arguments' path' hcommand' hdocument' hread
    have hagain := ScriptFile.program_of_toJson hdocument' hname
    rw [report_check hcommand', hread]
    split
    · next hfits =>
      rw [if_pos hfits] at hagain
      rw [hagain]
    · next hdeep =>
      rw [if_neg hdeep] at hagain
      obtain ⟨error, hagain, hcause⟩ := hagain
      rw [hagain]
      exact ⟨error, hcause, rfl⟩

/-- The text of two nested loops is checked with the same output as the document. -/
theorem nested_checked_again :
    (report (deepFolder 1) ["check", "deep.json"]).code = 0 ∧
    report (againFolder 1) ["check", "again.json"]
      = report (deepFolder 1) ["check", "deep.json"] := by
  have hcommand : Command.ofArguments ["check", "deep.json"] = some (.check "deep.json") := rfl
  have hprogram := program_nested (n := 1) (by decide)
  have haccepted : (report (deepFolder 1) ["check", "deep.json"]).code = 0 := by
    rw [report_check hcommand, hprogram]
    rfl
  obtain ⟨program, hread, -, -, hagain⟩ :=
    checked_again hcommand holdsDocument_deep haccepted
  obtain rfl : Program.nested "deep" 1 = program := Except.ok.inj (hprogram.symm.trans hread)
  have hsame := hagain (againFolder 1) ["check", "again.json"] "again.json" rfl holdsDocument_again
    (read_again 1)
  rw [if_pos (by decide)] at hsame
  exact ⟨haccepted, hsame⟩

/-- **The text of 62 loops around one more that has no body cannot be checked again**: the document
is accepted, and its text, in which the innermost loop has an empty list for a body, is refused. -/
theorem deepest_not_checked_again :
    report (deepFolder 62) ["check", "deep.json"] = .checked (Program.nested "deep" 62) ∧
    (report (againFolder 62) ["check", "again.json"]).code = 1 := by
  obtain ⟨error, hrefused⟩ := program_nested_again (Nat.le_refl 62)
  constructor
  · rw [report_check rfl, program_nested (Nat.le_refl 62)]
  · rw [report_check rfl, hrefused]
    rfl

end Tool
end BlockScript
