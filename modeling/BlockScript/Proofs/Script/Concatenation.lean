import BlockScript.Proofs.Script.Lexing
import BlockScript.Proofs.Script.Reading
import Mathlib.Data.List.Basic

/-!
# One script after another

Scripts can be joined with a newline between them.  This file says how the joined text is read,
given how the two texts are: what comes first decides, and what comes after it is read as if it
stood alone, except that its lines are counted from further up.

## What is here

* `Script.Error.later` — an error reported some lines further down, and `Script.later`, a result in
  which the error is.
* `Script.Reading.after` — a reading behind other blocks, some lines further down;
  `Script.Reading.step_after` says that a step of it is the same step.
* `Program.ofScript_append_newline` — **a script goes on after a newline as if it began there**, and
  no text can mend an error before it.
-/

set_option autoImplicit false
namespace BlockScript
namespace Script

/-! ## Errors further down -/

/-- The same error, reported some lines further down if it is reported at a line. -/
def Error.later (lines : Nat) : Error → Error
  | .malformed line flaw => .malformed (line + lines) flaw
  | error => error

/-- A result whose error is reported some lines further down. -/
def later {α : Type} (lines : Nat) (result : Except Error α) : Except Error α :=
  result.mapError (Error.later lines)

section Later

variable {α β : Type} (lines : Nat)

@[simp] theorem later_ok (a : α) : later lines (.ok a) = .ok a := rfl

@[simp] theorem later_error (error : Error) :
    later lines (.error error : Except Error α) = .error (error.later lines) := rfl

theorem later_map (f : α → β) (result : Except Error α) :
    later lines (result.map f) = (later lines result).map f := by
  cases result <;> rfl

end Later

/-! ### Forms further down -/

section Forms

variable (line lines : Nat)

theorem bodyOf_add (items : List Item) :
    bodyOf (line + lines) items = later lines (bodyOf line items) := by
  induction items with
  | nil => rfl
  | cons item items ih =>
    cases item with
    | atom atom => rfl
    | block block => rw [bodyOf, bodyOf, ih, later_map]

theorem alone_add (name : String) (block : Block) (items : List Item) :
    alone (line + lines) name block items = later lines (alone line name block items) := by
  cases items <;> rfl

theorem moveOf_add (items : List Item) :
    moveOf (line + lines) items = later lines (moveOf line items) := by
  rcases items with _ | ⟨⟨goal | n⟩ | block, rest⟩
  · rfl
  · rw [moveOf, moveOf]
    split
    · exact alone_add line lines _ _ rest
    · rfl
  · rfl
  · rfl

theorem loopOf_add (items : List Item) :
    loopOf (line + lines) items = later lines (loopOf line items) := by
  unfold loopOf
  split
  · rw [bodyOf_add, later_map]
  · rw [bodyOf_add, later_map]

/-- What is wrong with a form is wrong with it further down. -/
theorem blockOf_add (items : List Item) :
    blockOf (line + lines) items = later lines (blockOf line items) := by
  unfold blockOf
  split
  · rfl
  · split
    · exact alone_add line lines _ _ _
    · exact alone_add line lines _ _ _
    · exact moveOf_add line lines _
    · exact loopOf_add line lines _
    · rfl
  · rfl

end Forms

/-! ## Readings further down -/

namespace Reading

/-- A reading behind other blocks, some lines further down. -/
def after (above : Array Block) (lines : Nat) (reading : Reading) : Reading where
  openForms := reading.openForms.map fun form => { form with line := form.line + lines }
  blocks := above ++ reading.blocks

variable (above : Array Block) (lines : Nat) (reading : Reading)

theorem add_after (block : Block) :
    (reading.after above lines).add block = (reading.add block).after above lines := by
  obtain ⟨_ | ⟨form, outer⟩, top⟩ := reading
  · simp [after, add]
  · rfl

/-- A step further down is the same step. -/
theorem step_after (lexeme : Lexeme) :
    (reading.after above lines).step (lexeme.later lines)
      = later lines ((reading.step lexeme).map (after above lines)) := by
  obtain ⟨forms, top⟩ := reading
  cases htoken : lexeme.token with
  | opening => simp [step, htoken, after, Except.map]
  | atom atom =>
    cases forms with
    | nil => simp [step, htoken, after, Except.map, Error.later]
    | cons form outer => simp [step, htoken, after, Except.map]
  | closing =>
    cases forms with
    | nil => simp [step, htoken, after, Except.map, Error.later]
    | cons form outer =>
      -- The line at which a form was opened matters when it is closed, and only then.
      have hleft : ((⟨form :: outer, top⟩ : Reading).after above lines).step (lexeme.later lines)
          = (blockOf (form.line + lines) form.items.toList).map
              (add ((⟨outer, top⟩ : Reading).after above lines)) :=
        step_closing ((Lexeme.later_token lines).trans htoken)
      rw [hleft, step_closing htoken, blockOf_add]
      cases blockOf form.line form.items.toList with
      | error error => rfl
      | ok block => exact congrArg Except.ok (add_after above lines ⟨outer, top⟩ block)

/-- Reading on further down is reading on. -/
theorem read_after (lexemes : List Lexeme) :
    (reading.after above lines).read (lexemes.map (Lexeme.later lines))
      = later lines ((reading.read lexemes).map (after above lines)) := by
  induction lexemes generalizing reading with
  | nil => rfl
  | cons lexeme lexemes ih =>
    rw [List.map_cons, read_cons, read_cons, step_after]
    cases reading.step lexeme with
    | error error => rfl
    | ok reading => exact ih reading

theorem finish_after :
    (reading.after above lines).finish = later lines (reading.finish.map (above.toList ++ ·)) := by
  obtain ⟨_ | ⟨form, outer⟩, top⟩ := reading
  · simp [after, finish, Except.map]
  · rfl

end Reading

/-! ## Joined scripts -/

theorem blocks_eq_read (text : List Char) :
    blocks text = Reading.read {} (lexemes text) >>= Reading.finish := rfl

/-- A script that is accepted is read to its end with no form open. -/
theorem read_of_blocks_eq_ok {text : List Char} {result : List Block}
    (h : blocks text = .ok result) :
    Reading.read {} (lexemes text) = .ok ⟨[], result.toArray⟩ := by
  simpa using (areForms_of_blocks_eq_ok h).read rfl #[]

/-- An error other than an open form is met before the end of the script. -/
theorem read_of_blocks_eq_error {text : List Char} {error : Error} (h : blocks text = .error error)
    (hopen : ∀ line, error ≠ .malformed line .unterminated) :
    Reading.read {} (lexemes text) = .error error := by
  rw [blocks_eq_read] at h
  cases hread : Reading.read {} (lexemes text) with
  | error error' =>
    rw [hread] at h
    exact congrArg _ (Except.error.inj h)
  | ok reading =>
    obtain ⟨_ | ⟨form, outer⟩, top⟩ := reading
    · rw [hread] at h
      cases h
    · rw [hread] at h
      exact absurd (Except.error.inj h).symm (hopen form.line)

/-- A script goes on after a newline as if it began there. -/
theorem blocks_append_newline {text : List Char} {result : List Block}
    (h : blocks text = .ok result) (more : List Char) :
    blocks (text ++ '\n' :: more)
      = later (text.count '\n' + 1) ((blocks more).map (result ++ ·)) := by
  -- With no form open, the reading at the newline is the first reading behind some blocks.
  have hfirst : (⟨[], result.toArray⟩ : Reading)
      = Reading.after result.toArray (text.count '\n' + 1) {} := by simp [Reading.after]
  rw [blocks_eq_read, lexemes_append_newline,
    Reading.read_append_of_eq_ok (read_of_blocks_eq_ok h), hfirst, Reading.read_after,
    blocks_eq_read]
  cases Reading.read {} (lexemes more) with
  | error error => rfl
  | ok reading => exact Reading.finish_after _ _ reading

/-- No text can mend an error before it. -/
theorem blocks_append_newline_of_eq_error {text : List Char} {error : Error}
    (h : blocks text = .error error) (hopen : ∀ line, error ≠ .malformed line .unterminated)
    (more : List Char) : blocks (text ++ '\n' :: more) = .error error := by
  rw [blocks_eq_read, lexemes_append_newline, Reading.read_append, read_of_blocks_eq_error h hopen]
  rfl

end Script

namespace Program

variable {name text : String}

theorem ofScript_eq_ok_iff {program : Program} :
    ofScript name text = .ok program
      ↔ ∃ blocks, Script.blocks text.toList = .ok blocks ∧ program = { name, blocks } := by
  rw [ofScript]
  cases Script.blocks text.toList with
  | error error => simp [Except.map]
  | ok blocks => simp [Except.map, eq_comm]

theorem ofScript_eq_error_iff {error : Script.Error} :
    ofScript name text = .error error ↔ Script.blocks text.toList = .error error := by
  rw [ofScript]
  cases Script.blocks text.toList <;> simp [Except.map]

theorem toList_append_newline (text more : String) :
    (text ++ "\n" ++ more).toList = text.toList ++ '\n' :: more.toList := by
  simp

/-- **Scripts can be joined, and are refused as early as can be.**  If a text spells a program, then
with a newline and more text behind it, it spells a program if and only if the other text does, and
the blocks of both follow each other; if the other text is refused, so is the whole, for the same
error, reported as many lines further down as there are before the other text.  If a text is refused
for anything but an open form, it is refused for the same error whatever text follows. -/
theorem ofScript_append_newline (name text more : String) :
    (∀ program, ofScript name text = .ok program →
        (∀ joined, ofScript name (text ++ "\n" ++ more) = .ok joined ↔
            ∃ rest, ofScript name more = .ok rest
              ∧ joined = { name, blocks := program.blocks ++ rest.blocks })
          ∧ ∀ error, ofScript name (text ++ "\n" ++ more) = .error error ↔
              ∃ given, ofScript name more = .error given
                ∧ error = given.later (1 + text.toList.count '\n'))
      ∧ ∀ error, ofScript name text = .error error →
          (∀ line, error ≠ .malformed line .unterminated) →
          ofScript name (text ++ "\n" ++ more) = .error error := by
  constructor
  · intro program h
    obtain ⟨above, habove, rfl⟩ := ofScript_eq_ok_iff.1 h
    have hjoined := Script.blocks_append_newline habove more.toList
    rw [← toList_append_newline] at hjoined
    constructor
    · intro joined
      rw [ofScript_eq_ok_iff, hjoined]
      cases hmore : Script.blocks more.toList with
      | error error => simp [ofScript, hmore, Except.map]
      | ok below => simp [ofScript, hmore, Except.map]
    · intro error
      rw [ofScript_eq_error_iff, hjoined]
      cases hmore : Script.blocks more.toList with
      | error error => simp [ofScript, hmore, Except.map, Nat.add_comm, eq_comm]
      | ok below => simp [ofScript, hmore, Except.map]
  · intro error h hopen
    rw [ofScript_eq_error_iff] at h ⊢
    rw [toList_append_newline]
    exact Script.blocks_append_newline_of_eq_error h hopen more.toList

/-- A stray parenthesis is reported on its line, and no form after it mends it. -/
theorem ofScript_joined_strayClosing :
    ofScript "demo" ("(start)" ++ "\n" ++ ")") = .error (.malformed 2 .strayClosing)
      ∧ ofScript "demo" (")" ++ "\n" ++ "(start)") = .error (.malformed 1 .strayClosing) := by
  have hstart : ofScript "demo" "(start)" = .ok { name := "demo", blocks := [.start] } := by
    have hlexemes : Script.lexemes "(start)".toList
        = [⟨1, ['(']⟩, ⟨1, "start".toList⟩, ⟨1, [')']⟩] := by
      rw [show "(start)".toList = '(' :: ("start".toList ++ [')']) from rfl, Script.lexemes_eq,
        Script.lexemesAt_of_eq_some rfl, Script.lexemesAt_of_eq_some rfl,
        Script.lexemesAt_of_eq_some rfl, Script.lexemesAt_of_eq_none rfl]
      rfl
    refine ofScript_eq_ok_iff.2 ⟨_, Script.blocks_of_areForms ?_, rfl⟩
    rw [hlexemes]
    have hname : "start".toLower = "start" := by
      rw [← String.toList_inj, Script.toList_toLower]
      decide
    exact (Script.IsForm.start hname).areForms
  have hclosing : ofScript "demo" ")" = .error (.malformed 1 .strayClosing) := by
    have hlexemes : Script.lexemes ")".toList = [⟨1, [')']⟩] := by
      rw [show ")".toList = [')'] from rfl, Script.lexemes_eq, Script.lexemesAt_of_eq_some rfl,
        Script.lexemesAt_of_eq_none rfl]
    rw [ofScript_eq_error_iff, Script.blocks, hlexemes]
    rfl
  constructor
  · exact (((ofScript_append_newline "demo" "(start)" ")").1 _ hstart).2 _).2 ⟨_, hclosing, rfl⟩
  · exact (ofScript_append_newline "demo" ")" "(start)").2 _ hclosing (by simp)

end Program
end BlockScript
