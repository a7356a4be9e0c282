import BlockScript.Text.Blank
import BlockScript.Text.Integer

/-!
# The lexemes of a script

A script is written with opening and closing parentheses and atoms. Between them stand gaps:
ASCII blanks, and comments that run from a semicolon to the end of its line.

## What is here

* `Script.Atom` and `Script.Token` — what a lexeme means. An atom is an integer if it is written
  like one and has at most 64 bits, and a word otherwise.
* `Script.Lexeme` — the characters of one parenthesis or atom, and the line it starts on.
* `Script.Lexeme.next?` — the first lexeme of a text, and the text after it, which is shorter by
  `Script.Lexeme.length_next?`.
* `Script.lexemes` — all lexemes of a text, in order.
-/

set_option autoImplicit false
namespace BlockScript.Script

/-! ## Tokens -/

/-- A run of characters that is no parenthesis, read as an integer where it is one. -/
inductive Atom where
  /-- Any atom that is not an integer, as it is written. -/
  | word (text : String)
  /-- An integer of at most 64 bits, its sign included. -/
  | integer (value : Int)
  deriving DecidableEq, Repr

/-- The atom with the given characters. -/
def Atom.ofText (text : List Char) : Atom :=
  match Text.integer? text with
  | some n =>
    if -9223372036854775808 ≤ n ∧ n ≤ 9223372036854775807 then .integer n
    else .word (String.ofList text)
  | none => .word (String.ofList text)

/-- An atom as messages show it: a word as it is written, an integer in its shortest form. -/
def Atom.display : Atom → String
  | .word text => text
  | .integer value => toString value

/-- What a lexeme means to the reader of forms. -/
inductive Token where
  | opening
  | closing
  | atom (atom : Atom)
  deriving DecidableEq, Repr

/-! ## Lexemes -/

/-- One parenthesis or atom of a script. -/
structure Lexeme where
  /-- The line it starts on, counted from one. -/
  line : Nat
  /-- Its characters. -/
  text : List Char
  deriving DecidableEq, Repr

/-- Whether a character can stand in an atom. -/
def isAtomChar (c : Char) : Bool :=
  !(Text.isAsciiBlank c || c = '(' || c = ')' || c = ';')

/-- The text after the gap it begins with, and the line on which that text begins. -/
def skipGap (inComment : Bool) (line : Nat) : List Char → Nat × List Char
  | [] => (line, [])
  | c :: rest =>
    if c = '\n' then skipGap false (line + 1) rest
    else if inComment || Text.isAsciiBlank c then skipGap inComment line rest
    else if c = ';' then skipGap true line rest
    else (line, c :: rest)

theorem length_skipGap (inComment : Bool) (line : Nat) (text : List Char) :
    (skipGap inComment line text).2.length ≤ text.length := by
  fun_induction skipGap inComment line text <;> simp only [List.length_cons] <;> omega

namespace Lexeme

/-- The token that a lexeme stands for. -/
def token (lexeme : Lexeme) : Token :=
  match lexeme.text with
  | ['('] => .opening
  | [')'] => .closing
  | text => .atom (Atom.ofText text)

/-- The first lexeme of a text that starts on the given line, and the text after it. -/
def next? (line : Nat) (text : List Char) : Option (Lexeme × List Char) :=
  match skipGap false line text with
  | (_, []) => none
  | (line, c :: rest) =>
    if c = '(' ∨ c = ')' then some (⟨line, [c]⟩, rest)
    else some (⟨line, c :: rest.takeWhile isAtomChar⟩, rest.dropWhile isAtomChar)

/-- A lexeme has at least one character. -/
theorem length_next? {line : Nat} {text rest : List Char} {lexeme : Lexeme}
    (h : next? line text = some (lexeme, rest)) : rest.length < text.length := by
  have hskip := length_skipGap false line text
  unfold next? at h
  split at h
  · simp at h
  · rename_i start c after heq
    rw [heq] at hskip
    simp only [List.length_cons] at hskip
    split at h
    · obtain ⟨-, rfl⟩ := h
      omega
    · obtain ⟨-, rfl⟩ := h
      have := (List.dropWhile_suffix (l := after) isAtomChar).length_le
      omega

end Lexeme

/-- The lexemes found so far, followed by those of the rest of the text. -/
def lexemesFrom (found : Array Lexeme) (line : Nat) (text : List Char) : Array Lexeme :=
  match _h : Lexeme.next? line text with
  | none => found
  | some (lexeme, rest) => lexemesFrom (found.push lexeme) lexeme.line rest
termination_by text.length
decreasing_by exact Lexeme.length_next? (by assumption)

/-- The lexemes of a script in order. -/
def lexemes (text : List Char) : List Lexeme := (lexemesFrom #[] 1 text).toList

end BlockScript.Script
