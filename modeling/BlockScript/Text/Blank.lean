/-!
# White space

Two classes of blank characters: the characters that Unicode gives the property `White_Space`,
which are ignored around a number in free text, and the five ASCII blanks that separate the
tokens of a script.

## What is here

* `Text.isWhiteSpace` and `Text.trim` — the Unicode class, and a text without it at both ends.
* `Text.isAsciiBlank` — space, tab, line feed, form feed and carriage return.
-/

set_option autoImplicit false
namespace BlockScript.Text

/-- The ranges of code points with the Unicode property `White_Space`. -/
def whiteSpaceRanges : List (Nat × Nat) :=
  [(0x09, 0x0d), (0x20, 0x20), (0x85, 0x85), (0xa0, 0xa0), (0x1680, 0x1680), (0x2000, 0x200a),
    (0x2028, 0x2029), (0x202f, 0x202f), (0x205f, 0x205f), (0x3000, 0x3000)]

/-- Whether a character has the Unicode property `White_Space`. -/
def isWhiteSpace (c : Char) : Bool :=
  whiteSpaceRanges.any fun (low, high) => low ≤ c.toNat && c.toNat ≤ high

/-- A text without the white space at its two ends. -/
def trim (text : List Char) : List Char :=
  (text.dropWhile isWhiteSpace).reverse.dropWhile isWhiteSpace |>.reverse

/-- Whether a character is one of the ASCII blanks; vertical tab is not. -/
def isAsciiBlank (c : Char) : Bool :=
  c = ' ' || c = '\t' || c = '\n' || c = '\x0c' || c = '\r'

/-- The ASCII blanks are white space. -/
theorem isWhiteSpace_of_isAsciiBlank {c : Char} (h : isAsciiBlank c = true) :
    isWhiteSpace c = true := by
  simp only [isAsciiBlank, Bool.or_eq_true, decide_eq_true_eq] at h
  rcases h with (((rfl | rfl) | rfl) | rfl) | rfl <;> decide

end BlockScript.Text
