/-!
# Integers written in decimal

A whole number in a script or in an editor's text is an optional sign and a run of decimal digits.

## What is here

* `Text.natural?` and `Text.integer?` — the number that a whole text writes.
* `Text.leadingInteger` — the longest start of a text that has the shape of an integer, for
  texts such as `12 times` that only begin with a number.
-/

set_option autoImplicit false
namespace BlockScript.Text

/-- The number written by a run of decimal digits, most significant digit first. -/
def digitsValue (digits : List Char) : Nat :=
  digits.foldl (fun value c => 10 * value + (c.toNat - '0'.toNat)) 0

/-- The number that a non-empty run of decimal digits writes; leading zeros are allowed. -/
def natural? (text : List Char) : Option Nat :=
  if text ≠ [] ∧ text.all Char.isDigit then some (digitsValue text) else none

/-- The number that decimal digits write after at most one sign. -/
def integer? (text : List Char) : Option Int :=
  match text with
  | '-' :: digits => (natural? digits).map fun n => -(n : Int)
  | '+' :: digits => (natural? digits).map Int.ofNat
  | digits => (natural? digits).map Int.ofNat

/-- The longest start of a text made of at most one leading sign and decimal digits. -/
def leadingInteger (text : List Char) : List Char :=
  match text with
  | c :: rest =>
    if c = '-' ∨ c = '+' then c :: rest.takeWhile Char.isDigit
    else text.takeWhile Char.isDigit
  | [] => []

end BlockScript.Text
