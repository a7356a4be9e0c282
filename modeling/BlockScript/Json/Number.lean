import BlockScript.Json.Scan
import BlockScript.Number.Scaling

/-!
# Numbers in documents

A number without fraction and exponent that fits 64 bits is kept as a whole number. Any other
number becomes a double: its digits are gathered into a significand of 64 bits for as long as they
fit, and the significand is then scaled once.

## What is here

* `Json.gather` — the digits that fit a significand, and those after them.
* `Json.readNumber` — reads a number, up to the first byte that cannot belong to it.
* `Json.skipNumber` — passes over a number, checking only its form.
-/

set_option autoImplicit false
namespace BlockScript.Json

/-! ## Digits -/

/-- Whether a byte is a decimal digit. -/
def isDigit (b : UInt8) : Bool := ascii '0' ≤ b && b ≤ ascii '9'

/-- The value of a decimal digit. -/
def digitValue (b : UInt8) : Nat := b.toNat - 48

/-- The largest significand: the largest number of 64 bits. -/
def maxSignificand : Nat := 18446744073709551615

/-- The largest exponent that is written out: the largest signed number of 32 bits. -/
def maxExponent : Nat := 2147483647

/-- The text after the digits it begins with. -/
def dropDigits (text : List UInt8) : Tail text :=
  ⟨text.dropWhile isDigit, (List.dropWhile_suffix isDigit).length_le⟩

/-- Whether a text begins with a digit. -/
def startsWithDigit : List UInt8 → Bool
  | [] => false
  | b :: _ => isDigit b

/-- Whether a text begins with the letter that introduces an exponent. -/
def startsWithExponent : List UInt8 → Bool
  | [] => false
  | b :: _ => b = ascii 'e' || b = ascii 'E'

/-- Whether a text goes on with a fraction or an exponent, which makes a number a double. -/
def startsWithScale : List UInt8 → Bool
  | [] => false
  | b :: _ => b = ascii '.' || b = ascii 'e' || b = ascii 'E'

/-- A significand that has taken in some digits of a text, and the text after them. -/
structure Gathered (text : List UInt8) where
  significand : Nat
  /-- How many digits were taken in. -/
  count : Nat
  rest : List UInt8
  le : rest.length ≤ text.length

/-- Takes the digits of a text into a significand, up to the first that would make it larger than
`limit`. -/
def gather (limit significand count : Nat) (text : List UInt8) : Gathered text :=
  match text with
  | [] => ⟨significand, count, [], Nat.le_refl _⟩
  | b :: rest =>
    if isDigit b && significand * 10 + digitValue b ≤ limit then
      let gathered := gather limit (significand * 10 + digitValue b) (count + 1) rest
      { gathered with le := Nat.le_trans gathered.le (Nat.le_succ _) }
    else ⟨significand, count, b :: rest, Nat.le_refl _⟩

/-- The sign that an exponent begins with: whether it is a minus, and the text after it. -/
def takeSign (text : List UInt8) : Bool × Tail text :=
  match text with
  | [] => (false, Tail.all [])
  | b :: rest =>
    if b = ascii '+' then (false, ⟨rest, length_le_cons b rest⟩)
    else if b = ascii '-' then (true, ⟨rest, length_le_cons b rest⟩)
    else (false, Tail.all (b :: rest))

/-- A part of a part of a text. -/
def Tail.of {part text : List UInt8} (h : part.length ≤ text.length) (tail : Tail part) :
    Tail text :=
  ⟨tail.val, Nat.le_trans tail.property h⟩

/-! ## Doubles -/

/-- The double with the given digits and exponent of ten; one that is too large is refused. -/
def scaledValue (negative : Bool) (significand : Nat) (exponent : Int) (rest : List UInt8) :
    Except Fault Value :=
  match Number.scaled? significand exponent with
  | some x => .ok (.float (if negative then -x else x))
  | none => .error (.before .numberOutOfRange rest)

/-- Reads the exponent after its letter. An exponent beyond 32 bits gives zero where the digits are
zero or the exponent is negative, and is refused otherwise. -/
def readExponent (negative : Bool) (significand : Nat) (exponent : Int) (text : List UInt8) :
    Except Fault (Value × Tail text) :=
  let (shrinking, digits) := takeSign text
  if startsWithDigit digits.val then
    let written := gather maxExponent 0 0 digits.val
    have hwritten := Nat.le_trans written.le digits.property
    if startsWithDigit written.rest then
      if significand ≠ 0 ∧ ¬ shrinking then
        .error (.before .numberOutOfRange (written.rest.drop 1))
      else .ok (.float (if negative then -0.0 else 0.0), (dropDigits written.rest).of hwritten)
    else
      let total := if shrinking then exponent - written.significand
        else exponent + written.significand
      (scaledValue negative significand total written.rest).map fun value =>
        (value, ⟨written.rest, hwritten⟩)
  else
    match digits.val with
    | [] => .error (.before .endInValue [])
    | _ :: rest => .error (.before .invalidNumber rest)

/-- Reads what may follow the digits of a double: an exponent. -/
def readScaled (negative : Bool) (significand : Nat) (exponent : Int) (text : List UInt8) :
    Except Fault (Value × Tail text) :=
  if startsWithExponent text then
    (readExponent negative significand exponent text.tail).map fun (value, after) =>
      (value, after.of (by simp))
  else
    (scaledValue negative significand exponent text).map fun value =>
      (value, Tail.all text)

/-- Reads the digits after a point, of which there is at least one. Digits that the significand
cannot take in are dropped. -/
def readFraction (negative : Bool) (significand : Nat) (exponent : Int) (text : List UInt8) :
    Except Fault (Value × Tail text) :=
  let gathered := gather maxSignificand significand 0 text
  if gathered.count = 0 ∧ ¬ startsWithDigit gathered.rest then
    .error (.peek (if text.isEmpty then .endInValue else .invalidNumber) text)
  else
    let rest := dropDigits gathered.rest
    have hrest := Nat.le_trans rest.property gathered.le
    (readScaled negative gathered.significand (exponent - gathered.count) rest.val).map
      fun (value, after) => (value, after.of hrest)

/-- Reads what may follow the digits before the point: a fraction, an exponent, or neither. -/
def readAfterWhole (negative : Bool) (significand : Nat) (exponent : Int) (text : List UInt8) :
    Except Fault (Value × Tail text) :=
  match text with
  | [] => readScaled negative significand exponent []
  | b :: rest =>
    if b = ascii '.' then
      (readFraction negative significand exponent rest).map fun (value, after) =>
        (value, after.of (Nat.le_succ _))
    else readScaled negative significand exponent (b :: rest)

/-! ## Numbers -/

/-- A whole number of at most 64 bits. Negative zero and what is below the least signed number are
doubles. -/
def wholeValue (negative : Bool) (significand : Nat) : Value :=
  if ¬ negative then .integer significand
  else if significand = 0 ∨ 9223372036854775808 < significand then
    .float (-(Float.ofNat significand))
  else .integer (-(significand : Int))

/-- Reads a number from its first digit on. Digits before the point that the significand cannot
take in are counted in the exponent. -/
def readNumber (negative : Bool) (text : List UInt8) : Except Fault (Read Value text) :=
  match text with
  | [] => .error (.before .endInValue [])
  | b :: rest =>
    if b = ascii '0' then
      if startsWithDigit rest then .error (.peek .invalidNumber rest)
      else if startsWithScale rest then
        (readAfterWhole negative 0 0 rest).map fun (value, after) =>
          ⟨value, after.val, Nat.lt_succ_of_le after.property⟩
      else .ok ⟨wholeValue negative 0, rest, Nat.lt_succ_self _⟩
    else if isDigit b then
      let gathered := gather maxSignificand (digitValue b) 1 rest
      if startsWithDigit gathered.rest || startsWithScale gathered.rest then
        let after := dropDigits gathered.rest
        have hafter := Nat.le_trans after.property gathered.le
        let dropped := gathered.rest.length - after.val.length
        (readAfterWhole negative gathered.significand dropped after.val).map
          fun (value, left) =>
            ⟨value, left.val, Nat.lt_succ_of_le (Nat.le_trans left.property hafter)⟩
      else
        .ok ⟨wholeValue negative gathered.significand, gathered.rest,
          Nat.lt_succ_of_le gathered.le⟩
    else .error (.before .invalidNumber rest)

/-! ## Passing over numbers -/

/-- Passes over an exponent after its letter. -/
def skipExponent (text : List UInt8) : Except Fault (Tail text) :=
  let digits := (takeSign text).2
  if startsWithDigit digits.val then .ok ((dropDigits digits.val).of digits.property)
  else .error (.before .invalidNumber (digits.val.drop 1))

/-- Passes over an exponent, if one comes next. -/
def skipScale (text : List UInt8) : Except Fault (Tail text) :=
  if startsWithExponent text then (skipExponent text.tail).map fun after => after.of (by simp)
  else .ok (Tail.all text)

/-- Passes over a fraction and an exponent, if they come next. -/
def skipAfterWhole (text : List UInt8) : Except Fault (Tail text) :=
  match text with
  | [] => .ok (Tail.all [])
  | b :: rest =>
    if b = ascii '.' then
      if startsWithDigit rest then
        let after := dropDigits rest
        (skipScale after.val).map fun left =>
          left.of (Nat.le_trans after.property (Nat.le_succ _))
      else .error (.peek .invalidNumber rest)
    else skipScale (b :: rest)

/-- Passes over a number from its first digit on. -/
def skipNumber (text : List UInt8) : Except Fault (Read Unit text) :=
  match text with
  | [] => .error (.before .invalidNumber [])
  | b :: rest =>
    if b = ascii '0' then
      if startsWithDigit rest then .error (.peek .invalidNumber rest)
      else
        (skipAfterWhole rest).map fun after =>
          ⟨(), after.val, Nat.lt_succ_of_le after.property⟩
    else if isDigit b then
      let after := dropDigits rest
      (skipAfterWhole after.val).map fun left =>
        ⟨(), left.val, Nat.lt_succ_of_le (Nat.le_trans left.property after.property)⟩
    else .error (.before .invalidNumber rest)

end BlockScript.Json
