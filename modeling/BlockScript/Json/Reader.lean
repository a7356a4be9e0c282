import BlockScript.Json.Number
import BlockScript.Json.Quoted

/-!
# Reading values

## What is here

* `Json.maxDepth` — how many lists and objects may be open at a time.
* `Json.readValue` — reads any value, with a number of brackets that may still be opened.
* `Json.skipValue` — passes over any value; its brackets are kept in a list, so that their number
  is not limited.
-/

set_option autoImplicit false
namespace BlockScript.Json

/-- How many lists and objects may be open at a time. -/
def maxDepth : Nat := 127

/-! ## Values -/

/-- Reads the rest of a word, which stands for a value. -/
def readWord (letters : List Char) (value : Value) (text : List UInt8) :
    Except Fault (Value × Tail text) :=
  (expectTail letters text).map fun rest => (value, rest)

/-- Reads a value that is neither a list nor an object and begins with the byte `b`. -/
def readScalar (b : UInt8) (rest : List UInt8) : Except Fault (Value × Tail rest) :=
  if b = ascii 'n' then readWord ['u', 'l', 'l'] .null rest
  else if b = ascii 't' then readWord ['r', 'u', 'e'] (.bool true) rest
  else if b = ascii 'f' then readWord ['a', 'l', 's', 'e'] (.bool false) rest
  else if b = ascii '\x22' then
    (readString rest).map fun read => (.string read.value, ⟨read.rest, Nat.le_of_lt read.shorter⟩)
  else if b = ascii '-' then
    (readNumber true rest).map fun read => (read.value, ⟨read.rest, Nat.le_of_lt read.shorter⟩)
  else if isDigit b then
    (readNumber false (b :: rest)).map fun read =>
      (read.value, ⟨read.rest, Nat.le_of_lt_succ read.shorter⟩)
  else .error (.peek .expectedValue (b :: rest))

mutual

/-- Reads a value of which at most `depth` lists and objects contain each other. -/
def readValue (depth : Nat) (text : List UInt8) : Except Fault (Read Value text) :=
  match h : skipBlanks text with
  | [] => .error (.peek .endInValue [])
  | b :: rest =>
    have hrest := length_lt_of_skipBlanks h
    if b = ascii '[' then
      match depth with
      | 0 => .error (.peek .tooDeep (b :: rest))
      | depth + 1 =>
        (readItems depth true #[] rest hrest).map fun read => read.map fun items => .list items
    else if b = ascii '\x7b' then
      match depth with
      | 0 => .error (.peek .tooDeep (b :: rest))
      | depth + 1 =>
        (readFields depth true #[] rest hrest).map fun read =>
          read.map fun fields => .object fields
    else
      (readScalar b rest).map fun (value, after) =>
        ⟨value, after.val, Nat.lt_of_le_of_lt after.property hrest⟩
termination_by (text.length, 0)
decreasing_by all_goals exact Prod.Lex.left _ _ hrest

/-- Reads the items of a list and its closing bracket, after the items read so far. -/
def readItems {whole : List UInt8} (depth : Nat) (first : Bool) (items : Array Value)
    (text : List UInt8) (h : text.length < whole.length) :
    Except Fault (Read (List Value) whole) :=
  match nextItem? first text with
  | .error fault => .error fault
  | .ok none =>
    (closeList text).map (Read.close items.toList h)
  | .ok (some ⟨start, hstart⟩) =>
    match readValue depth start with
    | .error fault => .error fault
    | .ok ⟨value, rest, hrest⟩ => readItems depth false (items.push value) rest (by omega)
termination_by (text.length, 1)
decreasing_by
  · rcases Nat.lt_or_eq_of_le hstart with hlt | heq
    · exact Prod.Lex.left _ _ hlt
    · rw [heq]; exact Prod.Lex.right _ (by decide)
  · exact Prod.Lex.left _ _ (by omega)

/-- Reads the fields of an object and its closing brace, after the fields read so far. -/
def readFields {whole : List UInt8} (depth : Nat) (first : Bool)
    (fields : Array (String × Value)) (text : List UInt8) (h : text.length < whole.length) :
    Except Fault (Read (List (String × Value)) whole) :=
  match nextKey? first text with
  | .error fault => .error fault
  | .ok none =>
    (closeObject text).map (Read.close fields.toList h)
  | .ok (some ⟨start, hstart⟩) =>
    match readString start with
    | .error fault => .error fault
    | .ok ⟨key, afterKey, hkey⟩ =>
      match colon afterKey with
      | .error fault => .error fault
      | .ok ⟨_, afterColon, hcolon⟩ =>
        match readValue depth afterColon with
        | .error fault => .error fault
        | .ok ⟨value, rest, hrest⟩ =>
          readFields depth false (fields.push (key, value)) rest (by omega)
termination_by (text.length, 1)
decreasing_by
  all_goals exact Prod.Lex.left _ _ (by omega)

end

/-! ## Passing over values -/

/-- A list or object that is being passed over. -/
inductive Bracket where
  | list
  | object
  deriving DecidableEq

/-- Passes over the key of an object and the colon after it. -/
def skipKey (text : List UInt8) : Except Fault (Read Unit text) :=
  match h : skipBlanks text with
  | [] => .error (.peek .endInObject [])
  | b :: rest =>
    if b = ascii '\x22' then
      match skipString rest with
      | .error fault => .error fault
      | .ok ⟨_, after, hafter⟩ =>
        (colon after).map (Read.of (by have := length_lt_of_skipBlanks h; omega))
    else .error (.peek .keyNotString (b :: rest))

/-- Passes over a value that is neither a list nor an object and begins with the byte `b`. -/
def skipScalar (b : UInt8) (rest : List UInt8) : Except Fault (Tail rest) :=
  if b = ascii 'n' then expectTail ['u', 'l', 'l'] rest
  else if b = ascii 't' then expectTail ['r', 'u', 'e'] rest
  else if b = ascii 'f' then expectTail ['a', 'l', 's', 'e'] rest
  else if b = ascii '\x22' then
    (skipString rest).map fun read => ⟨read.rest, Nat.le_of_lt read.shorter⟩
  else if b = ascii '-' then
    (skipNumber rest).map fun read => ⟨read.rest, Nat.le_of_lt read.shorter⟩
  else if isDigit b then
    (skipNumber (b :: rest)).map fun read => ⟨read.rest, Nat.le_of_lt_succ read.shorter⟩
  else .error (.peek .expectedValue (b :: rest))

mutual

/-- Passes over a value and all that is left of the lists and objects around it. -/
def skipInto {whole : List UInt8} (around : List Bracket) (text : List UInt8)
    (h : text.length ≤ whole.length) : Except Fault (Read Unit whole) :=
  match hblanks : skipBlanks text with
  | [] => .error (.peek .endInValue [])
  | b :: rest =>
    have hrest := length_lt_of_skipBlanks hblanks
    if b = ascii '[' then skipOut false (.list :: around) rest (by omega)
    else if b = ascii '\x7b' then skipOut false (.object :: around) rest (by omega)
    else
      match skipScalar b rest with
      | .error fault => .error fault
      | .ok ⟨after, hafter⟩ => skipOut true around after (by omega)
termination_by (text.length, 0)
decreasing_by all_goals exact Prod.Lex.left _ _ (by omega)

/-- Passes over what is left of some lists and objects, the innermost first. A comma may come next
if the innermost one has had a value. -/
def skipOut {whole : List UInt8} (comma : Bool) (around : List Bracket) (text : List UInt8)
    (h : text.length < whole.length) : Except Fault (Read Unit whole) :=
  match around with
  | [] => .ok ⟨(), text, h⟩
  | bracket :: outer =>
    match hblanks : skipBlanks text with
    | [] => .error (.peek (if bracket = .list then .endInList else .endInObject) [])
    | b :: rest =>
      have hrest := length_lt_of_skipBlanks hblanks
      if (b = ascii ']' ∧ bracket = .list) ∨ (b = ascii '\x7d' ∧ bracket = .object) then
        skipOut true outer rest (by omega)
      else
        let start := if comma then rest else b :: rest
        have hstart : start.length ≤ text.length := by
          have := length_le_of_skipBlanks hblanks
          simp only [start]; split <;> omega
        if comma ∧ b ≠ ascii ',' then
          .error (.peek
            (if bracket = .list then .expectedCommaInList else .expectedCommaInObject) (b :: rest))
        else
          match bracket with
          | .list => skipInto (.list :: outer) start (by omega)
          | .object =>
            match skipKey start with
            | .error fault => .error fault
            | .ok ⟨_, after, hafter⟩ => skipInto (.object :: outer) after (by omega)
termination_by (text.length, 1)
decreasing_by
  · exact Prod.Lex.left _ _ hrest
  · rcases Nat.lt_or_eq_of_le hstart with hlt | heq
    · exact Prod.Lex.left _ _ hlt
    · rw [heq]; exact Prod.Lex.right _ (by decide)
  · exact Prod.Lex.left _ _ (by omega)

end

/-- Passes over a value. Only its form is checked: numbers may be too large, strings may hold
bytes that are no characters, and lists and objects may nest to any depth. -/
def skipValue (text : List UInt8) : Except Fault (Read Unit text) :=
  skipInto [] text (length_le_self text)

end BlockScript.Json
