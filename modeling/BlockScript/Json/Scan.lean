import BlockScript.Json.Fault

/-!
# Blanks, words and punctuation

Documents are read as bytes. Every reader takes the bytes that are left and gives back what it read
with the bytes left after it, together with a proof that they have become fewer; reading ends for
this reason.

## What is here

* `Json.Read` — a value read from the start of a text, and the text after it.
* `Json.skipBlanks`, `Json.expectTail` — white space, and the rest of a known word.
* `Json.nextItem?`, `Json.closeList`, `Json.afterList` — moving through a list and out of it.
* `Json.nextKey?`, `Json.colon`, `Json.closeObject`, `Json.afterObject` — the same for an object.
-/

set_option autoImplicit false
namespace BlockScript.Json

/-- The byte of an ASCII character. -/
abbrev ascii (c : Char) : UInt8 := c.toUInt8

/-- What was read from the start of a text, and the text after it, which is shorter. -/
structure Read (α : Type) (text : List UInt8) where
  value : α
  rest : List UInt8
  shorter : rest.length < text.length

/-- A text that is left over of another one. -/
abbrev Tail (text : List UInt8) := { rest : List UInt8 // rest.length ≤ text.length }

theorem length_le_self (text : List UInt8) : text.length ≤ text.length := Nat.le_refl _

theorem length_le_cons (b : UInt8) (rest : List UInt8) : rest.length ≤ (b :: rest).length :=
  Nat.le_succ _

theorem length_lt_cons (b : UInt8) (rest : List UInt8) : rest.length < (b :: rest).length :=
  Nat.lt_succ_self _

theorem length_lt_trans {text start rest whole : List UInt8} (h : text.length < whole.length)
    (hstart : start.length ≤ text.length) (hrest : rest.length < start.length) :
    rest.length < whole.length :=
  Nat.lt_trans (Nat.lt_of_lt_of_le hrest hstart) h

/-- A whole text, of which nothing has been read. -/
def Tail.all (text : List UInt8) : Tail text := ⟨text, length_le_self text⟩

/-- What was read from a part of a text was read from the text. -/
def Read.of {α : Type} {part text : List UInt8} (h : part.length ≤ text.length)
    (read : Read α part) : Read α text :=
  { read with shorter := Nat.lt_of_lt_of_le read.shorter h }

/-- A value read up to some text, once what closes it has been read from that text. -/
def Read.close {α : Type} {part text : List UInt8} (value : α) (h : part.length < text.length)
    (read : Read Unit part) : Read α text :=
  ⟨value, read.rest, Nat.lt_trans read.shorter h⟩

/-- What was read, changed by a function. -/
def Read.map {α β : Type} {text : List UInt8} (f : α → β) (read : Read α text) : Read β text :=
  { read with value := f read.value }

/-! ## Blanks and words -/

/-- Whether a byte is white space in a document. -/
def isBlank (b : UInt8) : Bool :=
  b = ascii ' ' || b = ascii '\n' || b = ascii '\t' || b = ascii '\r'

/-- The text after the white space it begins with. -/
def skipBlanks (text : List UInt8) : List UInt8 := text.dropWhile isBlank

theorem length_skipBlanks (text : List UInt8) : (skipBlanks text).length ≤ text.length :=
  (List.dropWhile_suffix isBlank).length_le

theorem length_le_of_skipBlanks {text rest : List UInt8} (h : skipBlanks text = rest) :
    rest.length ≤ text.length :=
  h ▸ length_skipBlanks text

theorem length_lt_of_skipBlanks {text rest : List UInt8} {b : UInt8}
    (h : skipBlanks text = b :: rest) : rest.length < text.length := by
  have := length_le_of_skipBlanks h
  simp only [List.length_cons] at this
  omega

theorem length_tail_le_of_skipBlanks {text rest : List UInt8} {b : UInt8}
    (h : skipBlanks text = b :: rest) : rest.length ≤ text.length :=
  Nat.le_of_lt (length_lt_of_skipBlanks h)

/-- Reads the given letters and nothing else. -/
def expectTail (letters : List Char) (text : List UInt8) : Except Fault (Tail text) :=
  match letters, text with
  | [], text => .ok (Tail.all text)
  | _ :: _, [] => .error (.before .endInValue [])
  | c :: letters, b :: rest =>
    if b = ascii c then
      (expectTail letters rest).map fun after =>
        ⟨after.val, Nat.le_trans after.property (Nat.le_succ _)⟩
    else .error (.before .expectedWord rest)

/-! ## Lists -/

/-- Moves to the next item of a list: to the text that the item begins, or to nothing if the
closing bracket comes next. Items after the first are preceded by a comma. -/
def nextItem? (first : Bool) (text : List UInt8) : Except Fault (Option (Tail text)) :=
  match h : skipBlanks text with
  | [] => .error (.peek .endInList [])
  | b :: rest =>
    if b = ascii ']' then .ok none
    else if first then .ok (some ⟨b :: rest, length_le_of_skipBlanks h⟩)
    else if b = ascii ',' then
      match h' : skipBlanks rest with
      | [] => .error (.peek .endInValue [])
      | c :: after =>
        if c = ascii ']' then .error (.peek .trailingComma (c :: after))
        else
          .ok (some ⟨c :: after, Nat.le_trans (length_le_of_skipBlanks h')
            (length_tail_le_of_skipBlanks h)⟩)
    else .error (.peek .expectedCommaInList (b :: rest))

/-- Reads the closing bracket of a list. -/
def closeList (text : List UInt8) : Except Fault (Read Unit text) :=
  match h : skipBlanks text with
  | [] => .error (.peek .endInList [])
  | b :: rest =>
    if b = ascii ']' then .ok ⟨(), rest, length_lt_of_skipBlanks h⟩
    else if b = ascii ',' then
      match skipBlanks rest with
      | [] => .error (.peek .trailingCharacters [])
      | c :: after =>
        if c = ascii ']' then .error (.peek .trailingComma (c :: after))
        else .error (.peek .trailingCharacters (c :: after))
    else .error (.peek .trailingCharacters (b :: rest))

/-- Where the reader stands when it has tried to leave a list: after the closing bracket, or after
a comma and the blanks that follow it. -/
def afterList (text : List UInt8) : List UInt8 :=
  match skipBlanks text with
  | [] => []
  | b :: rest =>
    if b = ascii ']' then rest
    else if b = ascii ',' then skipBlanks rest
    else b :: rest

/-! ## Objects -/

/-- Moves to the next key of an object: to the text after the quote that opens it, or to nothing if
the closing brace comes next. Keys after the first are preceded by a comma. -/
def nextKey? (first : Bool) (text : List UInt8) : Except Fault (Option (Tail text)) :=
  match h : skipBlanks text with
  | [] => .error (.peek .endInObject [])
  | b :: rest =>
    if b = ascii '\x7d' then .ok none
    else if first then
      if b = ascii '\x22' then .ok (some ⟨rest, length_tail_le_of_skipBlanks h⟩)
      else .error (.peek .keyNotString (b :: rest))
    else if b = ascii ',' then
      match h' : skipBlanks rest with
      | [] => .error (.peek .endInValue [])
      | c :: after =>
        if c = ascii '\x22' then
          .ok (some ⟨after, Nat.le_of_lt (Nat.lt_trans (length_lt_of_skipBlanks h')
            (length_lt_of_skipBlanks h))⟩)
        else if c = ascii '\x7d' then .error (.peek .trailingComma (c :: after))
        else .error (.peek .keyNotString (c :: after))
    else .error (.peek .expectedCommaInObject (b :: rest))

/-- Reads the colon between a key and its value. -/
def colon (text : List UInt8) : Except Fault (Read Unit text) :=
  match h : skipBlanks text with
  | [] => .error (.peek .endInObject [])
  | b :: rest =>
    if b = ascii ':' then .ok ⟨(), rest, length_lt_of_skipBlanks h⟩
    else .error (.peek .expectedColon (b :: rest))

/-- Reads the closing brace of an object. -/
def closeObject (text : List UInt8) : Except Fault (Read Unit text) :=
  match h : skipBlanks text with
  | [] => .error (.peek .endInObject [])
  | b :: rest =>
    if b = ascii '\x7d' then .ok ⟨(), rest, length_lt_of_skipBlanks h⟩
    else if b = ascii ',' then .error (.peek .trailingComma (b :: rest))
    else .error (.peek .trailingCharacters (b :: rest))

/-- Where the reader stands when it has tried to leave an object: after the closing brace, if that
comes next. -/
def afterObject (text : List UInt8) : List UInt8 :=
  match skipBlanks text with
  | [] => []
  | b :: rest => if b = ascii '\x7d' then rest else b :: rest

end BlockScript.Json
