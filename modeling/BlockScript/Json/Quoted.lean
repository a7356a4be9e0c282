import BlockScript.Json.Scan

/-!
# Strings in documents

A string stands between double quotes. Quotes, backslashes and control characters are written with
escapes; a character outside the first plane can be written as a pair of surrogates.

## What is here

* `Json.readString` — reads a string whose opening quote has been read.
* `Json.skipString` — passes over such a string without decoding it.
* `Json.quote` — writes a string.
-/

set_option autoImplicit false
namespace BlockScript.Json

/-! ## Escapes -/

/-- The value of a hexadecimal digit. -/
def hexDigit? (b : UInt8) : Option Nat :=
  if ascii '0' ≤ b ∧ b ≤ ascii '9' then some (b.toNat - 48)
  else if ascii 'a' ≤ b ∧ b ≤ ascii 'f' then some (b.toNat - 87)
  else if ascii 'A' ≤ b ∧ b ≤ ascii 'F' then some (b.toNat - 55)
  else none

/-- Reads four hexadecimal digits; they are read before they are judged. -/
def readHex (text : List UInt8) : Except Fault (Read Nat text) :=
  match text with
  | a :: b :: c :: d :: rest =>
    match hexDigit? a, hexDigit? b, hexDigit? c, hexDigit? d with
    | some a, some b, some c, some d =>
      .ok ⟨((a * 16 + b) * 16 + c) * 16 + d, rest, by simp only [List.length_cons]; omega⟩
    | _, _, _, _ => .error (.before .invalidEscape rest)
  | _ => .error (.before .endInString [])

/-- The character that an escape letter other than `u` stands for. -/
def escaped? (b : UInt8) : Option UInt8 :=
  if b = ascii '\x22' ∨ b = ascii '\\' ∨ b = ascii '/' then some b
  else if b = ascii 'b' then some 8
  else if b = ascii 'f' then some 12
  else if b = ascii 'n' then some 10
  else if b = ascii 'r' then some 13
  else if b = ascii 't' then some 9
  else none

/-- Whether a number is the first half of a surrogate pair. -/
def isHighSurrogate (n : Nat) : Bool := 0xd800 ≤ n && n ≤ 0xdbff

/-- Whether a number is the second half of a surrogate pair. -/
def isLowSurrogate (n : Nat) : Bool := 0xdc00 ≤ n && n ≤ 0xdfff

/-- Reads the second half of a surrogate pair, its `\u` included. A byte that begins no such half
is read before it is refused. -/
def readLowSurrogate (text : List UInt8) : Except Fault (Read Nat text) :=
  match text with
  | [] => .error (.before .endInString [])
  | b :: rest =>
    if b = ascii '\\' then
      match rest with
      | [] => .error (.before .endInString [])
      | c :: after =>
        if c = ascii 'u' then do
          let ⟨low, left, h⟩ ← readHex after
          if isLowSurrogate low then
            .ok ⟨low, left, by simp only [List.length_cons]; omega⟩
          else .error (.before .loneSurrogate left)
        else .error (.before .endOfHexEscape after)
    else .error (.before .endOfHexEscape rest)

/-- Reads what follows `\u`: four digits, or a surrogate pair. -/
def readCodePoint (text : List UInt8) : Except Fault (Read Char text) := do
  let ⟨first, rest, h⟩ ← readHex text
  if isLowSurrogate first then .error (.before .loneSurrogate rest)
  else if isHighSurrogate first then
    let ⟨low, left, h'⟩ ← readLowSurrogate rest
    .ok ⟨Char.ofNat (0x10000 + (first - 0xd800) * 1024 + (low - 0xdc00)), left, by omega⟩
  else .ok ⟨Char.ofNat first, rest, h⟩

/-- Reads what follows a backslash, as the bytes that it stands for. -/
def readEscape (text : List UInt8) : Except Fault (Read (List UInt8) text) :=
  match text with
  | [] => .error (.before .endInString [])
  | b :: rest =>
    if b = ascii 'u' then
      (readCodePoint rest).map fun read =>
        (read.map String.utf8EncodeChar).of (length_le_cons b rest)
    else
      match escaped? b with
      | some byte => .ok ⟨[byte], rest, length_lt_cons b rest⟩
      | none => .error (.before .invalidEscape rest)

/-! ## Whole strings -/

/-- The number of bytes, from `start` on, up to the first that does not belong to a character. -/
def validLength (bytes : ByteArray) (start : Nat) : Nat :=
  if start < bytes.size then
    match bytes.utf8DecodeChar? start with
    | some c => validLength bytes (start + c.utf8Size)
    | none => start
  else start
termination_by bytes.size - start
decreasing_by
  have := c.utf8Size_pos
  omega

/-- Reads the bytes of a string up to and including its closing quote, after those read so far. -/
def readBytes {whole : List UInt8} (before : ByteArray) (text : List UInt8)
    (h : text.length ≤ whole.length) : Except Fault (Read ByteArray whole) :=
  match text with
  | [] => .error (.before .endInString [])
  | b :: rest =>
    have hrest : rest.length < whole.length := h
    if b = ascii '\x22' then .ok ⟨before, rest, hrest⟩
    else if b = ascii '\\' then
      match readEscape rest with
      | .error fault => .error fault
      | .ok ⟨bytes, after, hafter⟩ =>
        readBytes (bytes.foldl ByteArray.push before) after (by omega)
    else if b < 0x20 then .error (.before .controlCharacter rest)
    else readBytes (before.push b) rest (by omega)
termination_by text.length
decreasing_by all_goals simp only [List.length_cons]; omega

/-- Reads a string whose opening quote has been read. That its bytes are characters is judged last:
the fault is placed as many bytes before the closing quote as the string has from the first that
belongs to no character. -/
def readString (text : List UInt8) : Except Fault (Read String text) := do
  let ⟨bytes, rest, h⟩ ← readBytes .empty text (length_le_self text)
  match String.fromUTF8? bytes with
  | some string => .ok ⟨string, rest, h⟩
  | none =>
    .error (.placed .invalidUnicode (rest.length + (bytes.size - validLength bytes 0)))

/-- Passes over a string up to and including its closing quote. Escapes are only looked at as far
as their end must be found, and the bytes need not be characters. -/
def skipBytes {whole : List UInt8} (text : List UInt8) (h : text.length ≤ whole.length) :
    Except Fault (Read Unit whole) :=
  match text with
  | [] => .error (.before .endInString [])
  | b :: rest =>
    have hrest : rest.length < whole.length := h
    if b = ascii '\x22' then .ok ⟨(), rest, hrest⟩
    else if b = ascii '\\' then
      match rest with
      | [] => .error (.before .endInString [])
      | c :: after =>
        if c = ascii 'u' then
          match readHex after with
          | .error fault => .error fault
          | .ok ⟨_, left, hleft⟩ =>
            skipBytes left (by simp only [List.length_cons] at hrest; omega)
        else if (escaped? c).isSome then
          skipBytes after (by simp only [List.length_cons] at hrest; omega)
        else .error (.before .invalidEscape after)
    else if b < 0x20 then .error (.before .controlCharacter (b :: rest))
    else skipBytes rest (by omega)
termination_by text.length
decreasing_by all_goals simp only [List.length_cons]; omega

/-- Passes over a string whose opening quote has been read. -/
def skipString (text : List UInt8) : Except Fault (Read Unit text) :=
  skipBytes text (length_le_self text)

/-! ## Writing -/

/-- A character as it is written inside a string. -/
def quoteChar (c : Char) : List Char :=
  if c = '\x22' then ['\\', c]
  else if c = '\\' then ['\\', '\\']
  else if c = '\x08' then ['\\', 'b']
  else if c = '\x0c' then ['\\', 'f']
  else if c = '\n' then ['\\', 'n']
  else if c = '\r' then ['\\', 'r']
  else if c = '\t' then ['\\', 't']
  else if c.toNat < 0x20 then
    ['\\', 'u', '0', '0', Nat.digitChar (c.toNat / 16), Nat.digitChar (c.toNat % 16)]
  else [c]

/-- A string as it is written in a document, with its quotes. -/
def quote (text : String) : String :=
  String.ofList ('\x22' :: text.toList.flatMap quoteChar ++ ['\x22'])

end BlockScript.Json
