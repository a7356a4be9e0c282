import BlockScript.Proofs.Json.Numerals
import BlockScript.Proofs.Json.Strings
import Mathlib.Data.List.Basic

/-!
# The grammar of documents

Which texts are documents is said here without speaking of any reader: how numbers and strings are
written, and how values stand in lists and objects, with white space wherever two parts meet.  The
names of these parts are those that are usual in descriptions of the format.

## What is here

* `Json.IsNumber` and `Json.IsBody` — the texts of numbers, and of strings without their quotes.
* `Json.Shape` and `Json.WellFormed` — the texts of values, and of what lists and objects consist
  of.
* `Json.Spells` — how a string is written: every character for itself or by one of its escapes.
* `Json.ObjectText` and `Json.ItemsText` — an object with the keys and the texts of its members, and
  the texts of the items of a list.
-/

set_option autoImplicit false
namespace BlockScript.Json

/-! ## White space -/

/-- White space between the parts of a document. -/
def IsBlanks (text : List Char) : Prop := ∀ c ∈ text, c ∈ [' ', '\n', '\t', '\r']

instance (text : List Char) : Decidable (IsBlanks text) :=
  List.decidableBAll (· ∈ [' ', '\n', '\t', '\r']) text

theorem isBlanks_nil : IsBlanks [] := nofun

theorem IsBlanks.skipBlanks_append {gap : List Char} (h : IsBlanks gap) (rest : List Char) :
    skipBlanks (bytes (gap ++ rest)) = skipBlanks (bytes rest) := by
  have hblank : [' ', '\n', '\t', '\r'].Forall fun c =>
      c.toNat < 128 ∧ isBlank (ascii c) = true := by decide
  induction gap with
  | nil => rfl
  | cons c gap ih =>
    obtain ⟨hc, hgap⟩ := List.forall_mem_cons.1 h
    obtain ⟨hascii, hskip⟩ := List.forall_iff_forall_mem.1 hblank c hc
    rw [List.cons_append, bytes_cons_of_lt hascii, skipBlanks, List.dropWhile_cons_of_pos hskip]
    exact ih hgap

/-- What may come after a value: white space, a comma, a closing bracket, or nothing. -/
def Closes (back : List Char) : Prop :=
  ∃ gap rest, IsBlanks gap ∧ back = gap ++ rest ∧ ∀ c ∈ rest.head?, c ∈ [',', ']', '\x7d']

theorem Closes.ends {back : List Char} (h : Closes back) : Ends (bytes back) := by
  have hends : [' ', '\n', '\t', '\r', ',', ']', '\x7d'].Forall fun c => c.toNat < 128
      ∧ isDigit (ascii c) = false ∧ startsWithScale [ascii c] = false := by decide
  obtain ⟨gap, rest, hgap, rfl, hrest⟩ := h
  have hhead : ∀ c ∈ (gap ++ rest).head?, c ∈ [' ', '\n', '\t', '\r', ',', ']', '\x7d'] := by
    cases gap with
    | nil => exact fun c hc => List.mem_append_right [' ', '\n', '\t', '\r'] (hrest c hc)
    | cons d gap =>
      rintro c ⟨⟩
      exact List.mem_append_left [',', ']', '\x7d'] (hgap d List.mem_cons_self)
  cases hback : gap ++ rest with
  | nil => exact ⟨rfl, rfl⟩
  | cons c back =>
    have hmem := hhead c (by rw [hback]; rfl)
    obtain ⟨hascii, hdigit, hscale⟩ := List.forall_iff_forall_mem.1 hends c hmem
    rw [bytes_cons_of_lt hascii]
    exact ⟨hdigit, hscale⟩

theorem IsBlanks.append {gap more : List Char} (h : IsBlanks gap) (hmore : IsBlanks more) :
    IsBlanks (gap ++ more) := List.forall_mem_append.2 ⟨h, hmore⟩

theorem Closes.append {gap back : List Char} (h : Closes back) (hgap : IsBlanks gap) :
    Closes (gap ++ back) := by
  obtain ⟨more, rest, hmore, rfl, hrest⟩ := h
  exact ⟨gap ++ more, rest, hgap.append hmore, (List.append_assoc _ _ _).symm, hrest⟩

theorem IsBlanks.closes {gap : List Char} (h : IsBlanks gap) {c : Char}
    (hc : c ∈ [',', ']', '\x7d']) (rest : List Char) : Closes (gap ++ c :: rest) :=
  ⟨gap, c :: rest, h, rfl, fun _ hd => Option.some.inj hd ▸ hc⟩

theorem closes_cons {c : Char} (hc : c ∈ [',', ']', '\x7d']) (rest : List Char) :
    Closes (c :: rest) := isBlanks_nil.closes hc rest

/-! ## Numbers -/

/-- At least one digit, and nothing else. -/
structure IsDigits (text : List Char) : Prop where
  ne_nil : text ≠ []
  isDigit : ∀ c ∈ text, c.isDigit = true

/-- Digits before a point: zero, or digits of which the first is not zero. -/
inductive IsWhole : List Char → Prop
  | zero : IsWhole ['0']
  | digits {c : Char} {text : List Char} (hne : c ≠ '0') (hdigits : IsDigits (c :: text)) :
    IsWhole (c :: text)

/-- A point and digits, or neither. -/
inductive IsFraction : List Char → Prop
  | none : IsFraction []
  | digits {text : List Char} (hdigits : IsDigits text) : IsFraction ('.' :: text)

/-- An exponent of ten with its letter, or none. -/
inductive IsExponent : List Char → Prop
  | none : IsExponent []
  | digits {letter : Char} {sign text : List Char} (hletter : letter ∈ ['e', 'E'])
    (hsign : sign ∈ [[], ['+'], ['-']]) (hdigits : IsDigits text) :
    IsExponent (letter :: (sign ++ text))

/-- The text of a number. -/
inductive IsNumber : List Char → Prop
  | parts {sign whole fraction exponent : List Char} (hsign : sign ∈ [[], ['-']])
    (hwhole : IsWhole whole) (hfraction : IsFraction fraction) (hexponent : IsExponent exponent) :
    IsNumber (sign ++ (whole ++ (fraction ++ exponent)))

/-! ## Strings -/

/-- A hexadecimal digit, in either case. -/
def IsHexDigit (c : Char) : Prop :=
  c ∈ ['0', '1', '2', '3', '4', '5', '6', '7', '8', '9', 'a', 'b', 'c', 'd', 'e', 'f', 'A', 'B',
    'C', 'D', 'E', 'F']

/-- A character that stands for itself in a string. -/
structure StandsForItself (c : Char) : Prop where
  ne_quote : c ≠ '\x22'
  ne_backslash : c ≠ '\\'
  not_control : 0x20 ≤ c.toNat

instance (c : Char) : Decidable (StandsForItself c) :=
  decidable_of_iff (c ≠ '\x22' ∧ c ≠ '\\' ∧ 0x20 ≤ c.toNat)
    ⟨fun ⟨hquote, hbackslash, hcontrol⟩ => ⟨hquote, hbackslash, hcontrol⟩,
      fun ⟨hquote, hbackslash, hcontrol⟩ => ⟨hquote, hbackslash, hcontrol⟩⟩

theorem StandsForItself.plain_bytes {c : Char} (h : StandsForItself c) :
    ∀ b ∈ String.utf8EncodeChar c, Plain b := fun _ =>
  plain_of_mem_utf8EncodeChar h.ne_quote h.ne_backslash (Nat.not_lt.2 h.not_control)

/-- The letters of escapes with the characters that they stand for. -/
def escapes : List (Char × Char) :=
  [('\x22', '\x22'), ('\\', '\\'), ('/', '/'), ('b', '\x08'), ('f', '\x0c'), ('n', '\n'),
    ('r', '\r'), ('t', '\t')]

/-- The text of a string without its quotes.  Numbers in it need not be those of characters. -/
inductive IsBody : List Char → Prop
  | nil : IsBody []
  | plain {c : Char} {rest : List Char} (hplain : StandsForItself c) (hrest : IsBody rest) :
    IsBody (c :: rest)
  | letter {letter : Char} {rest : List Char} (hletter : letter ∈ escapes.map Prod.fst)
    (hrest : IsBody rest) : IsBody ('\\' :: letter :: rest)
  | code {a b c d : Char} {rest : List Char} (ha : IsHexDigit a) (hb : IsHexDigit b)
    (hc : IsHexDigit c) (hd : IsHexDigit d) (hrest : IsBody rest) :
    IsBody ('\\' :: 'u' :: a :: b :: c :: d :: rest)

/-! ## Values -/

/-- What a part of a document is: a value, a value with the white space around it, such values with
commas between them, a value with its key, or such members with commas between them. -/
inductive Shape where
  | value
  | element
  | elements
  | member
  | members

/-- The texts of the parts of documents. -/
inductive WellFormed : Shape → List Char → Prop
  | word {text : List Char}
    (h : text ∈ [['n', 'u', 'l', 'l'], ['t', 'r', 'u', 'e'], ['f', 'a', 'l', 's', 'e']]) :
    WellFormed .value text
  | number {text : List Char} (h : IsNumber text) : WellFormed .value text
  | string {body : List Char} (h : IsBody body) :
    WellFormed .value ('\x22' :: (body ++ ['\x22']))
  | emptyList {gap : List Char} (h : IsBlanks gap) : WellFormed .value ('[' :: (gap ++ [']']))
  | list {items : List Char} (h : WellFormed .elements items) :
    WellFormed .value ('[' :: (items ++ [']']))
  | emptyObject {gap : List Char} (h : IsBlanks gap) :
    WellFormed .value ('\x7b' :: (gap ++ ['\x7d']))
  | object {fields : List Char} (h : WellFormed .members fields) :
    WellFormed .value ('\x7b' :: (fields ++ ['\x7d']))
  | padded {ahead value behind : List Char} (hahead : IsBlanks ahead)
    (hvalue : WellFormed .value value) (hbehind : IsBlanks behind) :
    WellFormed .element (ahead ++ (value ++ behind))
  | lastElement {item : List Char} (h : WellFormed .element item) : WellFormed .elements item
  | elements {item items : List Char} (hitem : WellFormed .element item)
    (hitems : WellFormed .elements items) : WellFormed .elements (item ++ ',' :: items)
  | member {ahead body behind item : List Char} (hahead : IsBlanks ahead) (hbody : IsBody body)
    (hbehind : IsBlanks behind) (hitem : WellFormed .element item) :
    WellFormed .member (ahead ++ '\x22' :: (body ++ '\x22' :: (behind ++ ':' :: item)))
  | lastMember {field : List Char} (h : WellFormed .member field) : WellFormed .members field
  | members {field fields : List Char} (hfield : WellFormed .member field)
    (hfields : WellFormed .members fields) : WellFormed .members (field ++ ',' :: fields)

/-! ## Keys and members -/

/-- The value of a hexadecimal digit. -/
def hexValue (c : Char) : Nat :=
  ['0', '1', '2', '3', '4', '5', '6', '7', '8', '9', 'a', 'b', 'c', 'd', 'e', 'f'].idxOf c.toLower

/-- Four hexadecimal digits that give a number. -/
inductive HexDigits (n : Nat) : List Char → Prop
  | digits {a b c d : Char} (ha : IsHexDigit a) (hb : IsHexDigit b) (hc : IsHexDigit c)
    (hd : IsHexDigit d)
    (hvalue : n = ((hexValue a * 16 + hexValue b) * 16 + hexValue c) * 16 + hexValue d) :
    HexDigits n [a, b, c, d]

/-- The ways of writing a character in a string: for itself, with the letter of an escape, or by its
number.  A number of more than sixteen bits is written as two halves. -/
inductive Spelling (c : Char) : List Char → Prop
  | plain (hplain : StandsForItself c) : Spelling c [c]
  | letter {letter : Char} (hletter : (letter, c) ∈ escapes) : Spelling c ['\\', letter]
  | code {digits : List Char} (hdigits : HexDigits c.toNat digits) :
    Spelling c ('\\' :: 'u' :: digits)
  | pair {high low : Nat} {highDigits lowDigits : List Char}
    (hhigh : high < 0x400) (hlow : low < 0x400) (hc : c.toNat = 0x10000 + high * 0x400 + low)
    (hhighDigits : HexDigits (0xd800 + high) highDigits)
    (hlowDigits : HexDigits (0xdc00 + low) lowDigits) :
    Spelling c ('\\' :: 'u' :: (highDigits ++ '\\' :: 'u' :: lowDigits))

/-- The text of a string that has some characters, without its quotes. -/
inductive Spells : List Char → List Char → Prop
  | nil : Spells [] []
  | cons {c : Char} {chars spelling body : List Char} (hc : Spelling c spelling)
    (hchars : Spells chars body) : Spells (c :: chars) (spelling ++ body)

theorem Spells.plain {chars : List Char} (h : chars.Forall StandsForItself) :
    Spells chars chars := by
  induction chars with
  | nil => exact .nil
  | cons c chars ih =>
    obtain ⟨hc, hchars⟩ := (List.forall_cons _ c chars).1 h
    exact .cons (.plain hc) (ih hchars)

/-- The text of a value with its key. -/
inductive MemberText (key : String) (value : List Char) : List Char → Prop
  | parts {ahead body behind before after : List Char} (hahead : IsBlanks ahead)
    (hbody : Spells key.toList body) (hbehind : IsBlanks behind) (hbefore : IsBlanks before)
    (hafter : IsBlanks after) :
    MemberText key value
      (ahead ++ '\x22' :: (body ++ '\x22' :: (behind ++ ':' :: (before ++ (value ++ after)))))

theorem memberText_plain (key : String) (h : key.toList.Forall StandsForItself)
    {ahead : List Char} (hahead : IsBlanks ahead) (value : List Char) :
    MemberText key value (ahead ++ '\x22' :: (key.toList ++ '\x22' :: ':' :: ' ' :: value)) := by
  have hbefore : IsBlanks [' '] := by decide
  have htext : MemberText key value _ :=
    .parts hahead (.plain h) isBlanks_nil hbefore isBlanks_nil
  rwa [List.append_nil] at htext

/-- The text of some members, at least one, of which each has a key and the text of a value. -/
inductive MembersText : List (String × List Char) → List Char → Prop
  | last {key : String} {value text : List Char} (h : MemberText key value text) :
    MembersText [(key, value)] text
  | cons {key : String} {value text more : List Char} {members : List (String × List Char)}
    (h : MemberText key value text) (hmore : MembersText members more) :
    MembersText ((key, value) :: members) (text ++ ',' :: more)

/-- The text of an object with some members. -/
inductive ObjectText : List (String × List Char) → List Char → Prop
  | empty {gap : List Char} (h : IsBlanks gap) : ObjectText [] ('\x7b' :: (gap ++ ['\x7d']))
  | members {members : List (String × List Char)} {text : List Char}
    (h : MembersText members text) : ObjectText members ('\x7b' :: (text ++ ['\x7d']))

/-- The text of some values, at least one, with commas between them. -/
inductive ItemsText : List (List Char) → List Char → Prop
  | last {value ahead behind : List Char} (hahead : IsBlanks ahead) (hbehind : IsBlanks behind) :
    ItemsText [value] (ahead ++ (value ++ behind))
  | cons {value ahead behind more : List Char} {values : List (List Char)}
    (hahead : IsBlanks ahead) (hbehind : IsBlanks behind) (hmore : ItemsText values more) :
    ItemsText (value :: values) (ahead ++ (value ++ (behind ++ ',' :: more)))

end BlockScript.Json
