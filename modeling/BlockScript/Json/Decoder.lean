import BlockScript.Json.Reader

/-!
# Reading values of a type

A decoder reads a value of one type straight from the text of a document, so that a value of the
wrong type is refused where it stands, before anything after it is looked at.

## What is here

* `Json.Value.toFloat`, `toNat`, `toBool`, `toText` — the value of a scalar, or why it is none of
  the type.
* `Json.Decoder` and the decoders `scalar`, `list`, `choice` and `record`.
* `Json.Record` — a type with named fields, written as an object with its fields in any order, or
  as a list of them in the order of the type.
* `Json.decode` — the value that a whole document spells.
-/

set_option autoImplicit false
namespace BlockScript.Json

/-! ## Scalars -/

namespace Value

/-- A number as a double. -/
def toFloat : Value → Except Cause Float
  | .integer n => .ok (Float.ofInt n)
  | .float x => .ok x
  | value => .error (.wrongType value.found "f64")

/-- A whole number of at most `limit`, for the integer type of the given name. -/
def toNat (type : String) (limit : Nat) : Value → Except Cause Nat
  | .integer n =>
    if 0 ≤ n ∧ n ≤ limit then .ok n.toNat else .error (.wrongValue (.integer n) type)
  | value => .error (.wrongType value.found type)

/-- A truth value. -/
def toBool : Value → Except Cause Bool
  | .bool b => .ok b
  | value => .error (.wrongType value.found "a boolean")

/-- A string. -/
def toText : Value → Except Cause String
  | .string text => .ok text
  | value => .error (.wrongType value.found "a string")

end Value

/-- What the name of a variant stands for, among the variants with their names. -/
def variantOf {α : Type} (variants : List (String × α)) (name : String) : Except Cause α :=
  match variants.lookup name with
  | some variant => .ok variant
  | none => .error (.unknownVariant name (variants.map Prod.fst))

/-- The variant that a string names. -/
def Value.toVariant {α : Type} (variants : List (String × α)) : Value → Except Cause α
  | .string name => variantOf variants name
  | value => .error (.wrongType value.found "variant identifier")

/-! ## Decoders -/

/-- Reads a value of some type, with a number of brackets that may still be opened. -/
def Decoder (α : Type) : Type :=
  (depth : Nat) → (text : List UInt8) → Except Fault (Read α text)

/-- The fault of a value that begins with the byte `b` and is not what was expected. A scalar is
read before it is refused, a list or an object is not. -/
def mismatch (expected : String) (b : UInt8) (rest : List UInt8) : Fault :=
  if b = ascii '[' then .before (.wrongType .sequence expected) (b :: rest)
  else if b = ascii '\x7b' then .before (.wrongType .map expected) (b :: rest)
  else
    match readScalar b rest with
    | .error fault => fault
    | .ok (value, after) => .before (.wrongType value.found expected) after.val

/-- Reads within a list or an object whose bracket begins `here`: one bracket fewer may be opened
inside, the bracket must be closed at the end, and a loose fault is placed where the reader then
stands. -/
def within {α : Type} {text : List UInt8} (depth : Nat) (here : List UInt8)
    (after : List UInt8 → List UInt8) (close : (rest : List UInt8) → Except Fault (Read Unit rest))
    (inside : Nat → Except Fault (Read α text)) : Except Fault (Read α text) :=
  match depth with
  | 0 => .error (.peek .tooDeep here)
  | depth + 1 =>
    match inside depth with
    | .error fault => .error (fault.settle after)
    | .ok ⟨value, rest, h⟩ =>
      (close rest).map (Read.close value h)

namespace Decoder

/-- Reads a scalar that `pick` accepts. -/
def scalar {α : Type} (expected : String) (pick : Value → Except Cause α) : Decoder α :=
  fun _ text =>
    match h : skipBlanks text with
    | [] => .error (.peek .endInValue [])
    | b :: rest =>
      if b = ascii '[' ∨ b = ascii '\x7b' then .error (mismatch expected b rest)
      else
        match readScalar b rest with
        | .error fault => .error fault
        | .ok (value, after) =>
          match pick value with
          | .ok picked =>
            .ok ⟨picked, after.val,
              Nat.lt_of_le_of_lt after.property (length_lt_of_skipBlanks h)⟩
          | .error cause => .error (.before cause after.val)

/-- Reads a double. -/
def float : Decoder Float := scalar "f64" Value.toFloat

/-- Reads a whole number of 64 bits. -/
def nat64 : Decoder Nat := scalar "u64" (Value.toNat "u64" 18446744073709551615)

/-- Reads a truth value. -/
def bool : Decoder Bool := scalar "a boolean" Value.toBool

/-- Reads a string. -/
def text : Decoder String := scalar "a string" Value.toText

/-- Reads the name of a variant. -/
def variant {α : Type} (variants : List (String × α)) : Decoder α :=
  scalar "variant identifier" (Value.toVariant variants)

/-! ## Lists -/

/-- Reads the items of a list up to its closing bracket, after the items read so far. -/
def itemsFrom {α : Type} {whole : List UInt8} (item : Decoder α) (depth : Nat) (first : Bool)
    (items : Array α) (text : List UInt8) (h : text.length < whole.length) :
    Except Fault (Read (List α) whole) :=
  match nextItem? first text with
  | .error fault => .error fault
  | .ok none => .ok ⟨items.toList, text, h⟩
  | .ok (some ⟨start, hstart⟩) =>
    match item depth start with
    | .error fault => .error fault
    | .ok ⟨value, rest, hrest⟩ => itemsFrom item depth false (items.push value) rest (by omega)
termination_by text.length
decreasing_by omega

/-- Reads a list of values of one type. -/
def list {α : Type} (item : Decoder α) : Decoder (List α) := fun depth text =>
  match h : skipBlanks text with
  | [] => .error (.peek .endInValue [])
  | b :: rest =>
    if b = ascii '[' then
      within depth (b :: rest) afterList closeList fun depth =>
        itemsFrom item depth true #[] rest (length_lt_of_skipBlanks h)
    else .error (mismatch "a sequence" b rest)

/-! ## Choices -/

/-- Reads the word `null`. -/
def unit : Decoder Unit :=
  scalar "unit" fun
    | .null => .ok ()
    | value => .error (.wrongType value.found "unit")

/-- Reads a choice written as an object: its only key is the name, and the value is `null`. -/
def choiceObject {α : Type} (variants : List (String × α)) (depth : Nat) (text : List UInt8) :
    Except Fault (Read α text) :=
  match nextKey? true text with
  | .error fault => .error fault
  | .ok none => .error (.peek .expectedValue (skipBlanks text))
  | .ok (some ⟨start, hstart⟩) => do
    let ⟨name, afterName, hname⟩ ← readString start
    match variantOf variants name with
    | .error cause => .error (.before cause afterName)
    | .ok value =>
      let ⟨_, afterColon, hcolon⟩ ← colon afterName
      let ⟨_, afterNull, hnull⟩ ← unit depth afterColon
      match h : skipBlanks afterNull with
      | [] => .error (.before .endInObject [])
      | b :: rest =>
        if b = ascii '\x7d' then
          have := length_lt_of_skipBlanks h
          .ok ⟨value, rest, by omega⟩
        else .error (.before .expectedValue (b :: rest))

/-- Reads one of several names. -/
def choice {α : Type} (variants : List (String × α)) : Decoder α := fun depth text =>
  match h : skipBlanks text with
  | [] => .error (.peek .endInValue [])
  | b :: rest =>
    if b = ascii '\x7b' then
      match depth with
      | 0 => .error (.peek .tooDeep (b :: rest))
      | depth + 1 =>
        (choiceObject variants depth rest).map
          (Read.of (length_tail_le_of_skipBlanks h))
    else if b = ascii '\x22' then variant variants depth text
    else .error (.peek .expectedValue (b :: rest))

end Decoder

/-! ## Records -/

/-- A named field of a record that is being read into a draft. -/
structure Field (δ : Type) where
  key : String
  /-- Whether the draft has the field already. -/
  given : δ → Bool
  /-- Reads the field into the draft. -/
  read : δ → Decoder δ

/-- The field that a draft keeps at a place of its own. -/
def Field.kept {δ α : Type} (key : String) (get : δ → Option α) (set : δ → α → δ)
    (decoder : Decoder α) : Field δ :=
  { key
    given := fun draft => (get draft).isSome
    read := fun draft depth text =>
      (decoder depth text).map fun read => read.map (set draft) }

/-- A type with named fields. -/
structure Record (δ α : Type) where
  /-- What a value of the type is called. -/
  name : String
  fields : List (Field δ)
  /-- The draft without any field. -/
  blank : δ
  /-- The value of a draft, or the key of a field that it lacks. -/
  build : δ → Except String α

namespace Record

variable {δ α : Type}

/-- The value of a draft whose fields stood in a list. -/
def ofItems (record : Record δ α) (draft : δ) : Except Cause α :=
  match record.build draft with
  | .ok value => .ok value
  | .error key =>
    .error (.wrongLength (record.fields.findIdx (·.key == key))
      (record.name ++ " with " ++ toString record.fields.length ++ " elements"))

/-- The value of a draft whose fields stood in an object. -/
def ofFields (record : Record δ α) (draft : δ) : Except Cause α :=
  match record.build draft with
  | .ok value => .ok value
  | .error key => .error (.missingField key)

/-- Reads fields in their order until they or the items of the list run out. -/
def readItems {whole : List UInt8} (depth : Nat) (first : Bool) (draft : δ) (text : List UInt8)
    (h : text.length < whole.length) : List (Field δ) → Except Fault (Read δ whole)
  | [] => .ok ⟨draft, text, h⟩
  | field :: fields =>
    match nextItem? first text with
    | .error fault => .error fault
    | .ok none => .ok ⟨draft, text, h⟩
    | .ok (some ⟨start, hstart⟩) =>
      match field.read draft depth start with
      | .error fault => .error fault
      | .ok ⟨draft, rest, hrest⟩ => readItems depth false draft rest (by omega) fields

/-- Reads fields in any order up to the closing brace of the object, after those in the draft.
Values of unknown keys are passed over. -/
def readFields {whole : List UInt8} (fields : List (Field δ)) (depth : Nat) (first : Bool)
    (draft : δ) (text : List UInt8) (h : text.length < whole.length) :
    Except Fault (Read δ whole) :=
  match nextKey? first text with
  | .error fault => .error fault
  | .ok none => .ok ⟨draft, text, h⟩
  | .ok (some ⟨start, hstart⟩) =>
    match readString start with
    | .error fault => .error fault
    | .ok ⟨key, afterKey, hkey⟩ =>
      match fields.find? (·.key == key) with
      | some field =>
        if field.given draft then .error (.loose (.duplicateField key) afterKey)
        else
          match colon afterKey with
          | .error fault => .error fault
          | .ok ⟨_, afterColon, hcolon⟩ =>
            match field.read draft depth afterColon with
            | .error fault => .error fault
            | .ok ⟨draft, rest, hrest⟩ => readFields fields depth false draft rest (by omega)
      | none =>
        match colon afterKey with
        | .error fault => .error fault
        | .ok ⟨_, afterColon, hcolon⟩ =>
          match skipValue afterColon with
          | .error fault => .error fault
          | .ok ⟨_, rest, hrest⟩ => readFields fields depth false draft rest (by omega)
termination_by text.length
decreasing_by all_goals omega

/-- A value from a draft that has been read, or a loose fault. -/
def finish {β : Type} {text : List UInt8} (build : δ → Except Cause β) (read : Read δ text) :
    Except Fault (Read β text) :=
  match build read.value with
  | .ok value => .ok { read with value }
  | .error cause => .error (.loose cause read.rest)

/-- Reads a record from a list or an object. -/
def decoder (record : Record δ α) : Decoder α := fun depth text =>
  match h : skipBlanks text with
  | [] => .error (.peek .endInValue [])
  | b :: rest =>
    have hrest := length_lt_of_skipBlanks h
    if b = ascii '[' then
      within depth (b :: rest) afterList closeList fun depth =>
        readItems depth true record.blank rest hrest record.fields >>= finish record.ofItems
    else if b = ascii '\x7b' then
      within depth (b :: rest) afterObject closeObject fun depth =>
        readFields record.fields depth true record.blank rest hrest >>= finish record.ofFields
    else .error (mismatch record.name b rest)

end Record

/-! ## Documents -/

/-- The value that a whole document spells; nothing but blanks may follow it. -/
def decode {α : Type} (decoder : Decoder α) (text : List UInt8) : Except Error α :=
  match decoder maxDepth text with
  | .error fault => .error (fault.error text)
  | .ok read =>
    match skipBlanks read.rest with
    | [] => .ok read.value
    | b :: rest => .error ((Fault.peek .trailingCharacters (b :: rest)).error text)

end BlockScript.Json
