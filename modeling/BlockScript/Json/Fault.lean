import BlockScript.Json.NumberText
import BlockScript.Json.Value
import BlockScript.Text.Quoted

/-!
# What can be wrong with a document

A document can be no JSON, or it can be JSON that says something else than what was asked for.
Faults of the first kind are noticed at a byte of the text. Faults of the second kind are about a
value, and are placed where the reader stood when the list or object around that value ended.

## What is here

* `Json.Cause` — what is wrong, with its wording `Json.Cause.message`.
* `Json.Fault` — a cause, and where in the unread text it was noticed, if that is settled.
* `Json.Position` — a line and a column; `Json.Error` — a cause with its position, as reported.
-/

set_option autoImplicit false
namespace BlockScript.Json

/-! ## Causes -/

/-- What stands in a document where something else was expected. -/
inductive Found where
  | null
  | bool (value : Bool)
  | integer (value : Int)
  | float (value : Float)
  | string (value : String)
  | sequence
  | map

/-- The wording of what was found. -/
def Found.message : Found → String
  | .null => "null"
  | .bool value => "boolean `" ++ toString value ++ "`"
  | .integer value => "integer `" ++ toString value ++ "`"
  | .float value => "floating point `" ++ floatText value ++ "`"
  | .string value => "string " ++ Text.quoted value
  | .sequence => "sequence"
  | .map => "map"

/-- What a value is called where another one was expected. -/
def Value.found : Value → Found
  | .null => .null
  | .bool value => .bool value
  | .integer value => .integer value
  | .float value => .float value
  | .string value => .string value
  | .list _ => .sequence
  | .object _ => .map

/-- What is wrong with a document. -/
inductive Cause where
  | endInList
  | endInObject
  | endInString
  | endInValue
  | expectedColon
  | expectedCommaInList
  | expectedCommaInObject
  /-- A word that begins like `null`, `true` or `false` and is none of them. -/
  | expectedWord
  | expectedValue
  | invalidEscape
  | invalidNumber
  | numberOutOfRange
  | invalidUnicode
  | controlCharacter
  | keyNotString
  | loneSurrogate
  | trailingComma
  | trailingCharacters
  | endOfHexEscape
  | tooDeep
  /-- A value of another type than expected. -/
  | wrongType (found : Found) (expected : String)
  /-- A value of the expected type that is not among those expected. -/
  | wrongValue (found : Found) (expected : String)
  /-- A list with too few or too many items. -/
  | wrongLength (length : Nat) (expected : String)
  /-- A name that is none of the names of a choice. -/
  | unknownVariant (name : String) (names : List String)
  | missingField (key : String)
  | duplicateField (key : String)
  /-- A value of none of the shapes that a type allows. -/
  | noShape (type : String)

/-- A name between backquotes. -/
def ticked (name : String) : String := "`" ++ name ++ "`"

/-- A choice of names in words. -/
def choiceText (names : List String) : String :=
  match names with
  | [] => "there are no variants"
  | [one] => "expected " ++ ticked one
  | [one, other] => "expected " ++ ticked one ++ " or " ++ ticked other
  | _ => "expected one of " ++ String.intercalate ", " (names.map ticked)

/-- The wording of a cause. -/
def Cause.message : Cause → String
  | .endInList => "EOF while parsing a list"
  | .endInObject => "EOF while parsing an object"
  | .endInString => "EOF while parsing a string"
  | .endInValue => "EOF while parsing a value"
  | .expectedColon => "expected `:`"
  | .expectedCommaInList => "expected `,` or `]`"
  | .expectedCommaInObject => "expected `,` or `\x7d`"
  | .expectedWord => "expected ident"
  | .expectedValue => "expected value"
  | .invalidEscape => "invalid escape"
  | .invalidNumber => "invalid number"
  | .numberOutOfRange => "number out of range"
  | .invalidUnicode => "invalid unicode code point"
  | .controlCharacter =>
    "control character (\\u0000-\\u001F) found while parsing a string"
  | .keyNotString => "key must be a string"
  | .loneSurrogate => "lone leading surrogate in hex escape"
  | .trailingComma => "trailing comma"
  | .trailingCharacters => "trailing characters"
  | .endOfHexEscape => "unexpected end of hex escape"
  | .tooDeep => "recursion limit exceeded"
  | .wrongType found expected => "invalid type: " ++ found.message ++ ", expected " ++ expected
  | .wrongValue found expected => "invalid value: " ++ found.message ++ ", expected " ++ expected
  | .wrongLength length expected =>
    "invalid length " ++ toString length ++ ", expected " ++ expected
  | .unknownVariant name names =>
    "unknown variant " ++ ticked name ++ ", " ++ choiceText names
  | .missingField key => "missing field " ++ ticked key
  | .duplicateField key => "duplicate field " ++ ticked key
  | .noShape type => "data did not match any variant of untagged enum " ++ type

/-! ## Faults -/

/-- A cause and where it was noticed. -/
inductive Fault where
  /-- Noticed when `unread` bytes of the text were not read yet. -/
  | placed (cause : Cause) (unread : Nat)
  /-- About a value. The reader stands before `rest`; the list or object around the value settles
  the place. -/
  | loose (cause : Cause) (rest : List UInt8)

/-- A fault noticed at the first byte of `text`, which counts as read; at the end of the text there
is no such byte. -/
def Fault.peek (cause : Cause) (text : List UInt8) : Fault := .placed cause (text.length - 1)

/-- A fault noticed before `text`. -/
def Fault.before (cause : Cause) (text : List UInt8) : Fault := .placed cause text.length

/-- Places a loose fault where the reader stands after `close`. -/
def Fault.settle (close : List UInt8 → List UInt8) : Fault → Fault
  | .placed cause unread => .placed cause unread
  | .loose cause rest => .before cause (close rest)

/-! ## Positions -/

/-- A place in a text: a line, counted from one, and the number of bytes of it that were read. -/
structure Position where
  line : Nat
  column : Nat
  deriving DecidableEq, Repr

/-- The place that is reached after some bytes. -/
def Position.after (bytes : List UInt8) : Position :=
  { line := 1 + bytes.count 10
    column := (bytes.reverse.takeWhile (· ≠ 10)).length }

/-- Why a document is refused. -/
structure Error where
  cause : Cause
  position : Option Position

/-- The wording of an error: the cause, and the position where there is one. -/
def Error.message (error : Error) : String :=
  match error.position with
  | none => error.cause.message
  | some position =>
    error.cause.message ++ " at line " ++ toString position.line
      ++ " column " ++ toString position.column

/-- The error that a fault in a text is. A fault that no list or object has placed has no
position. -/
def Fault.error (text : List UInt8) : Fault → Error
  | .placed cause unread =>
    { cause, position := some (Position.after (text.take (text.length - unread))) }
  | .loose cause _ => { cause, position := none }

end BlockScript.Json
