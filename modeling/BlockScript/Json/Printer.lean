import BlockScript.Json.NumberText
import BlockScript.Json.Quoted
import BlockScript.Json.Value

/-!
# Writing values

A value is written in front of the text that follows it, so that no text is copied twice and the
reader's view of a value, a start of the text that is left, is the writer's too.

## What is here

* `Json.Value.compact` — a value on one line without blanks.
* `Json.Value.pretty` — a value with one item or field on a line, two blanks deeper than the list
  or object it belongs to. Empty lists and objects stay on one line.
-/

set_option autoImplicit false
namespace BlockScript.Json.Value

/-- A value that is neither a list nor an object. -/
def scalarText : Value → String
  | .null => "null"
  | .bool b => toString b
  | .integer n => toString n
  | .float x => floatText x
  | .string text => quote text
  | .list _ => ""
  | .object _ => ""

/-! ## On one line -/

mutual

/-- A value in front of a text. -/
def compactThen (value : Value) (rest : List Char) : List Char :=
  match value with
  | .list items => '[' :: itemsThen items (']' :: rest)
  | .object fields => '\x7b' :: fieldsThen fields ('\x7d' :: rest)
  | value => value.scalarText.toList ++ rest

/-- Items with commas between them. -/
def itemsThen (items : List Value) (rest : List Char) : List Char :=
  match items with
  | [] => rest
  | [item] => item.compactThen rest
  | item :: others => item.compactThen (',' :: itemsThen others rest)

/-- Fields with commas between them. -/
def fieldsThen (fields : List (String × Value)) (rest : List Char) : List Char :=
  match fields with
  | [] => rest
  | [(key, value)] => (quote key).toList ++ ':' :: value.compactThen rest
  | (key, value) :: others =>
    (quote key).toList ++ ':' :: value.compactThen (',' :: fieldsThen others rest)

end

/-- A value on one line without blanks. -/
def compact (value : Value) : String := String.ofList (value.compactThen [])

/-! ## On many lines -/

/-- The start of a line at a depth, in front of a text. -/
def newLine (depth : Nat) (rest : List Char) : List Char :=
  '\n' :: (List.replicate (2 * depth) ' ' ++ rest)

mutual

/-- A value in front of a text, when its first line has begun already at the given depth. -/
def prettyThen (depth : Nat) (value : Value) (rest : List Char) : List Char :=
  match value with
  | .list [] => '[' :: ']' :: rest
  | .list (item :: others) =>
    '[' :: newLine (depth + 1) (item.prettyThen (depth + 1)
      (moreItemsThen (depth + 1) others (newLine depth (']' :: rest))))
  | .object [] => '\x7b' :: '\x7d' :: rest
  | .object ((key, value) :: others) =>
    '\x7b' :: newLine (depth + 1) ((quote key).toList ++ ':' :: ' ' :: value.prettyThen (depth + 1)
      (moreFieldsThen (depth + 1) others (newLine depth ('\x7d' :: rest))))
  | value => value.scalarText.toList ++ rest

/-- Further items, each on a line of its own after a comma. -/
def moreItemsThen (depth : Nat) (items : List Value) (rest : List Char) : List Char :=
  match items with
  | [] => rest
  | item :: others =>
    ',' :: newLine depth (item.prettyThen depth (moreItemsThen depth others rest))

/-- Further fields, each on a line of its own after a comma. -/
def moreFieldsThen (depth : Nat) (fields : List (String × Value)) (rest : List Char) :
    List Char :=
  match fields with
  | [] => rest
  | (key, value) :: others =>
    ',' :: newLine depth ((quote key).toList ++ ':' :: ' ' ::
      value.prettyThen depth (moreFieldsThen depth others rest))

end

/-- A value with one item or field on a line. -/
def pretty (value : Value) : String := String.ofList (value.prettyThen 0 [])

end BlockScript.Json.Value
