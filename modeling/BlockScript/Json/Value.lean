/-!
# JSON values

## What is here

* `Json.Value` — a value of a document. Objects keep their fields in order, repeated keys
  included; whole numbers of at most 64 bits are kept apart from all other numbers.
* `Json.Value.depth` — how deep lists and objects nest in a value.
-/

set_option autoImplicit false
namespace BlockScript.Json

/-- A value of a document. -/
inductive Value where
  | null
  | bool (value : Bool)
  /-- A whole number between `-2 ^ 63` and `2 ^ 64 - 1`. -/
  | integer (value : Int)
  /-- Any other number. -/
  | float (value : Float)
  | string (value : String)
  | list (items : List Value)
  | object (fields : List (String × Value))
  deriving Inhabited

namespace Value

mutual

/-- The number of lists and objects around the innermost one, itself included. -/
def depth : Value → Nat
  | .null => 0
  | .bool _ => 0
  | .integer _ => 0
  | .float _ => 0
  | .string _ => 0
  | .list items => 1 + depthOfItems items
  | .object fields => 1 + depthOfFields fields

/-- The largest depth of an item. -/
def depthOfItems : List Value → Nat
  | [] => 0
  | item :: rest => max item.depth (depthOfItems rest)

/-- The largest depth of a field's value. -/
def depthOfFields : List (String × Value) → Nat
  | [] => 0
  | (_, value) :: rest => max value.depth (depthOfFields rest)

end

end Value
end BlockScript.Json
