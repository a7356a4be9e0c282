import BlockScript.Block
import BlockScript.Json.Printer
import BlockScript.Json.Tagged

/-!
# Blocks in documents

A block is an object that names its kind and holds what belongs to that kind. The same can be
written as a list that begins with the kind.

## What is here

* `RepeatCount.ofValue` — a count, from whatever an editor may write for one.
* `Block.toValue` and `Block.ofValue` — a block as a value, and back.
* `Block.decoder` — reads a block from a text.
-/

set_option autoImplicit false
namespace BlockScript

open Json

/-! ## Names and counts -/

/-- The directions with their names. -/
def Direction.variants : List (String × Direction) := Direction.all.map fun d => (d.name, d)

/-- A count as a value. -/
def RepeatCount.toValue (count : RepeatCount) : Value := .integer count.val

/-- The count that a value gives: a number, a text that begins with one, or nothing. -/
def RepeatCount.ofValue : Value → Except Cause RepeatCount
  | .integer n => .ok (ofInt n)
  | .float x => .ok (ofFloat x)
  | .string text => .ok (ofText text)
  | .null => .ok standard
  | _ => .error (.noShape "CountRepr")

/-- Reads a count. -/
def RepeatCount.decoder : Decoder RepeatCount := fun depth text =>
  match readValue depth text with
  | .error fault => .error fault
  | .ok read =>
    match ofValue read.value with
    | .ok value => .ok { read with value }
    | .error cause => .error (.loose cause read.rest)

namespace Block

/-! ## Blocks as values -/

/-- The kinds of blocks. -/
inductive Kind where
  | start
  | move
  | eat
  | loop
  deriving DecidableEq

/-- The kinds with their names. -/
def Kind.variants : List (String × Kind) :=
  [("start", .start), ("move", .move), ("eat", .eat), ("repeat", .loop)]

mutual

/-- A block as a value. -/
def toValue : Block → Value
  | .start => .object [("kind", .string "start")]
  | .move direction =>
    .object [("kind", .string "move"), ("direction", .string direction.name)]
  | .eat => .object [("kind", .string "eat")]
  | .loop count body =>
    .object [("kind", .string "repeat"), ("count", count.toValue),
      ("body", .list (toValues body))]

/-- Blocks as values. -/
def toValues : List Block → List Value
  | [] => []
  | b :: bs => b.toValue :: toValues bs

end

/-! ## Values as blocks -/

/-- A value and how it reads as a list of blocks. -/
structure Aside where
  value : Value
  body : Except Cause (List Block)

/-- What belongs to a move. -/
def moveParts : Parts (Option Direction) Aside Block where
  name := "struct variant BlockNode::Move"
  parts := [.kept "direction" id (fun _ direction => some direction)
    fun aside => aside.value.toChoice Direction.variants]
  blank := none
  build
    | some direction => .ok (.move direction)
    | none => .error "direction"

/-- The parts of a loop, as far as they have been read. -/
structure LoopDraft where
  count : Option RepeatCount := none
  body : Option (List Block) := none

/-- What belongs to a loop: a count, otherwise the standard one, and a body, otherwise an empty
one. -/
def loopParts : Parts LoopDraft Aside Block where
  name := "struct variant BlockNode::Repeat"
  parts := [.kept "count" LoopDraft.count (fun draft count => { draft with count := some count })
      fun aside => RepeatCount.ofValue aside.value,
    .kept "body" LoopDraft.body (fun draft body => { draft with body := some body })
      Aside.body]
  blank := {}
  build draft := .ok (.loop (draft.count.getD .standard) (draft.body.getD []))

/-- The block of a kind with the given content. -/
def ofContent (kind : Kind) (content : Content Aside) : Except Cause Block :=
  match kind with
  | .start => content.nothing .start
  | .eat => content.nothing .eat
  | .move => moveParts.read content
  | .loop => loopParts.read content

/-- The block of a content that holds its kind. -/
def ofTagged (content : Content Aside) : Except Cause Block := do
  let (kind, content) ← content.takeTag Aside.value "kind" Kind.variants
  ofContent kind content

mutual

/-- The block that a value spells. -/
def ofValue : Value → Except Cause Block
  | .object fields => ofTagged (.fields (asideFields fields))
  | .list items => ofTagged (.items (asideItems items))
  | value => .error (.wrongType value.found (taggedName "BlockNode"))

/-- The blocks that a list of values spells. -/
def ofValues : List Value → Except Cause (List Block)
  | [] => .ok []
  | value :: rest => do
    let block ← ofValue value
    let blocks ← ofValues rest
    .ok (block :: blocks)

/-- How a value reads as a list of blocks. -/
def bodyOf : Value → Except Cause (List Block)
  | .list items => ofValues items
  | value => .error (.wrongType value.found "a sequence")

/-- Values with their readings. -/
def asideItems : List Value → List Aside
  | [] => []
  | value :: rest => ⟨value, bodyOf value⟩ :: asideItems rest

/-- Named values with their readings. -/
def asideFields : List (String × Value) → List (String × Aside)
  | [] => []
  | (key, value) :: rest => (key, ⟨value, bodyOf value⟩) :: asideFields rest

end

/-- Reads a block. -/
def decoder : Decoder Block :=
  .ofTagged "BlockNode" "kind" Kind.variants fun kind content =>
    ofContent kind (content.map fun value => ⟨value, bodyOf value⟩)

end Block
end BlockScript
