import BlockScript.Json.Decoder

/-!
# Tagged values

A value of a type with several variants carries the name of its variant in a field of its own, the
tag. The tag may come anywhere in an object; in a list it comes first. What belongs to the variant
can only be read once the tag is known, so everything but the tag is kept aside as values.

## What is here

* `Json.Content` — the values beside a tag: named, or in order.
* `Json.Content.takeTag` — separates the tag from the content of a value that has been kept aside;
  such a tag may also be the number of the variant.
* `Json.Decoder.tagged` — reads a tagged value from a text.
* `Json.Parts` — what belongs to a variant; `Json.Parts.read` reads it from a content.
-/

set_option autoImplicit false
namespace BlockScript.Json

/-- The values of an object or of a list. -/
inductive Content (β : Type) where
  | fields (fields : List (String × β))
  | items (items : List β)

/-- What a tagged type is called. -/
def taggedName (type : String) : String := "internally tagged enum " ++ type

/-! ## Values kept aside -/

/-- The variant that a value names or numbers. -/
def Value.toTag {τ : Type} (variants : List (String × τ)) : Value → Except Cause τ
  | .string name => variantOf variants name
  | .integer n =>
    if n < 0 then .error (.wrongType (.integer n) "variant identifier")
    else
      match variants[n.toNat]? with
      | some (_, variant) => .ok variant
      | none =>
        .error (.wrongValue (.integer n)
          ("variant index 0 <= i < " ++ toString variants.length))
  | value => .error (.wrongType value.found "variant identifier")

namespace Content

variable {β τ : Type}

/-- Separates the tag from other fields, after those that have been looked at. -/
def takeTagFrom (view : β → Value) (key : String) (variants : List (String × τ))
    (tag : Option τ) (others : Array (String × β)) :
    List (String × β) → Except Cause (τ × List (String × β))
  | [] =>
    match tag with
    | some tag => .ok (tag, others.toList)
    | none => .error (.missingField key)
  | (name, value) :: rest =>
    if name = key then
      match tag with
      | some _ => .error (.duplicateField key)
      | none => do
        let tag ← (view value).toTag variants
        takeTagFrom view key variants (some tag) others rest
    else takeTagFrom view key variants tag (others.push (name, value)) rest

/-- Separates the tag from what it belongs to. -/
def takeTag (view : β → Value) (key : String) (variants : List (String × τ)) :
    Content β → Except Cause (τ × Content β)
  | .fields named => do
    let (tag, others) ← takeTagFrom view key variants none #[] named
    .ok (tag, .fields others)
  | .items [] => .error (.missingField key)
  | .items (first :: rest) => do
    let tag ← (view first).toTag variants
    .ok (tag, .items rest)

/-- The content with every value changed by a function. -/
def map {γ : Type} (f : β → γ) : Content β → Content γ
  | .fields named => .fields (named.map fun (key, value) => (key, f value))
  | .items values => .items (values.map f)

end Content

/-! ## Texts -/

/-- Reads the fields of a tagged object up to its closing brace, after those read so far. -/
def taggedFields {τ : Type} {whole : List UInt8} (key : String) (variants : List (String × τ))
    (depth : Nat) (first : Bool) (tag : Option τ) (others : Array (String × Value))
    (text : List UInt8) (h : text.length < whole.length) :
    Except Fault (Read (τ × Content Value) whole) :=
  match nextKey? first text with
  | .error fault => .error fault
  | .ok none =>
    match tag with
    | some tag => .ok ⟨(tag, .fields others.toList), text, h⟩
    | none => .error (.loose (.missingField key) text)
  | .ok (some ⟨start, hstart⟩) =>
    match readString start with
    | .error fault => .error fault
    | .ok ⟨name, afterKey, hkey⟩ =>
      if name = key then
        match tag with
        | some _ => .error (.loose (.duplicateField key) afterKey)
        | none =>
          match colon afterKey with
          | .error fault => .error fault
          | .ok ⟨_, afterColon, hcolon⟩ =>
            match Decoder.variant variants depth afterColon with
            | .error fault => .error fault
            | .ok ⟨tag, rest, hrest⟩ =>
              taggedFields key variants depth false (some tag) others rest (by omega)
      else
        match colon afterKey with
        | .error fault => .error fault
        | .ok ⟨_, afterColon, hcolon⟩ =>
          match readValue depth afterColon with
          | .error fault => .error fault
          | .ok ⟨value, rest, hrest⟩ =>
            taggedFields key variants depth false tag (others.push (name, value)) rest (by omega)
termination_by text.length
decreasing_by all_goals omega

/-- Reads the items of a tagged list up to its closing bracket. -/
def taggedItems {τ : Type} {whole : List UInt8} (key : String) (variants : List (String × τ))
    (depth : Nat) (text : List UInt8) (h : text.length < whole.length) :
    Except Fault (Read (τ × Content Value) whole) :=
  match nextItem? true text with
  | .error fault => .error fault
  | .ok none => .error (.loose (.missingField key) text)
  | .ok (some ⟨start, hstart⟩) =>
    match Decoder.variant variants depth start with
    | .error fault => .error fault
    | .ok ⟨tag, rest, hrest⟩ =>
      (Decoder.itemsFrom readValue depth false #[] rest
        (length_lt_trans h hstart hrest)).map
          fun read => read.map fun items => (tag, .items items)

/-- Reads a tagged value: its tag, and everything else kept aside. -/
def Decoder.tagged {τ : Type} (type key : String) (variants : List (String × τ)) :
    Decoder (τ × Content Value) := fun depth text =>
  match h : skipBlanks text with
  | [] => .error (.peek .endInValue [])
  | b :: rest =>
    have hrest := length_lt_of_skipBlanks h
    if b = ascii '[' then
      within depth (b :: rest) afterList closeList fun depth =>
        taggedItems key variants depth rest hrest
    else if b = ascii '\x7b' then
      within depth (b :: rest) afterObject closeObject fun depth =>
        taggedFields key variants depth true none #[] rest hrest
    else .error (mismatch (taggedName type) b rest)

/-- Reads a tagged value and decides what it stands for. What is wrong with the content is noticed
after the whole value has been read. -/
def Decoder.ofTagged {τ α : Type} (type key : String) (variants : List (String × τ))
    (build : τ → Content Value → Except Cause α) : Decoder α := fun depth text =>
  match Decoder.tagged type key variants depth text with
  | .error fault => .error fault
  | .ok read =>
    match build read.value.1 read.value.2 with
    | .ok value => .ok { read with value }
    | .error cause => .error (.loose cause read.rest)

/-! ## What belongs to a variant -/

/-- A named part of a variant that is being read into a draft. -/
structure Part (δ β : Type) where
  key : String
  /-- Whether the draft has the part already. -/
  given : δ → Bool
  /-- Reads the part into the draft. -/
  read : δ → β → Except Cause δ

/-- The part that a draft keeps at a place of its own. -/
def Part.kept {δ α β : Type} (key : String) (get : δ → Option α) (set : δ → α → δ)
    (pick : β → Except Cause α) : Part δ β :=
  { key
    given := fun draft => (get draft).isSome
    read := fun draft value => (pick value).map (set draft) }

/-- What belongs to a variant. -/
structure Parts (δ β α : Type) where
  /-- What the content of the variant is called. -/
  name : String
  parts : List (Part δ β)
  /-- The draft without any part. -/
  blank : δ
  /-- The value of a draft, or the key of a part that it lacks. -/
  build : δ → Except String α

/-- A number of elements in words. -/
def elementCount (n : Nat) : String :=
  toString n ++ (if n = 1 then " element" else " elements")

namespace Parts

variable {δ β α : Type}

/-- Reads the parts among named values, in the order of the values. Other values are ignored. -/
def readFields (parts : List (Part δ β)) (draft : δ) : List (String × β) → Except Cause δ
  | [] => .ok draft
  | (key, value) :: rest =>
    match parts.find? (·.key == key) with
    | none => readFields parts draft rest
    | some part =>
      if part.given draft then .error (.duplicateField key)
      else do
        let draft ← part.read draft value
        readFields parts draft rest

/-- Reads the parts in their order from values in order; gives back the number of values that are
left over. -/
def readItems (draft : δ) : List (Part δ β) → List β → Except Cause (δ × Nat)
  | [], values => .ok (draft, values.length)
  | _ :: _, [] => .ok (draft, 0)
  | part :: parts, value :: values => do
    let draft ← part.read draft value
    readItems draft parts values

/-- The value that a content gives to a variant. Values in order must be neither too few nor too
many. -/
def read (variant : Parts δ β α) : Content β → Except Cause α
  | .fields fields => do
    let draft ← readFields variant.parts variant.blank fields
    match variant.build draft with
    | .ok value => .ok value
    | .error key => .error (.missingField key)
  | .items values => do
    let (draft, surplus) ← readItems variant.blank variant.parts values
    match variant.build draft with
    | .error _ =>
      .error (.wrongLength values.length
        (variant.name ++ " with " ++ elementCount variant.parts.length))
    | .ok value =>
      if surplus = 0 then .ok value
      else
        .error (.wrongLength values.length
          (elementCount variant.parts.length ++ " in sequence"))

end Parts

/-- The value of a variant to which nothing belongs. Named values are ignored, values in order are
refused. -/
def Content.nothing {β α : Type} (value : α) : Content β → Except Cause α
  | .fields _ => .ok value
  | .items [] => .ok value
  | .items values => .error (.wrongLength values.length (elementCount 0 ++ " in sequence"))

/-- The variant that a value kept aside chooses: a name, or an object whose only key is the name and
whose value is `null` or an empty object. -/
def Value.toChoice {α : Type} (variants : List (String × α)) : Value → Except Cause α
  | .string name => variantOf variants name
  | .object [(name, value)] => do
    let variant ← variantOf variants name
    match value with
    | .null => .ok variant
    | .object [] => .ok variant
    | value => .error (.wrongType value.found "unit")
  | .object _ => .error (.wrongValue .map "map with a single key")
  | value => .error (.wrongType value.found "string or map")

end BlockScript.Json
