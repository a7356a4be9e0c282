import BlockScript.Json.Decoder
import BlockScript.Proofs.Json.Scalars
import Mathlib.Data.List.Forall2

/-!
# Values that were written

A value without doubles is read as it was written, if the reader may open as many lists and objects
as are nested in it.  If it may not, it stops at the first bracket that is one too many, whatever
stands there; it stops for no other reason.  A value with other numbers is read as it was written up
to what these numbers are read as.

## What is here

* `Json.Value.Exact` — the values that are written without loss.
* `Json.Yields` — what a reader with a limit does: it gives a value if that fits the limit, and
  complains about the depth if not.
* `Json.Decodes` — what a decoder makes of a value wherever that was written.
* `Json.decodes_readValue_list` and `Json.decodes_readValue_object` — lists and objects are read
  item by item and field by field.
* `Json.decodes_readValue` — an exact value is read as itself.
-/

set_option autoImplicit false
namespace BlockScript.Json

namespace Value

mutual

/-- A value all of whose numbers are whole and fit 64 bits. -/
def Exact : Value → Prop
  | .null => True
  | .bool _ => True
  | .integer n => -9223372036854775808 ≤ n ∧ n ≤ maxSignificand
  | .float _ => False
  | .string _ => True
  | .list items => ExactItems items
  | .object fields => ExactFields fields

/-- Items that are all exact. -/
def ExactItems : List Value → Prop
  | [] => True
  | item :: rest => item.Exact ∧ ExactItems rest

/-- Fields whose values are all exact. -/
def ExactFields : List (String × Value) → Prop
  | [] => True
  | (_, value) :: rest => value.Exact ∧ ExactFields rest

end

end Value

/-! ## Readers with a limit -/

/-- A reader gives a value and stops at a text if the value fits, and complains about the depth of
the text if it does not. -/
structure Yields {α : Type} {text : List UInt8} (fits : Prop)
    (result : Except Fault (Read α text)) (value : α) (rest : List UInt8) : Prop where
  reads : fits → Reads result value rest
  tooDeep : ¬ fits → ∃ unread, result = .error (.placed .tooDeep unread)

section Yields

variable {α : Type} {text rest : List UInt8} {fits fits' : Prop}
  {result : Except Fault (Read α text)} {value : α}

/-- Where nothing is opened, every limit is kept. -/
theorem Yields.of_reads (hfits : fits) (hread : Reads result value rest) :
    Yields fits result value rest := by
  constructor
  · intro _
    exact hread
  · intro hnot
    exact absurd hfits hnot

/-- Where a bracket is one too many, its depth is the fault. -/
theorem Yields.of_tooDeep (hnot : ¬ fits) (here : List UInt8) :
    Yields fits (Except.error (.peek .tooDeep here) : Except Fault (Read α text)) value rest := by
  constructor
  · intro hfits
    exact absurd hfits hnot
  · intro _
    exact ⟨_, rfl⟩

theorem Yields.congr (h : Yields fits result value rest) (hiff : fits' ↔ fits) :
    Yields fits' result value rest := by
  constructor
  · intro hfits
    exact h.reads (hiff.1 hfits)
  · intro hnot
    exact h.tooDeep (mt hiff.2 hnot)

theorem Reads.map {β : Type} (f : α → β) (h : Reads result value rest) :
    Reads (result.map fun read => read.map f) (f value) rest := by
  obtain ⟨shorter, rfl⟩ := h
  exact ⟨shorter, rfl⟩

theorem Yields.map {β : Type} (f : α → β) (h : Yields fits result value rest) :
    Yields fits (result.map fun read => read.map f) (f value) rest := by
  constructor
  · intro hfits
    exact (h.reads hfits).map f
  · intro hnot
    obtain ⟨unread, rfl⟩ := h.tooDeep hnot
    exact ⟨unread, rfl⟩

/-- A reader that reads one thing and goes on within the same limit. -/
theorem Yields.andThen {β : Type} {whole after : List UInt8} {fitsRest : Prop}
    {goOn : after.length < whole.length → Except Fault (Read β whole)}
    {both : Except Fault (Read β whole)} {all : β} (hfirst : Yields fits result value after)
    (hothers : ∀ hlt, Yields fitsRest (goOn hlt) all rest)
    (hread : ∀ shorter, result = .ok ⟨value, after, shorter⟩ → ∃ hlt, both = goOn hlt)
    (herror : ∀ fault, result = .error fault → both = .error fault) :
    Yields (fits ∧ fitsRest) both all rest := by
  by_cases hfits : fits
  · obtain ⟨shorter, hresult⟩ := hfirst.reads hfits
    obtain ⟨hlt, rfl⟩ := hread shorter hresult
    exact (hothers hlt).congr (and_iff_right hfits)
  · obtain ⟨unread, hresult⟩ := hfirst.tooDeep hfits
    constructor
    · intro hboth
      exact absurd hboth.1 hfits
    · intro _
      exact ⟨unread, herror _ hresult⟩

end Yields

/-! ## Items and fields -/

/-- A field stands at a text: its key is followed by a colon, and the value comes after that. -/
def FieldAt (first : Bool) (text : List UInt8) (key : String) (value : List UInt8) : Prop :=
  ∃ start afterKey, KeyAt first text start ∧ Reads (readString start) key afterKey ∧
    Reads (colon afterKey) () value

/-- A key that was written is read, and the colon after it. -/
theorem fieldAt_of_keyAt {first : Bool} {text : List UInt8} {key : String} {rest : List Char}
    (h : KeyAt first text (bytes (key.toList.flatMap quoteChar) ++ ascii '\x22'
      :: bytes (':' :: rest))) : FieldAt first text key (bytes rest) := by
  have hcolon : skipBlanks (bytes (':' :: rest)) = ascii ':' :: bytes rest := by
    rw [bytes_cons_of_lt (by decide)]
    exact skipBlanks_of_not_isBlank (by decide) _
  exact ⟨_, _, h, reads_readString key _, reads_colon hcolon⟩

theorem skipBlanks_newLine_quote (d : Nat) (key : String) (rest : List Char) :
    skipBlanks (bytes (Value.newLine d ((quote key).toList ++ rest)))
      = ascii '\x22' :: (bytes (key.toList.flatMap quoteChar) ++ ascii '\x22' :: bytes rest) := by
  rw [skipBlanks_newLine, bytes_quote]
  exact skipBlanks_of_not_isBlank (by decide) _

/-- The first field of an object, on a line of its own. -/
theorem fieldAt_first (d : Nat) (key : String) (rest : List Char) :
    FieldAt true (bytes (Value.newLine d ((quote key).toList ++ ':' :: rest))) key (bytes rest) :=
  fieldAt_of_keyAt (keyAt_first (skipBlanks_newLine_quote d key _))

/-- A further field, after a comma. -/
theorem fieldAt_comma (d : Nat) (key : String) (rest : List Char) :
    FieldAt false (bytes (',' :: Value.newLine d ((quote key).toList ++ ':' :: rest))) key
      (bytes rest) := by
  rw [bytes_cons_of_lt (by decide)]
  exact fieldAt_of_keyAt (keyAt_comma (skipBlanks_of_not_isBlank (by decide) _)
    (skipBlanks_newLine_quote d key _))

section Steps

variable {whole text start after rest : List UInt8} {fits fitsRest : Prop} {limit : Nat}
  {first : Bool}

/-- At the closing bracket the items read so far are given back. -/
theorem reads_readItems (h : skipBlanks text = ascii ']' :: rest) (items : Array Value)
    (hlt : text.length < whole.length) :
    Reads (readItems limit first items text hlt) items.toList rest := by
  obtain ⟨shorter, hclose⟩ := reads_closeList h
  refine ⟨Nat.lt_trans shorter hlt, ?_⟩
  rw [readItems, nextItem?_of_close first h]
  simp only [hclose]
  rfl

/-- An item is read, and then the others. -/
theorem yields_readItems_step {items : Array Value} {value : Value} {all : List Value}
    (hitem : ItemAt first text start) (hvalue : Yields fits (readValue limit start) value after)
    (hothers : ∀ hlt : after.length < whole.length,
      Yields fitsRest (readItems limit false (items.push value) after hlt) all rest)
    (hlt : text.length < whole.length) :
    Yields (fits ∧ fitsRest) (readItems limit first items text hlt) all rest := by
  obtain ⟨hstart, hnext⟩ := hitem
  refine hvalue.andThen hothers ?_ ?_
  · intro shorter hread
    refine ⟨by omega, ?_⟩
    rw [readItems]
    simp only [hnext, hread]
  · intro fault herror
    rw [readItems]
    simp only [hnext, herror]

/-- At the closing brace the fields read so far are given back. -/
theorem reads_readFields (h : skipBlanks text = ascii '\x7d' :: rest)
    (fields : Array (String × Value)) (hlt : text.length < whole.length) :
    Reads (readFields limit first fields text hlt) fields.toList rest := by
  obtain ⟨shorter, hclose⟩ := reads_closeObject h
  refine ⟨Nat.lt_trans shorter hlt, ?_⟩
  rw [readFields, nextKey?_of_close first h]
  simp only [hclose]
  rfl

/-- A field is read, and then the others. -/
theorem yields_readFields_step {fields : Array (String × Value)} {key : String} {value : Value}
    {all : List (String × Value)} (hfield : FieldAt first text key start)
    (hvalue : Yields fits (readValue limit start) value after)
    (hothers : ∀ hlt : after.length < whole.length,
      Yields fitsRest (readFields limit false (fields.push (key, value)) after hlt) all rest)
    (hlt : text.length < whole.length) :
    Yields (fits ∧ fitsRest) (readFields limit first fields text hlt) all rest := by
  obtain ⟨_, _, ⟨_, hnext⟩, ⟨_, hkey⟩, ⟨_, hcolon⟩⟩ := hfield
  refine hvalue.andThen hothers ?_ ?_
  · intro shorter hread
    refine ⟨by omega, ?_⟩
    rw [readFields]
    simp only [hnext, hkey, hcolon, hread]
  · intro fault herror
    rw [readFields]
    simp only [hnext, hkey, hcolon, herror]

end Steps

/-! ## Whole values -/

/-- A text at which a value may begin. -/
def OpensAt (text : List UInt8) : Prop := ∃ b rest, text = b :: rest ∧ Opens b

section Brackets

variable {text start rest after : List UInt8} {limit : Nat}

theorem OpensAt.skipBlanks_eq (h : OpensAt text) : skipBlanks text = text := by
  obtain ⟨b, rest, rfl, hopens⟩ := h
  exact skipBlanks_of_not_isBlank hopens.not_blank rest

theorem reads_readValue_scalar {value : Value} (htext : skipBlanks text = start)
    (hscalar : ScalarAt start value after) : Reads (readValue limit text) value after := by
  obtain ⟨b, rest, rfl, -, hlist, hobject, le, hread⟩ := hscalar
  refine ⟨Nat.lt_of_le_of_lt le (length_lt_of_skipBlanks htext), ?_⟩
  rw [readValue]
  split
  case h_1 hnil => exact absurd (htext.symm.trans hnil) (List.cons_ne_nil _ _)
  case h_2 c other hother =>
    obtain ⟨rfl, rfl⟩ := List.cons.inj (htext.symm.trans hother)
    rw [if_neg hlist, if_neg hobject, hread]
    rfl

/-- A list is read if one bracket may be opened and its items fit inside. -/
theorem yields_readValue_list {depth : Nat} {items : List Value}
    (h : skipBlanks text = ascii '[' :: rest)
    (hitems : ∀ (inner : Nat) (hlt : rest.length < text.length),
      Yields (depth ≤ inner) (readItems inner true #[] rest hlt) items after) :
    Yields (1 + depth ≤ limit) (readValue limit text) (.list items) after := by
  rw [readValue]
  split
  case h_1 hnil => exact absurd (h.symm.trans hnil) (List.cons_ne_nil _ _)
  case h_2 b other hcons =>
    obtain ⟨rfl, rfl⟩ := List.cons.inj (h.symm.trans hcons)
    rw [if_pos rfl]
    cases limit with
    | zero => exact .of_tooDeep (by omega) _
    | succ inner => exact ((hitems inner _).map Value.list).congr (by omega)

/-- An object is read if one bracket may be opened and its fields fit inside. -/
theorem yields_readValue_object {depth : Nat} {fields : List (String × Value)}
    (h : skipBlanks text = ascii '\x7b' :: rest)
    (hfields : ∀ (inner : Nat) (hlt : rest.length < text.length),
      Yields (depth ≤ inner) (readFields inner true #[] rest hlt) fields after) :
    Yields (1 + depth ≤ limit) (readValue limit text) (.object fields) after := by
  rw [readValue]
  split
  case h_1 hnil => exact absurd (h.symm.trans hnil) (List.cons_ne_nil _ _)
  case h_2 b other hcons =>
    obtain ⟨rfl, rfl⟩ := List.cons.inj (h.symm.trans hcons)
    rw [if_neg (by decide), if_pos rfl]
    cases limit with
    | zero => exact .of_tooDeep (by omega) _
    | succ inner => exact ((hfields inner _).map Value.object).congr (by omega)

end Brackets

/-! ## What was written -/

theorem skipBlanks_comma (rest : List Char) :
    skipBlanks (bytes (',' :: rest)) = ascii ',' :: bytes rest := by
  rw [bytes_cons_of_lt (by decide)]
  exact skipBlanks_of_not_isBlank (by decide) _

theorem skipBlanks_blank (rest : List Char) :
    skipBlanks (bytes (' ' :: rest)) = skipBlanks (bytes rest) := by
  rw [bytes_cons_of_lt (by decide), skipBlanks_space]

theorem ends_newLine (d : Nat) (rest : List Char) : Ends (bytes (Value.newLine d rest)) := by
  rw [Value.newLine, bytes_cons_of_lt (by decide)]
  exact ⟨rfl, rfl⟩

theorem ends_comma (rest : List Char) : Ends (bytes (',' :: rest)) := by
  rw [bytes_cons_of_lt (by decide)]
  exact ⟨rfl, rfl⟩

/-- What is written after the first item of a list. -/
abbrev restOfList (d : Nat) (items : List Value) (rest : List Char) : List Char :=
  Value.moreItemsThen (d + 1) items (Value.newLine d (']' :: rest))

/-- What is written after the first field of an object. -/
abbrev restOfObject (d : Nat) (fields : List (String × Value)) (rest : List Char) : List Char :=
  Value.moreFieldsThen (d + 1) fields (Value.newLine d ('\x7d' :: rest))

theorem ends_restOfList (d : Nat) (items : List Value) (rest : List Char) :
    Ends (bytes (restOfList d items rest)) := by
  cases items with
  | nil => exact ends_newLine d _
  | cons item items => exact ends_comma _

theorem ends_restOfObject (d : Nat) (fields : List (String × Value)) (rest : List Char) :
    Ends (bytes (restOfObject d fields rest)) := by
  cases fields with
  | nil => exact ends_newLine d _
  | cons field fields => exact ends_comma _

theorem skipBlanks_restOfList_nil (d : Nat) (rest : List Char) :
    skipBlanks (bytes (restOfList d [] rest)) = ascii ']' :: bytes rest := by
  rw [restOfList, Value.moreItemsThen, skipBlanks_newLine, bytes_cons_of_lt (by decide)]
  exact skipBlanks_of_not_isBlank (by decide) _

theorem skipBlanks_restOfObject_nil (d : Nat) (rest : List Char) :
    skipBlanks (bytes (restOfObject d [] rest)) = ascii '\x7d' :: bytes rest := by
  rw [restOfObject, Value.moreFieldsThen, skipBlanks_newLine, bytes_cons_of_lt (by decide)]
  exact skipBlanks_of_not_isBlank (by decide) _

theorem ScalarAt.opensAt {value : Value} {text after : List UInt8} (h : ScalarAt text value after) :
    OpensAt text := by
  obtain ⟨b, rest, hcons, hopens, -⟩ := h
  exact ⟨b, rest, hcons, hopens⟩

theorem opensAt_integer (n : Int) (rest : List Char) :
    OpensAt (bytes ((Value.integer n).scalarText.toList ++ rest)) := by
  cases n with
  | ofNat n =>
    obtain ⟨c, digits, hdigits⟩ :=
      List.exists_cons_of_ne_nil (Nat.toDigits_ne_nil (n := n) (b := 10))
    have hc : isDigit (ascii c) = true :=
      isDigit_ascii (isDigit_of_mem_toDigits c (hdigits ▸ List.mem_cons_self))
    rw [bytes_ofNat, hdigits]
    exact ⟨_, _, rfl, opens_of_isDigit hc⟩
  | negSucc n => exact ⟨_, _, bytes_negSucc n rest, by decide, by decide⟩

/-- A value may begin where it was written. -/
theorem opensAt_prettyThen (value : Value) (d : Nat) {rest : List Char}
    (hends : Ends (bytes rest)) : OpensAt (bytes (value.prettyThen d rest)) := by
  cases value with
  | null => exact (scalarAt_null rest).opensAt
  | bool b => exact (scalarAt_bool b rest).opensAt
  | integer n => exact opensAt_integer n rest
  | float x =>
    obtain ⟨b, text, hcons, hopens, -⟩ := doubleAt_floatText x hends
    exact ⟨b, text, hcons, hopens⟩
  | string text => exact (scalarAt_string text rest).opensAt
  | list items =>
    cases items <;>
      exact ⟨_, _, bytes_cons_of_lt (by decide) _, by decide, by decide⟩
  | object fields =>
    cases fields <;>
      exact ⟨_, _, bytes_cons_of_lt (by decide) _, by decide, by decide⟩

section Written

variable (value : Value) (d : Nat) {rest : List Char} (hends : Ends (bytes rest))

include hends

theorem skipBlanks_prettyThen :
    skipBlanks (bytes (value.prettyThen d rest)) = bytes (value.prettyThen d rest) :=
  (opensAt_prettyThen value d hends).skipBlanks_eq

/-- After a colon a blank is written. -/
theorem skipBlanks_blank_prettyThen :
    skipBlanks (bytes (' ' :: value.prettyThen d rest)) = bytes (value.prettyThen d rest) :=
  (skipBlanks_blank _).trans (skipBlanks_prettyThen value d hends)

/-- The first item of a list, on a line of its own. -/
theorem itemAt_newLine_prettyThen :
    ItemAt true (bytes (Value.newLine d (value.prettyThen d rest)))
      (bytes (value.prettyThen d rest)) := by
  have hstart := (skipBlanks_newLine d _).trans (skipBlanks_prettyThen value d hends)
  obtain ⟨b, text, hcons, hopens⟩ := opensAt_prettyThen value d hends
  rw [hcons] at hstart ⊢
  exact itemAt_first hstart hopens.ne_close

/-- A further item, after a comma. -/
theorem itemAt_comma_prettyThen :
    ItemAt false (bytes (',' :: Value.newLine d (value.prettyThen d rest)))
      (bytes (value.prettyThen d rest)) := by
  have hstart := (skipBlanks_newLine d _).trans (skipBlanks_prettyThen value d hends)
  obtain ⟨b, text, hcons, hopens⟩ := opensAt_prettyThen value d hends
  rw [hcons] at hstart ⊢
  exact itemAt_comma (skipBlanks_comma _) hstart hopens.ne_close

end Written

/-- A decoder makes something of a value wherever that was written, unless the value is nested too
deeply. -/
structure Decodes {α : Type} (decoder : Decoder α) (value : Value) (decoded : α) : Prop where
  yields : ∀ {limit d : Nat} {text : List UInt8} {rest : List Char},
    skipBlanks text = bytes (value.prettyThen d rest) → Ends (bytes rest) →
    Yields (value.depth ≤ limit) (decoder limit text) decoded (bytes rest)

theorem decodes_readValue_scalar {value read : Value} (hdepth : value.depth = 0)
    (hscalar : ∀ {d : Nat} {rest : List Char}, Ends (bytes rest) →
      ScalarAt (bytes (value.prettyThen d rest)) read (bytes rest)) :
    Decodes readValue value read where
  yields htext hends :=
    .of_reads (hdepth ▸ Nat.zero_le _) (reads_readValue_scalar htext (hscalar hends))

/-! ### Lists -/

/-- Further items of a list that was written are read up to the closing bracket. -/
theorem yields_readItems {items reads : List Value}
    (h : List.Forall₂ (Decodes readValue) items reads) {limit d : Nat} {whole : List UInt8}
    {rest : List Char} (before : Array Value)
    (hlt : (bytes (restOfList d items rest)).length < whole.length) :
    Yields (Value.depthOfItems items ≤ limit)
      (readItems limit false before (bytes (restOfList d items rest)) hlt)
      (before.toList ++ reads) (bytes rest) := by
  induction h generalizing before with
  | nil =>
    rw [List.append_nil]
    exact .of_reads (Nat.zero_le limit)
      (reads_readItems (skipBlanks_restOfList_nil d rest) before hlt)
  | @cons item read items reads hone hmany ih =>
    have hmore := ends_restOfList d items rest
    have hitem := itemAt_comma_prettyThen item (d + 1) hmore
    have hstart := skipBlanks_prettyThen item (d + 1) hmore
    refine (yields_readItems_step hitem (hone.yields hstart hmore) ?_ hlt).congr Nat.max_le
    intro hlt'
    rw [List.append_cons, ← Array.toList_push]
    exact ih (before.push read) hlt'

/-- **Lists are read item by item.** -/
theorem decodes_readValue_list {items reads : List Value}
    (h : List.Forall₂ (Decodes readValue) items reads) :
    Decodes readValue (.list items) (.list reads) := by
  constructor
  intro limit d text rest htext hends
  cases h with
  | nil =>
    rw [Value.prettyThen, bytes_cons_of_lt (by decide), bytes_cons_of_lt (by decide)] at htext
    have hclose : skipBlanks (ascii ']' :: bytes rest) = ascii ']' :: bytes rest := rfl
    exact yields_readValue_list htext fun inner hlt =>
      .of_reads (Nat.zero_le inner) (reads_readItems hclose #[] hlt)
  | @cons item read items reads hone hmany =>
    rw [Value.prettyThen, bytes_cons_of_lt (by decide)] at htext
    have hmore := ends_restOfList d items rest
    have hitem := itemAt_newLine_prettyThen item (d + 1) hmore
    have hstart := skipBlanks_prettyThen item (d + 1) hmore
    exact yields_readValue_list htext fun inner hlt =>
      (yields_readItems_step hitem (hone.yields hstart hmore) (yields_readItems hmany #[read])
        hlt).congr Nat.max_le

/-! ### Objects -/

/-- A field that was written is read as another one: the key is kept, and the value may be read as
another value. -/
inductive ReadsField : String × Value → String × Value → Prop
  | under (key : String) {value read : Value} (h : Decodes readValue value read) :
    ReadsField (key, value) (key, read)

/-- Further fields of an object that was written are read up to the closing brace. -/
theorem yields_readFields {fields reads : List (String × Value)}
    (h : List.Forall₂ ReadsField fields reads) {limit d : Nat} {whole : List UInt8}
    {rest : List Char} (before : Array (String × Value))
    (hlt : (bytes (restOfObject d fields rest)).length < whole.length) :
    Yields (Value.depthOfFields fields ≤ limit)
      (readFields limit false before (bytes (restOfObject d fields rest)) hlt)
      (before.toList ++ reads) (bytes rest) := by
  induction h generalizing before with
  | nil =>
    rw [List.append_nil]
    exact .of_reads (Nat.zero_le limit)
      (reads_readFields (skipBlanks_restOfObject_nil d rest) before hlt)
  | @cons _ _ fields reads hone hmany ih =>
    obtain ⟨key, hone⟩ := hone
    rename_i value read
    have hmore := ends_restOfObject d fields rest
    have hstart := skipBlanks_blank_prettyThen value (d + 1) hmore
    refine (yields_readFields_step (fieldAt_comma (d + 1) key _) (hone.yields hstart hmore) ?_
      hlt).congr Nat.max_le
    intro hlt'
    rw [List.append_cons, ← Array.toList_push]
    exact ih (before.push (key, read)) hlt'

/-- **Objects are read field by field.** -/
theorem decodes_readValue_object {fields reads : List (String × Value)}
    (h : List.Forall₂ ReadsField fields reads) :
    Decodes readValue (.object fields) (.object reads) := by
  constructor
  intro limit d text rest htext hends
  cases h with
  | nil =>
    rw [Value.prettyThen, bytes_cons_of_lt (by decide), bytes_cons_of_lt (by decide)] at htext
    have hclose : skipBlanks (ascii '\x7d' :: bytes rest) = ascii '\x7d' :: bytes rest := rfl
    exact yields_readValue_object htext fun inner hlt =>
      .of_reads (Nat.zero_le inner) (reads_readFields hclose #[] hlt)
  | @cons _ _ fields reads hone hmany =>
    obtain ⟨key, hone⟩ := hone
    rename_i value read
    rw [Value.prettyThen, bytes_cons_of_lt (by decide)] at htext
    have hmore := ends_restOfObject d fields rest
    have hstart := skipBlanks_blank_prettyThen value (d + 1) hmore
    exact yields_readValue_object htext fun inner hlt =>
      (yields_readFields_step (fieldAt_first (d + 1) key _) (hone.yields hstart hmore)
        (yields_readFields hmany #[(key, read)]) hlt).congr Nat.max_le

/-! ### Exact values -/

mutual

/-- **An exact value is read as itself.** -/
theorem decodes_readValue : ∀ {value : Value}, value.Exact → Decodes readValue value value
  | .null, _ => decodes_readValue_scalar rfl fun _ => scalarAt_null _
  | .bool b, _ => decodes_readValue_scalar rfl fun _ => scalarAt_bool b _
  | .integer _, hexact => decodes_readValue_scalar rfl fun hends =>
    scalarAt_integer hexact.1 hexact.2 hends
  | .float _, hexact => hexact.elim
  | .string content, _ => decodes_readValue_scalar rfl fun _ => scalarAt_string content _
  | .list _, hexact => decodes_readValue_list (forall₂_exactItems hexact)
  | .object _, hexact => decodes_readValue_object (forall₂_exactFields hexact)

theorem forall₂_exactItems : ∀ {items : List Value}, Value.ExactItems items →
    List.Forall₂ (Decodes readValue) items items
  | [], _ => .nil
  | _ :: _, hexact => .cons (decodes_readValue hexact.1) (forall₂_exactItems hexact.2)

theorem forall₂_exactFields : ∀ {fields : List (String × Value)}, Value.ExactFields fields →
    List.Forall₂ ReadsField fields fields
  | [], _ => .nil
  | (key, _) :: _, hexact =>
    .cons (.under key (decodes_readValue hexact.1)) (forall₂_exactFields hexact.2)

end

end BlockScript.Json
