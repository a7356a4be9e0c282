import BlockScript.Json.Tagged
import BlockScript.Proofs.Json.Values

/-!
# Decoding what was written

A decoder reads the text of a value and never the value itself, but where the value was written it
can be judged by the value alone.  What decoders do with the parts of a value lifts to the whole:
from items to lists, from fields to records, and from the content beside a tag to tagged values.

## What is here

* `Json.decodes_list`, `Json.decodes_record`, `Json.Decodes.ofTagged` — the lifting.
* `Json.decode_pretty` — a whole document that was written, decoded.
-/

set_option autoImplicit false
namespace BlockScript.Json

section Decoders

variable {α : Type} {text start rest after : List UInt8} {limit : Nat}

/-! ## Scalars -/

theorem reads_scalar {expected : String} {pick : Value → Except Cause α} {value : Value}
    {picked : α} (htext : skipBlanks text = start) (hscalar : ScalarAt start value after)
    (hpick : pick value = .ok picked) :
    Reads (Decoder.scalar expected pick limit text) picked after := by
  obtain ⟨b, rest, rfl, -, hlist, hobject, le, hread⟩ := hscalar
  refine ⟨Nat.lt_of_le_of_lt le (length_lt_of_skipBlanks htext), ?_⟩
  rw [Decoder.scalar]
  split
  case h_1 hnil => exact absurd (htext.symm.trans hnil) (List.cons_ne_nil _ _)
  case h_2 c other hother =>
    obtain ⟨rfl, rfl⟩ := List.cons.inj (htext.symm.trans hother)
    rw [if_neg (not_or.2 ⟨hlist, hobject⟩)]
    simp only [hread, hpick]

theorem decodes_string {expected : String} {pick : Value → Except Cause α} {content : String}
    {picked : α} (hpick : pick (.string content) = .ok picked) :
    Decodes (Decoder.scalar expected pick) (.string content) picked where
  yields htext _ :=
    .of_reads (Nat.zero_le _) (reads_scalar htext (scalarAt_string content _) hpick)

/-! ## Lists -/

/-- One bracket less may be opened inside, and the bracket is closed at the end. -/
theorem reads_within {inner : Nat} {here : List UInt8} {stand : List UInt8 → List UInt8}
    {close : (rest : List UInt8) → Except Fault (Read Unit rest)}
    {inside : Nat → Except Fault (Read α text)} {value : α}
    (hinside : Reads (inside inner) value rest) (hclose : Reads (close rest) () after) :
    Reads (within (inner + 1) here stand close inside) value after := by
  obtain ⟨hrest, hread⟩ := hinside
  obtain ⟨hafter, hclose⟩ := hclose
  refine ⟨Nat.lt_trans hafter hrest, ?_⟩
  rw [within, hread]
  simp only [hclose]
  rfl

theorem yields_within {depth : Nat} {here : List UInt8} {stand : List UInt8 → List UInt8}
    {close : (rest : List UInt8) → Except Fault (Read Unit rest)}
    {inside : Nat → Except Fault (Read α text)} {value : α}
    (hinside : ∀ inner, Yields (depth ≤ inner) (inside inner) value rest)
    (hclose : Reads (close rest) () after) :
    Yields (1 + depth ≤ limit) (within limit here stand close inside) value after := by
  cases limit with
  | zero => exact .of_tooDeep (by omega) here
  | succ inner =>
    by_cases hfits : depth ≤ inner
    · exact .of_reads (by omega) (reads_within ((hinside inner).reads hfits) hclose)
    · obtain ⟨unread, herror⟩ := (hinside inner).tooDeep hfits
      constructor
      · intro _
        omega
      · intro _
        refine ⟨unread, ?_⟩
        rw [within, herror]
        rfl

theorem itemsFrom_of_close {whole : List UInt8} {item : Decoder α} {first : Bool}
    {items : Array α} (h : skipBlanks text = ascii ']' :: rest) (hlt : text.length < whole.length) :
    Reads (Decoder.itemsFrom item limit first items text hlt) items.toList text := by
  refine ⟨hlt, ?_⟩
  rw [Decoder.itemsFrom, nextItem?_of_close first h]

/-- An item is decoded, and then the others. -/
theorem yields_itemsFrom_step {whole : List UInt8} {item : Decoder α} {first : Bool}
    {items : Array α} {fits fitsRest : Prop} {value : α} {all : List α}
    (hitem : ItemAt first text start) (hvalue : Yields fits (item limit start) value after)
    (hothers : ∀ hlt : after.length < whole.length,
      Yields fitsRest (Decoder.itemsFrom item limit false (items.push value) after hlt) all rest)
    (hlt : text.length < whole.length) :
    Yields (fits ∧ fitsRest) (Decoder.itemsFrom item limit first items text hlt) all rest := by
  obtain ⟨hstart, hnext⟩ := hitem
  refine hvalue.andThen hothers ?_ ?_
  · intro shorter hread
    refine ⟨by omega, ?_⟩
    rw [Decoder.itemsFrom]
    simp only [hnext, hread]
  · intro fault herror
    rw [Decoder.itemsFrom]
    simp only [hnext, herror]

theorem yields_itemsFrom {item : Decoder α} {values : List Value} {decoded : List α}
    (h : List.Forall₂ (Decodes item) values decoded) {whole : List UInt8} {d : Nat}
    {chars : List Char} (before : Array α)
    (hlt : (bytes (restOfList d values chars)).length < whole.length) :
    Yields (Value.depthOfItems values ≤ limit)
      (Decoder.itemsFrom item limit false before (bytes (restOfList d values chars)) hlt)
      (before.toList ++ decoded) (bytes (restOfList d [] chars)) := by
  induction h generalizing before with
  | nil =>
    rw [List.append_nil]
    exact .of_reads (Nat.zero_le limit)
      (itemsFrom_of_close (skipBlanks_restOfList_nil d chars) hlt)
  | @cons value one values decoded hone hmany ih =>
    have hmore := ends_restOfList d values chars
    have hitem := itemAt_comma_prettyThen value (d + 1) hmore
    have hstart := skipBlanks_prettyThen value (d + 1) hmore
    refine (yields_itemsFrom_step hitem (hone.yields hstart hmore) ?_ hlt).congr Nat.max_le
    intro hlt'
    rw [List.append_cons, ← Array.toList_push]
    exact ih (before.push one) hlt'

theorem yields_decoderList {item : Decoder α} {depth : Nat} {decoded : List α}
    {left : List UInt8} (h : skipBlanks text = ascii '[' :: rest)
    (hitems : ∀ (inner : Nat) (hlt : rest.length < text.length),
      Yields (depth ≤ inner) (Decoder.itemsFrom item inner true #[] rest hlt) decoded left)
    (hclose : skipBlanks left = ascii ']' :: after) :
    Yields (1 + depth ≤ limit) (Decoder.list item limit text) decoded after := by
  rw [Decoder.list]
  split
  case h_1 hnil => exact absurd (h.symm.trans hnil) (List.cons_ne_nil _ _)
  case h_2 b other hcons =>
    obtain ⟨rfl, rfl⟩ := List.cons.inj (h.symm.trans hcons)
    rw [if_pos rfl]
    exact yields_within (fun inner => hitems inner _) (reads_closeList hclose)

/-- **Lists decode item by item.** -/
theorem decodes_list {item : Decoder α} {values : List Value} {decoded : List α}
    (h : List.Forall₂ (Decodes item) values decoded) :
    Decodes (Decoder.list item) (.list values) decoded := by
  constructor
  intro limit d text rest htext hends
  cases h with
  | nil =>
    rw [Value.prettyThen, bytes_cons_of_lt (by decide), bytes_cons_of_lt (by decide)] at htext
    have hclose : skipBlanks (ascii ']' :: bytes rest) = ascii ']' :: bytes rest := rfl
    exact yields_decoderList htext
      (fun inner hlt => .of_reads (Nat.zero_le inner) (itemsFrom_of_close hclose hlt)) hclose
  | @cons value one values decoded hone hmany =>
    rw [Value.prettyThen, bytes_cons_of_lt (by decide)] at htext
    have hmore := ends_restOfList d values rest
    have hitem := itemAt_newLine_prettyThen value (d + 1) hmore
    have hstart := skipBlanks_prettyThen value (d + 1) hmore
    exact yields_decoderList htext
      (fun inner hlt => (yields_itemsFrom_step hitem (hone.yields hstart hmore)
        (yields_itemsFrom hmany #[one]) hlt).congr Nat.max_le)
      (skipBlanks_restOfList_nil d rest)

end Decoders

/-! ## Records -/

section Records

variable {δ α : Type} {text rest after : List UInt8} {limit : Nat}

/-- Named values are read into a draft one by one, each into a field that the draft lacks. -/
inductive Fills (fields : List (Field δ)) : δ → List (String × Value) → δ → Prop where
  | nil (draft : δ) : Fills fields draft [] draft
  | cons {draft next last : δ} {key : String} {value : Value} {named : List (String × Value)}
    (field : Field δ) (hfind : fields.find? (·.key == key) = some field)
    (hlacks : field.given draft = false) (hread : Decodes (field.read draft) value next)
    (hothers : Fills fields next named last) : Fills fields draft ((key, value) :: named) last

theorem recordFields_of_close {whole : List UInt8} {fields : List (Field δ)} {first : Bool}
    {draft : δ} (h : skipBlanks text = ascii '\x7d' :: rest) (hlt : text.length < whole.length) :
    Reads (Record.readFields fields limit first draft text hlt) draft text := by
  refine ⟨hlt, ?_⟩
  rw [Record.readFields, nextKey?_of_close first h]

/-- A field is read into the draft, and then the others. -/
theorem yields_recordFields_step {whole start : List UInt8} {fields : List (Field δ)}
    {first : Bool} {draft next last : δ} {key : String} {field : Field δ} {fits fitsRest : Prop}
    (hkey : FieldAt first text key start) (hfind : fields.find? (·.key == key) = some field)
    (hlacks : field.given draft = false)
    (hvalue : Yields fits (field.read draft limit start) next after)
    (hothers : ∀ hlt : after.length < whole.length,
      Yields fitsRest (Record.readFields fields limit false next after hlt) last rest)
    (hlt : text.length < whole.length) :
    Yields (fits ∧ fitsRest) (Record.readFields fields limit first draft text hlt) last rest := by
  obtain ⟨_, _, ⟨_, hnext⟩, ⟨_, hkey⟩, ⟨_, hcolon⟩⟩ := hkey
  refine hvalue.andThen hothers ?_ ?_
  · intro shorter hread
    refine ⟨by omega, ?_⟩
    rw [Record.readFields]
    simp only [hnext, hkey, hfind, hlacks, hcolon, hread, Bool.false_eq_true, if_false]
  · intro fault herror
    rw [Record.readFields]
    simp only [hnext, hkey, hfind, hlacks, hcolon, herror, Bool.false_eq_true, if_false]

theorem yields_recordFields {fields : List (Field δ)} {draft last : δ}
    {named : List (String × Value)} (h : Fills fields draft named last) {whole : List UInt8}
    {d : Nat} {chars : List Char}
    (hlt : (bytes (restOfObject d named chars)).length < whole.length) :
    Yields (Value.depthOfFields named ≤ limit)
      (Record.readFields fields limit false draft (bytes (restOfObject d named chars)) hlt)
      last (bytes (restOfObject d [] chars)) := by
  induction h with
  | nil draft =>
    exact .of_reads (Nat.zero_le limit)
      (recordFields_of_close (skipBlanks_restOfObject_nil d chars) hlt)
  | @cons draft next last key value named field hfind hlacks hread hothers ih =>
    have hmore := ends_restOfObject d named chars
    have hstart := skipBlanks_blank_prettyThen value (d + 1) hmore
    exact (yields_recordFields_step (fieldAt_comma (d + 1) key _) hfind hlacks
      (hread.yields hstart hmore) ih hlt).congr Nat.max_le

theorem Reads.finish {β : Type} {result : Except Fault (Read δ text)} {draft : δ}
    (h : Reads result draft rest) {build : δ → Except Cause β} {value : β}
    (hbuild : build draft = .ok value) : Reads (result >>= Record.finish build) value rest := by
  obtain ⟨shorter, rfl⟩ := h
  refine ⟨shorter, ?_⟩
  simp only [bind, Except.bind, Record.finish, hbuild]

theorem Yields.finish {β : Type} {fits : Prop} {result : Except Fault (Read δ text)} {draft : δ}
    (h : Yields fits result draft rest) {build : δ → Except Cause β} {value : β}
    (hbuild : build draft = .ok value) :
    Yields fits (result >>= Record.finish build) value rest := by
  constructor
  · exact fun hfits => (h.reads hfits).finish hbuild
  · intro hnot
    obtain ⟨unread, rfl⟩ := h.tooDeep hnot
    exact ⟨unread, rfl⟩

theorem recordDecoder_object {record : Record δ α} (h : skipBlanks text = ascii '\x7b' :: rest) :
    record.decoder limit text
      = within limit (ascii '\x7b' :: rest) afterObject closeObject fun inner =>
        Record.readFields record.fields inner true record.blank rest (length_lt_of_skipBlanks h)
          >>= Record.finish record.ofFields := by
  rw [Record.decoder]
  split
  case h_1 hnil => exact absurd (h.symm.trans hnil) (List.cons_ne_nil _ _)
  case h_2 b other hcons =>
    obtain ⟨rfl, rfl⟩ := List.cons.inj (h.symm.trans hcons)
    rw [if_neg (by decide), if_pos rfl]

theorem recordDecoder_list {record : Record δ α} (h : skipBlanks text = ascii '[' :: rest) :
    record.decoder limit text
      = within limit (ascii '[' :: rest) afterList closeList fun inner =>
        Record.readItems inner true record.blank rest (length_lt_of_skipBlanks h) record.fields
          >>= Record.finish record.ofItems := by
  rw [Record.decoder]
  split
  case h_1 hnil => exact absurd (h.symm.trans hnil) (List.cons_ne_nil _ _)
  case h_2 b other hcons =>
    obtain ⟨rfl, rfl⟩ := List.cons.inj (h.symm.trans hcons)
    rw [if_pos rfl]

theorem yields_recordDecoder {record : Record δ α} {depth : Nat} {draft : δ} {value : α}
    {left : List UInt8} (h : skipBlanks text = ascii '\x7b' :: rest)
    (hfields : ∀ (inner : Nat) (hlt : rest.length < text.length),
      Yields (depth ≤ inner) (Record.readFields record.fields inner true record.blank rest hlt)
        draft left)
    (hbuild : record.build draft = .ok value) (hclose : skipBlanks left = ascii '\x7d' :: after) :
    Yields (1 + depth ≤ limit) (record.decoder limit text) value after := by
  have hvalue : record.ofFields draft = .ok value := by
    rw [Record.ofFields, hbuild]
  rw [recordDecoder_object h]
  exact yields_within (fun inner => (hfields inner _).finish hvalue) (reads_closeObject hclose)

/-- **Records decode field by field.** -/
theorem decodes_record {record : Record δ α} {named : List (String × Value)} {draft : δ}
    {value : α} (h : Fills record.fields record.blank named draft)
    (hbuild : record.build draft = .ok value) :
    Decodes record.decoder (.object named) value := by
  constructor
  intro limit d text rest htext hends
  cases h with
  | nil draft =>
    rw [Value.prettyThen, bytes_cons_of_lt (by decide), bytes_cons_of_lt (by decide)] at htext
    have hclose : skipBlanks (ascii '\x7d' :: bytes rest) = ascii '\x7d' :: bytes rest := rfl
    exact yields_recordDecoder htext
      (fun inner hlt => .of_reads (Nat.zero_le inner) (recordFields_of_close hclose hlt)) hbuild
      hclose
  | @cons _ next _ key value named field hfind hlacks hread hothers =>
    rw [Value.prettyThen, bytes_cons_of_lt (by decide)] at htext
    have hmore := ends_restOfObject d named rest
    have hstart := skipBlanks_blank_prettyThen value (d + 1) hmore
    exact yields_recordDecoder htext
      (fun inner hlt => (yields_recordFields_step (fieldAt_first (d + 1) key _) hfind hlacks
        (hread.yields hstart hmore) (yields_recordFields hothers) hlt).congr Nat.max_le)
      hbuild (skipBlanks_restOfObject_nil d rest)

/-- A field with a place of its own is read into that place. -/
theorem Decodes.kept {decoder : Decoder α} {value : Value} {decoded : α}
    (h : Decodes decoder value decoded) (key : String) (get : δ → Option α) (set : δ → α → δ)
    (draft : δ) :
    Decodes ((Field.kept key get set decoder).read draft) value (set draft decoded) :=
  ⟨fun htext hends => (h.yields htext hends).map (set draft)⟩

end Records

/-! ## Tagged values -/

section Tagged

variable {τ α : Type} {variants : List (String × τ)} {key : String} {text rest after : List UInt8}
  {limit : Nat}

theorem taggedFields_of_close {whole : List UInt8} {first : Bool} {tag : τ}
    {others : Array (String × Value)} (h : skipBlanks text = ascii '\x7d' :: rest)
    (hlt : text.length < whole.length) :
    Reads (taggedFields key variants limit first (some tag) others text hlt)
      (tag, .fields others.toList) text := by
  refine ⟨hlt, ?_⟩
  rw [taggedFields, nextKey?_of_close first h]

/-- A field that is not the tag is kept aside. -/
theorem yields_taggedFields_step {whole start : List UInt8} {first : Bool} {tag : Option τ}
    {others : Array (String × Value)} {name : String} {value : Value} {fits fitsRest : Prop}
    {all : τ × Content Value} (hname : FieldAt first text name start) (hne : name ≠ key)
    (hvalue : Yields fits (readValue limit start) value after)
    (hothers : ∀ hlt : after.length < whole.length, Yields fitsRest
      (taggedFields key variants limit false tag (others.push (name, value)) after hlt) all rest)
    (hlt : text.length < whole.length) :
    Yields (fits ∧ fitsRest) (taggedFields key variants limit first tag others text hlt) all
      rest := by
  obtain ⟨_, _, ⟨_, hnext⟩, ⟨_, hkey⟩, ⟨_, hcolon⟩⟩ := hname
  refine hvalue.andThen hothers ?_ ?_
  · intro shorter hread
    refine ⟨by omega, ?_⟩
    rw [taggedFields.eq_def]
    simp only [hnext, hkey, if_neg hne, hcolon, hread]
  · intro fault herror
    rw [taggedFields.eq_def]
    simp only [hnext, hkey, if_neg hne, hcolon, herror]

/-- The keys of the fields that were written are those of the fields that are read. -/
theorem ReadsField.ne_key {named reads : List (String × Value)}
    (h : List.Forall₂ ReadsField named reads) (hne : ∀ field ∈ named, field.1 ≠ key) :
    ∀ field ∈ reads, field.1 ≠ key := by
  induction h with
  | nil => exact nofun
  | cons hone _ ih =>
    obtain ⟨hne, hothers⟩ := List.forall_mem_cons.1 hne
    obtain ⟨name, -⟩ := hone
    exact List.forall_mem_cons.2 ⟨hne, ih hothers⟩

theorem yields_taggedFields {tag : τ} {named reads : List (String × Value)}
    (h : List.Forall₂ ReadsField named reads) (hne : ∀ field ∈ named, field.1 ≠ key)
    {whole : List UInt8} {d : Nat} {chars : List Char} (before : Array (String × Value))
    (hlt : (bytes (restOfObject d named chars)).length < whole.length) :
    Yields (Value.depthOfFields named ≤ limit)
      (taggedFields key variants limit false (some tag) before
        (bytes (restOfObject d named chars)) hlt)
      (tag, .fields (before.toList ++ reads)) (bytes (restOfObject d [] chars)) := by
  induction h generalizing before with
  | nil =>
    rw [List.append_nil]
    exact .of_reads (Nat.zero_le limit)
      (taggedFields_of_close (skipBlanks_restOfObject_nil d chars) hlt)
  | @cons _ _ named reads hone hmany ih =>
    obtain ⟨name, hone⟩ := hone
    rename_i value read
    obtain ⟨hname, hothers⟩ := List.forall_mem_cons.1 hne
    have hmore := ends_restOfObject d named chars
    have hstart := skipBlanks_blank_prettyThen value (d + 1) hmore
    refine (yields_taggedFields_step (fieldAt_comma (d + 1) name _) hname (hone.yields hstart hmore)
      ?_ hlt).congr Nat.max_le
    intro hlt'
    rw [List.append_cons, ← Array.toList_push]
    exact ih hothers (before.push (name, read)) hlt'

/-- The tag is read, and then everything else is kept aside. -/
theorem yields_taggedFields_tag {whole start : List UInt8} {first : Bool} {tag : τ}
    {others : Array (String × Value)} {fits : Prop} {all : τ × Content Value}
    (hkey : FieldAt first text key start)
    (htag : Reads (Decoder.variant variants limit start) tag after)
    (hothers : ∀ hlt : after.length < whole.length, Yields fits
      (taggedFields key variants limit false (some tag) others after hlt) all rest)
    (hlt : text.length < whole.length) :
    Yields fits (taggedFields key variants limit first none others text hlt) all rest := by
  obtain ⟨_, _, ⟨_, hnext⟩, ⟨_, hkey⟩, ⟨_, hcolon⟩⟩ := hkey
  obtain ⟨hafter, hread⟩ := htag
  have hshort : after.length < whole.length := by omega
  have hstep : taggedFields key variants limit first none others text hlt
      = taggedFields key variants limit false (some tag) others after hshort := by
    rw [taggedFields.eq_def]
    simp only [hnext, hkey, if_pos, hcolon, hread]
  rw [hstep]
  exact hothers hshort

/-- **A tag that comes first is read, and the other fields are kept aside.** -/
theorem decodes_tagged (type : String) {name : String} {tag : τ}
    {named reads : List (String × Value)} (hvariant : variantOf variants name = .ok tag)
    (hnamed : List.Forall₂ ReadsField named reads) (hne : ∀ field ∈ named, field.1 ≠ key) :
    Decodes (Decoder.tagged type key variants) (.object ((key, .string name) :: named))
      (tag, .fields reads) := by
  constructor
  intro limit d text rest htext hends
  rw [Value.prettyThen, bytes_cons_of_lt (by decide)] at htext
  rw [Decoder.tagged]
  split
  case h_1 hnil => exact absurd (htext.symm.trans hnil) (List.cons_ne_nil _ _)
  case h_2 b other hcons =>
    obtain ⟨rfl, rfl⟩ := List.cons.inj (htext.symm.trans hcons)
    rw [if_neg (by decide), if_pos rfl]
    have htag : Decodes (Decoder.variant variants) (.string name) tag := decodes_string hvariant
    have hmore := ends_restOfObject d named rest
    have hstart := skipBlanks_blank_prettyThen (.string name) (d + 1) hmore
    have hdepth : (Value.object ((key, .string name) :: named)).depth
        = 1 + Value.depthOfFields named := congrArg (1 + ·) (Nat.zero_max _)
    rw [hdepth]
    exact yields_within (fun inner => yields_taggedFields_tag (fieldAt_first (d + 1) key _)
      ((htag.yields hstart hmore).reads (Nat.zero_le inner)) (yields_taggedFields hnamed hne #[]) _)
      (reads_closeObject (skipBlanks_restOfObject_nil d rest))

/-- **A tagged value decodes by its tag and its content.** -/
theorem Decodes.ofTagged {type : String} {value : Value} {tag : τ} {content : Content Value}
    (h : Decodes (Decoder.tagged type key variants) value (tag, content))
    {build : τ → Content Value → Except Cause α} {decoded : α}
    (hbuild : build tag content = .ok decoded) :
    Decodes (Decoder.ofTagged type key variants build) value decoded := by
  constructor
  intro limit d text rest htext hends
  constructor
  · intro hfits
    obtain ⟨shorter, hread⟩ := (h.yields htext hends).reads hfits
    refine ⟨shorter, ?_⟩
    rw [Decoder.ofTagged, hread]
    simp only [hbuild]
  · intro hnot
    obtain ⟨unread, herror⟩ := (h.yields htext hends).tooDeep hnot
    refine ⟨unread, ?_⟩
    rw [Decoder.ofTagged, herror]

end Tagged

/-! ## Values kept aside -/

section Aside

variable {β δ τ α : Type}

/-- What is not the tag is left when the tag is taken. -/
theorem takeTagFrom_of_ne {view : β → Value} {key : String} {variants : List (String × τ)}
    (tag : τ) {named : List (String × β)} (hne : ∀ field ∈ named, field.1 ≠ key)
    (others : Array (String × β)) :
    Content.takeTagFrom view key variants (some tag) others named
      = .ok (tag, others.toList ++ named) := by
  induction named generalizing others with
  | nil =>
    rw [List.append_nil]
    rfl
  | cons field named ih =>
    obtain ⟨name, value⟩ := field
    have hname : name ≠ key := hne (name, value) List.mem_cons_self
    rw [Content.takeTagFrom, if_neg hname, List.append_cons, ← Array.toList_push]
    exact ih (fun other hmem => hne other (List.mem_cons_of_mem _ hmem)) _

/-- A tag that comes first is taken. -/
theorem takeTag_cons {view : β → Value} {key name : String} {variants : List (String × τ)}
    {tag : τ} {first : β} {named : List (String × β)} (hview : view first = .string name)
    (hvariant : variantOf variants name = .ok tag) (hne : ∀ field ∈ named, field.1 ≠ key) :
    Content.takeTag view key variants (.fields ((key, first) :: named))
      = .ok (tag, .fields named) := by
  rw [Content.takeTag, Content.takeTagFrom.eq_def]
  simp only [if_pos, hview, Value.toTag, hvariant, bind, Except.bind, takeTagFrom_of_ne tag hne]
  rfl

/-- A part with a place of its own is read into that place. -/
theorem read_kept {δ α β : Type} {key : String} {get : δ → Option α} {set : δ → α → δ}
    {pick : β → Except Cause α} {value : β} {picked : α} (hpick : pick value = .ok picked)
    (draft : δ) : (Part.kept key get set pick).read draft value = .ok (set draft picked) := by
  have hkept : (Part.kept key get set pick).read draft value = (pick value).map (set draft) := rfl
  rw [hkept, hpick]
  rfl

/-- A part that the draft lacks is read into it, and then the others. -/
theorem readFields_cons {parts : List (Part δ β)} {draft next : δ} {key : String} {value : β}
    {part : Part δ β} (hfind : parts.find? (·.key == key) = some part)
    (hlacks : part.given draft = false) (hread : part.read draft value = .ok next)
    (named : List (String × β)) :
    Parts.readFields parts draft ((key, value) :: named) = Parts.readFields parts next named := by
  rw [Parts.readFields, hfind]
  simp only [hlacks, hread, Bool.false_eq_true, if_false, bind, Except.bind]

theorem parts_read_fields {variant : Parts δ β α} {named : List (String × β)} {draft : δ}
    {value : α} (hread : Parts.readFields variant.parts variant.blank named = .ok draft)
    (hbuild : variant.build draft = .ok value) : variant.read (.fields named) = .ok value := by
  rw [Parts.read, hread]
  simp only [bind, Except.bind, hbuild]

end Aside

/-! ## Documents -/

/-- **A whole document that was written is decoded if its lists and objects are not nested too
deeply**, and is refused for that reason otherwise. -/
theorem decode_pretty {α : Type} {decoder : Decoder α} {value : Value} {decoded : α}
    (h : Decodes decoder value decoded) :
    if value.depth ≤ maxDepth then decode decoder value.pretty.toUTF8.toList = .ok decoded
    else ∃ error, decode decoder value.pretty.toUTF8.toList = .error error ∧
      error.cause = .tooDeep := by
  have htext : value.pretty.toUTF8.toList = bytes (value.prettyThen 0 []) :=
    toList_toUTF8_ofList _
  have hends : Ends (bytes []) := ⟨rfl, rfl⟩
  have hstart := skipBlanks_prettyThen value 0 hends
  rw [htext]
  split
  case isTrue hfits =>
    obtain ⟨shorter, hread⟩ := (h.yields hstart hends).reads hfits
    rw [decode, hread]
    rfl
  case isFalse hnot =>
    obtain ⟨unread, herror⟩ := (h.yields hstart hends).tooDeep hnot
    rw [decode, herror]
    exact ⟨_, rfl, rfl⟩

end BlockScript.Json
