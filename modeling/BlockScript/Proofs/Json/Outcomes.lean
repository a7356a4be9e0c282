import BlockScript.Proofs.Json.Decoding

/-!
# Decoding what may be refused

What a decoder makes of a value that was written may be nothing at all, such as where a double was
written that is no number.  A record with such a field is refused as a whole, so what it is decoded
as is something only if all of its fields are.

## What is here

* `Json.Judges` — a decoder makes something of a value, or it refuses the value.
* `Json.judges_float` — doubles are decoded as what their texts are read as.
* `Json.Judges.andThen`, `Json.judges_record` — records, field by field.
* `Json.decode_judged` — a whole document that was written, decoded or refused.
-/

set_option autoImplicit false
namespace BlockScript.Json

/-- A decoder refuses a value wherever that was written. -/
structure Refuses {α : Type} (decoder : Decoder α) (value : Value) : Prop where
  fails : ∀ {limit d : Nat} {text : List UInt8} {rest : List Char},
    skipBlanks text = bytes (value.prettyThen d rest) → Ends (bytes rest) →
    ∃ fault, decoder limit text = .error fault

/-- A decoder makes something of a value wherever that was written, or it refuses the value. -/
def Judges {α : Type} (decoder : Decoder α) (value : Value) : Option α → Prop
  | some decoded => Decodes decoder value decoded
  | none => Refuses decoder value

/-! ## Doubles -/

/-- **Doubles are decoded as what their texts are read as.** -/
theorem judges_float (x : Float) : Judges Decoder.float (.float x) (reread? x) := by
  cases hreread : reread? x with
  | some y =>
    constructor
    intro limit d text rest htext hends
    obtain ⟨b, after, hcons, hopens, hlist, hobject, hread⟩ := doubleAt_floatText x hends
    rw [hreread] at hread
    exact .of_reads (Nat.zero_le limit)
      (reads_scalar htext ⟨b, after, hcons, hopens, hlist, hobject, hread⟩ rfl)
  | none =>
    constructor
    intro limit d text rest htext hends
    obtain ⟨b, after, hcons, -, hlist, hobject, hread⟩ := doubleAt_floatText x hends
    rw [hreread] at hread
    rw [Decoder.float, Decoder.scalar]
    split
    · exact ⟨_, rfl⟩
    · next c other hother =>
      obtain ⟨rfl, rfl⟩ := List.cons.inj ((htext.trans hcons).symm.trans hother)
      rw [if_neg (not_or.2 ⟨hlist, hobject⟩)]
      split
      · exact ⟨_, rfl⟩
      · next value tail hscalar =>
        obtain rfl := hread _ hscalar
        exact ⟨_, rfl⟩

/-! ## Fields -/

section Fields

variable {δ α : Type} {decoder : Decoder α} {value : Value}

theorem Refuses.kept (h : Refuses decoder value) (key : String) (get : δ → Option α)
    (set : δ → α → δ) (draft : δ) :
    Refuses ((Field.kept key get set decoder).read draft) value := by
  constructor
  intro limit d text rest htext hends
  have hfails : ∃ fault, decoder limit text = .error fault := h.fails htext hends
  obtain ⟨fault, hfault⟩ := hfails
  refine ⟨fault, ?_⟩
  rw [Field.kept]
  simp only [hfault]
  rfl

/-- Of named values some are read into a draft one by one, and then one is refused. -/
inductive Balks (fields : List (Field δ)) : δ → List (String × Value) → Prop where
  | here {draft : δ} {key : String} {value : Value} {named : List (String × Value)}
    (field : Field δ) (hfind : fields.find? (·.key == key) = some field)
    (hlacks : field.given draft = false) (hread : Refuses (field.read draft) value) :
    Balks fields draft ((key, value) :: named)
  | later {draft next : δ} {key : String} {value : Value} {named : List (String × Value)}
    (field : Field δ) (hfind : fields.find? (·.key == key) = some field)
    (hlacks : field.given draft = false) (hread : Decodes (field.read draft) value next)
    (hothers : Balks fields next named) : Balks fields draft ((key, value) :: named)

/-- Named values are read into a draft from which a value is built, or one of them is refused. -/
def FillsOrBalks {β : Type} (record : Record δ β) (draft : δ) (named : List (String × Value)) :
    Option β → Prop
  | some built => ∃ last, Fills record.fields draft named last ∧ record.build last = .ok built
  | none => Balks record.fields draft named

/-- Where no named values are left, the value is built. -/
theorem fillsOrBalks_nil {β : Type} {record : Record δ β} {draft : δ} {built : β}
    (h : record.build draft = .ok built) : FillsOrBalks record draft [] (some built) :=
  ⟨draft, .nil draft, h⟩

/-- A field is read into a place of its own, and then the others. -/
theorem Judges.andThen {outcome : Option α} (h : Judges decoder value outcome) {β : Type}
    {record : Record δ β} {draft : δ} {key : String} {get : δ → Option α} {set : δ → α → δ}
    (hfind : record.fields.find? (·.key == key) = some (.kept key get set decoder))
    (hlacks : get draft = none) {named : List (String × Value)} {others : α → Option β}
    (hothers : ∀ decoded, FillsOrBalks record (set draft decoded) named (others decoded)) :
    FillsOrBalks record draft ((key, value) :: named) (outcome.bind others) := by
  have hgiven : (Field.kept key get set decoder).given draft = false := by
    rw [Field.kept]
    simp only [hlacks, Option.isSome_none]
  cases outcome with
  | none => exact Balks.here _ hfind hgiven (h.kept key get set draft)
  | some decoded =>
    have hread := Decodes.kept h key get set draft
    have hmore := hothers decoded
    rw [Option.bind_some]
    cases hbuilt : others decoded with
    | some built =>
      rw [hbuilt] at hmore
      obtain ⟨last, hfills, hbuild⟩ := hmore
      exact ⟨last, .cons _ hfind hgiven hread hfills, hbuild⟩
    | none =>
      rw [hbuilt] at hmore
      exact Balks.later _ hfind hgiven hread hmore

end Fields

/-! ## Records -/

section Records

variable {δ α : Type} {text start : List UInt8} {limit : Nat}

/-- Reading fields fails if the next one cannot be read, or if those after it cannot. -/
theorem fails_recordFields_step {whole : List UInt8} {fields : List (Field δ)} {first : Bool}
    {draft : δ} {key : String} {field : Field δ} (hkey : FieldAt first text key start)
    (hfind : fields.find? (·.key == key) = some field) (hlacks : field.given draft = false)
    (hvalue : (∃ fault, field.read draft limit start = .error fault) ∨
      ∃ next after, Reads (field.read draft limit start) next after ∧
        ∀ hlt : after.length < whole.length,
          ∃ fault, Record.readFields fields limit false next after hlt = .error fault)
    (hlt : text.length < whole.length) :
    ∃ fault, Record.readFields fields limit first draft text hlt = .error fault := by
  obtain ⟨_, _, ⟨_, hnext⟩, ⟨_, hkey⟩, ⟨_, hcolon⟩⟩ := hkey
  rw [Record.readFields]
  simp only [hnext, hkey, hfind, hlacks, hcolon, Bool.false_eq_true, if_false]
  rcases hvalue with ⟨fault, hfault⟩ | ⟨next, after, ⟨_, hread⟩, hothers⟩
  · exact ⟨fault, by rw [hfault]⟩
  · simp only [hread]
    exact hothers _

/-- A decoder that makes something of a value reads it, or it fails for the depth of the value. -/
theorem Decodes.reads_or_fails {decoder : Decoder α} {value : Value} {decoded : α}
    (h : Decodes decoder value decoded) {d : Nat} {rest : List Char}
    (htext : skipBlanks text = bytes (value.prettyThen d rest)) (hends : Ends (bytes rest)) :
    (∃ fault, decoder limit text = .error fault) ∨
      Reads (decoder limit text) decoded (bytes rest) := by
  have hyields : Yields (value.depth ≤ limit) (decoder limit text) decoded (bytes rest) :=
    h.yields htext hends
  by_cases hfits : value.depth ≤ limit
  · exact .inr (hyields.reads hfits)
  · obtain ⟨unread, hfault⟩ := hyields.tooDeep hfits
    exact .inl ⟨_, hfault⟩

/-- Where a field is refused, reading the fields that were written fails. -/
theorem Balks.fails {fields : List (Field δ)} {draft : δ} {named : List (String × Value)}
    (h : Balks fields draft named) {whole : List UInt8} {d : Nat} {chars : List Char}
    (hlt : (bytes (restOfObject d named chars)).length < whole.length) :
    ∃ fault, Record.readFields fields limit false draft (bytes (restOfObject d named chars)) hlt
      = .error fault := by
  induction h with
  | @here draft key value named field hfind hlacks hread =>
    have hmore := ends_restOfObject d named chars
    have hstart := skipBlanks_blank_prettyThen value (d + 1) hmore
    exact fails_recordFields_step (fieldAt_comma (d + 1) key _) hfind hlacks
      (.inl (hread.fails hstart hmore)) hlt
  | @later draft next key value named field hfind hlacks hread hothers ih =>
    have hmore := ends_restOfObject d named chars
    have hstart := skipBlanks_blank_prettyThen value (d + 1) hmore
    refine fails_recordFields_step (fieldAt_comma (d + 1) key _) hfind hlacks ?_ hlt
    exact (hread.reads_or_fails hstart hmore).imp_right fun hreads => ⟨next, _, hreads, ih⟩

theorem fails_recordDecoder {record : Record δ α} {rest : List UInt8}
    (h : skipBlanks text = ascii '\x7b' :: rest)
    (hfields : ∀ (inner : Nat) (hlt : rest.length < text.length),
      ∃ fault, Record.readFields record.fields inner true record.blank rest hlt = .error fault) :
    ∃ fault, record.decoder limit text = .error fault := by
  rw [recordDecoder_object h]
  cases limit with
  | zero => exact ⟨_, rfl⟩
  | succ inner =>
    obtain ⟨fault, hfault⟩ := hfields inner (length_lt_of_skipBlanks h)
    rw [within, hfault]
    exact ⟨_, rfl⟩

/-- **A record is refused if one of its fields is.** -/
theorem refuses_record {record : Record δ α} {named : List (String × Value)}
    (h : Balks record.fields record.blank named) : Refuses record.decoder (.object named) := by
  constructor
  intro limit d text rest htext hends
  cases h with
  | @here _ key value named field hfind hlacks hread =>
    rw [Value.prettyThen, bytes_cons_of_lt (by decide)] at htext
    have hmore := ends_restOfObject d named rest
    have hstart := skipBlanks_blank_prettyThen value (d + 1) hmore
    exact fails_recordDecoder htext fun inner hlt =>
      fails_recordFields_step (fieldAt_first (d + 1) key _) hfind hlacks
        (.inl (hread.fails hstart hmore)) hlt
  | @later _ next key value named field hfind hlacks hread hothers =>
    rw [Value.prettyThen, bytes_cons_of_lt (by decide)] at htext
    have hmore := ends_restOfObject d named rest
    have hstart := skipBlanks_blank_prettyThen value (d + 1) hmore
    refine fails_recordDecoder htext fun inner hlt =>
      fails_recordFields_step (fieldAt_first (d + 1) key _) hfind hlacks ?_ hlt
    exact (hread.reads_or_fails hstart hmore).imp_right fun hreads =>
      ⟨next, _, hreads, fun hlt => hothers.fails hlt⟩

/-- **Records are decoded if all their fields are.** -/
theorem judges_record {record : Record δ α} {named : List (String × Value)} {outcome : Option α}
    (h : FillsOrBalks record record.blank named outcome) :
    Judges record.decoder (.object named) outcome := by
  cases outcome with
  | some value =>
    obtain ⟨draft, hfills, hbuild⟩ := h
    exact decodes_record hfills hbuild
  | none => exact refuses_record h

end Records

/-! ## Documents -/

/-- A result is what was to come of it, or a failure if nothing was. -/
def Settles {ε α : Type} (result : Except ε α) : Option α → Prop
  | some value => result = .ok value
  | none => ∃ error, result = .error error

/-- **A whole document that was written is decoded or refused**, if it is not nested too deeply. -/
theorem decode_judged {α : Type} {decoder : Decoder α} {value : Value} {outcome : Option α}
    (h : Judges decoder value outcome) (hdepth : value.depth ≤ maxDepth) :
    Settles (decode decoder value.pretty.toUTF8.toList) outcome := by
  cases outcome with
  | some decoded =>
    have hdecode := decode_pretty h
    rwa [if_pos hdepth] at hdecode
  | none =>
    have htext : value.pretty.toUTF8.toList = bytes (value.prettyThen 0 []) :=
      toList_toUTF8_ofList _
    have hends : Ends (bytes []) := ⟨rfl, rfl⟩
    have hfails : ∃ fault, decoder maxDepth (bytes (value.prettyThen 0 [])) = .error fault :=
      h.fails (skipBlanks_prettyThen value 0 hends) hends
    obtain ⟨fault, hfault⟩ := hfails
    rw [htext, decode, hfault]
    exact ⟨_, rfl⟩

end BlockScript.Json
