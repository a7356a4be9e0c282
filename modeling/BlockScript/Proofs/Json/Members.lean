import BlockScript.Proofs.Json.Followed
import BlockScript.Proofs.Json.Spelling
import Mathlib.Data.List.Nodup

/-!
# Records in any layout

A record is read from an object whose members stand in any order, with any white space between
them, and with members that the record knows nothing of.  If every field is given at most once, what
is read does not depend on any of this: each field has what the text of its member means, and the
fields that are not given are as they were.

## What is here

* `Json.Denotes` — a text is read as a value wherever it stands in a document.
* `Json.Given` — at most one of some members has a key, and what its text means.
* `Json.Place` and `Json.Places` — the places of a draft, which have nothing to do with each other.
* `Json.denotes_object` — **a record is read from the text of an object**, and
  `Json.denotes_list` reads it from the text of a list.
* `Json.decode_of_denotes` — a whole document.
-/

set_option autoImplicit false
namespace BlockScript.Json

/-! ## What texts mean -/

/-- A text is read as a value wherever it stands, up to what follows it, if so many lists and
objects may be opened. -/
def Denotes {α : Type} (decoder : Decoder α) (levels : Nat) (text : List Char) (value : α) : Prop :=
  ∀ (limit : Nat) (start : List UInt8) (back : List Char), levels ≤ limit → Closes back →
    skipBlanks start = skipBlanks (bytes (text ++ back)) →
    ∃ after, skipBlanks after = skipBlanks (bytes back) ∧ Reads (decoder limit start) value after

section Denotes

variable {α : Type} {decoder : Decoder α} {levels : Nat} {text : List Char} {value : α}

theorem Denotes.mono (h : Denotes decoder levels text value) {more : Nat} (hle : levels ≤ more) :
    Denotes decoder more text value :=
  fun limit start back hlimit => h limit start back (Nat.le_trans hle hlimit)

theorem isNumeric_of_toFloat {value : Value} {x : Float} (h : value.toFloat = .ok x) :
    value.IsNumeric := by
  cases value with
  | integer n => trivial
  | float x => trivial
  | _ => cases h

theorem isNumeric_of_toNat {value : Value} {type : String} {bound n : Nat}
    (h : value.toNat type bound = .ok n) : value.IsNumeric := by
  cases value with
  | integer n => trivial
  | _ => cases h

/-- The text of a double means the double that it is read as on its own. -/
theorem denotes_float {x : Float} (h : decode Decoder.float (bytes text) = .ok x) :
    Denotes Decoder.float 0 text x := by
  intro limit start back _ hback hstart
  rw [bytes_append] at hstart
  exact reads_scalar_append (fun _ _ => isNumeric_of_toFloat) h hback.ends limit hstart

/-- The text of a whole number means the number that it is read as on its own. -/
theorem denotes_nat64 {n : Nat} (h : decode Decoder.nat64 (bytes text) = .ok n) :
    Denotes Decoder.nat64 0 text n := by
  intro limit start back _ hback hstart
  rw [bytes_append] at hstart
  exact reads_scalar_append (fun _ _ => isNumeric_of_toNat) h hback.ends limit hstart

/-- A document with white space around a value is decoded as what the text of the value means. -/
theorem decode_of_denotes (h : Denotes decoder levels text value) (hlevels : levels ≤ maxDepth)
    {ahead behind : List Char} (hahead : IsBlanks ahead) (hbehind : IsBlanks behind) :
    decode decoder (bytes (ahead ++ (text ++ behind))) = .ok value := by
  have hback : Closes behind := ⟨behind, [], hbehind, (List.append_nil _).symm, nofun⟩
  obtain ⟨after, hafter, shorter, hread⟩ :=
    h maxDepth _ behind hlevels hback (hahead.skipBlanks_append (text ++ behind))
  have hend : skipBlanks after = [] := by
    have hblanks := hbehind.skipBlanks_append []
    rw [List.append_nil] at hblanks
    rw [hafter, hblanks]
    rfl
  rw [decode, hread]
  simp only [hend]

end Denotes

/-! ## Members -/

/-- The texts of the members with a key. -/
def textsOf (key : String) (members : List (String × List Char)) : List (List Char) :=
  (members.filter (·.1 = key)).map Prod.snd

/-- If one of some members has a key, its text means a value, and none of the others has that key.
Without a value, none has. -/
def Given {α : Type} (means : List Char → α → Prop) (key : String)
    (members : List (String × List Char)) (value : Option α) : Prop :=
  List.Forall₂ means (textsOf key members) value.toList

/-- Members of any other keys than those that are known have values of any form. -/
def Others (keys : List String) (members : List (String × List Char)) : Prop :=
  ∀ member ∈ members, member.1 ∉ keys → WellFormed .value member.2

section Given

variable {α : Type} {means : List Char → α → Prop} {key : String} {text : List Char}
  {members : List (String × List Char)} {value : Option α}

theorem textsOf_cons_self : textsOf key ((key, text) :: members) = text :: textsOf key members := by
  rw [textsOf, List.filter_cons_of_pos (by simp)]
  rfl

theorem textsOf_cons_of_ne {other : String} (h : other ≠ key) :
    textsOf key ((other, text) :: members) = textsOf key members := by
  rw [textsOf, List.filter_cons_of_neg (by simpa using h)]
  rfl

theorem Given.imp {other : List Char → α → Prop} (h : Given means key members value)
    (himp : ∀ text value, means text value → other text value) : Given other key members value :=
  List.Forall₂.imp himp h

theorem Given.map {β : Type} {other : List Char → β → Prop} (f : α → β)
    (h : Given means key members value)
    (himp : ∀ text value, means text value → other text (f value)) :
    Given other key members (value.map f) := by
  rw [Given, Option.toList_map, List.forall₂_map_right_iff]
  exact h.imp himp

/-- What the first member with a key means is what is given. -/
theorem Given.head (h : Given means key ((key, text) :: members) value) :
    ∃ given, value = some given ∧ means text given ∧ textsOf key members = [] := by
  rw [Given, textsOf_cons_self] at h
  cases value with
  | none => cases h
  | some given =>
    cases h with
    | cons hfirst hothers => exact ⟨given, rfl, hfirst, List.forall₂_nil_right_iff.1 hothers⟩

theorem Given.tail {other : String} (h : Given means key ((other, text) :: members) value)
    (hne : other ≠ key) : Given means key members value := by
  rwa [Given, textsOf_cons_of_ne hne] at h

theorem Given.eq_none (h : Given means key [] value) : value = none := by
  cases value with
  | none => rfl
  | some given => cases h

end Given

/-! ## Places -/

/-- A place of a draft with the field that is kept there. -/
structure Place (δ : Type) where
  {α : Type}
  key : String
  get : δ → Option α
  set : δ → α → δ
  decoder : Decoder α

/-- The field that is kept at a place. -/
def Place.field {δ : Type} (place : Place δ) : Field δ :=
  .kept place.key place.get place.set place.decoder

/-- Places with keys of their own that have nothing to do with each other and make up a draft. -/
structure Places (δ : Type) where
  list : List (Place δ)
  nodup : (list.map Place.key).Nodup
  get_set : ∀ p ∈ list, ∀ draft x, p.get (p.set draft x) = some x
  separate : list.Pairwise fun p q =>
    (∀ draft x, q.get (p.set draft x) = q.get draft) ∧
      ∀ draft x, p.get (q.set draft x) = p.get draft
  ext : ∀ draft other, (∀ p ∈ list, p.get draft = p.get other) → draft = other

/-- The keys of some places. -/
def Places.keys {δ : Type} (places : Places δ) : List String := places.list.map Place.key

/-- The fields that are kept at some places. -/
def Places.fields {δ : Type} (places : Places δ) : List (Field δ) := places.list.map Place.field

section Places

variable {δ : Type} {places : Places δ} {levels : Nat} {key : String} {text : List Char}
  {members : List (String × List Char)} {draft final : δ}

theorem Places.key_inj {p q : Place δ} (hp : p ∈ places.list) (hq : q ∈ places.list)
    (h : p.key = q.key) : p = q := List.inj_on_of_nodup_map places.nodup hp hq h

theorem Places.get_set_of_ne {p q : Place δ} (hp : p ∈ places.list) (hq : q ∈ places.list)
    (h : p.key ≠ q.key) (draft : δ) (x : p.α) : q.get (p.set draft x) = q.get draft := by
  have hsymm : Std.Symm fun p q : Place δ =>
      (∀ draft x, q.get (p.set draft x) = q.get draft) ∧
        ∀ draft x, p.get (q.set draft x) = p.get draft := ⟨fun _ _ hboth => hboth.symm⟩
  exact (places.separate.forall hp hq fun hsame => h (congrArg Place.key hsame)).1 draft x

/-- What is left to be read of a draft: some members give what it lacks, and nothing that it has. -/
def Standing (places : Places δ) (levels : Nat) (members : List (String × List Char))
    (draft final : δ) : Prop :=
  ∀ p ∈ places.list,
    (p.get draft = none ∧ Given (Denotes p.decoder levels) p.key members (p.get final)) ∨
      (p.get draft = p.get final ∧ textsOf p.key members = [])

/-- Where no members are left, the draft is complete. -/
theorem Standing.eq (h : Standing places levels [] draft final) : draft = final := by
  refine places.ext draft final fun p hp => ?_
  rcases h p hp with ⟨hnone, hgiven⟩ | ⟨hsame, -⟩
  · rw [hnone, hgiven.eq_none]
  · exact hsame

/-- A member of an unknown key changes nothing. -/
theorem Standing.unknown (h : Standing places levels ((key, text) :: members) draft final)
    (hunknown : key ∉ places.keys) : Standing places levels members draft final := by
  intro p hp
  have hne : key ≠ p.key := fun hsame => hunknown (hsame ▸ List.mem_map_of_mem hp)
  rcases h p hp with ⟨hnone, hgiven⟩ | ⟨hsame, htexts⟩
  · exact .inl ⟨hnone, hgiven.tail hne⟩
  · rw [textsOf_cons_of_ne hne] at htexts
    exact .inr ⟨hsame, htexts⟩

/-- A member of a known key gives what is lacking at its place. -/
theorem Standing.known {p : Place δ} (hp : p ∈ places.list)
    (h : Standing places levels ((p.key, text) :: members) draft final) :
    ∃ x, p.get draft = none ∧ Denotes p.decoder levels text x ∧
      Standing places levels members (p.set draft x) final := by
  rcases h p hp with ⟨hnone, hgiven⟩ | ⟨-, htexts⟩
  case inr =>
    rw [textsOf_cons_self] at htexts
    cases htexts
  obtain ⟨x, hfinal, hmeans, htexts⟩ := hgiven.head
  refine ⟨x, hnone, hmeans, fun q hq => ?_⟩
  by_cases hkey : p.key = q.key
  · obtain rfl := places.key_inj hp hq hkey
    exact .inr ⟨(places.get_set p hp draft x).trans hfinal.symm, htexts⟩
  · rw [places.get_set_of_ne hp hq hkey]
    rcases h q hq with ⟨hlacks, hgiven⟩ | ⟨hsame, htexts⟩
    · exact .inl ⟨hlacks, hgiven.tail hkey⟩
    · rw [textsOf_cons_of_ne hkey] at htexts
      exact .inr ⟨hsame, htexts⟩

end Places

/-! ## Objects -/

/-- Where the next member of an object stands: at the beginning, or after a comma. -/
def Follows : Bool → List UInt8 → List Char → Prop
  | true, start, text => skipBlanks start = skipBlanks (bytes text)
  | false, start, text => skipBlanks start = ascii ',' :: bytes text

section Objects

variable {δ : Type} {fields : List (Field δ)} {places : Places δ} {levels limit : Nat}
  {first : Bool} {whole start next after : List UInt8} {key : String} {text rest : List Char}
  {value : List Char} {members : List (String × List Char)} {draft given final : δ}

/-- The key of a member is read, and the colon after it. -/
theorem exists_fieldAt (h : MemberText key value text) (hstart : Follows first start (text ++ rest))
    (hrest : Closes rest) :
    ∃ next back, FieldAt first start key next ∧ skipBlanks next = skipBlanks (bytes (value ++ back))
      ∧ skipBlanks (bytes back) = skipBlanks (bytes rest) ∧ Closes back := by
  cases h with
  | @parts ahead body behind before after hahead hbody hbehind hbefore hafter =>
    have hquote : skipBlanks (bytes (ahead ++ '\x22' :: (body ++ '\x22'
          :: (behind ++ ':' :: (before ++ (value ++ after)))) ++ rest))
        = ascii '\x22' :: (bytes body
          ++ ascii '\x22' :: bytes (behind ++ ':' :: (before ++ (value ++ (after ++ rest))))) := by
      simp only [List.append_assoc, List.cons_append]
      rw [hahead.skipBlanks_append, skipBlanks_bytes_cons (by decide) (by decide), bytes_append,
        bytes_cons_of_lt (by decide)]
    have hkey : KeyAt first start (bytes body
        ++ ascii '\x22' :: bytes (behind ++ ':' :: (before ++ (value ++ (after ++ rest))))) := by
      cases first with
      | true => exact keyAt_first (hstart.trans hquote)
      | false => exact keyAt_comma hstart hquote
    have hcolon : skipBlanks (bytes (behind ++ ':' :: (before ++ (value ++ (after ++ rest)))))
        = ascii ':' :: bytes (before ++ (value ++ (after ++ rest))) := by
      rw [hbehind.skipBlanks_append, skipBlanks_bytes_cons (by decide) (by decide)]
    exact ⟨_, after ++ rest, ⟨_, _, hkey, reads_readString_spells hbody, reads_colon hcolon⟩,
      hbefore.skipBlanks_append _, hafter.skipBlanks_append rest, hrest.append hafter⟩

/-- A member that the record has a field for is read into the draft. -/
theorem readFields_known {field : Field δ} (hkey : FieldAt first start key next)
    (hfind : fields.find? (·.key == key) = some field) (hlacks : field.given draft = false)
    (hvalue : Reads (field.read draft limit next) given after) (h : start.length < whole.length) :
    ∃ hafter, Record.readFields fields limit first draft start h
      = Record.readFields fields limit false given after hafter := by
  obtain ⟨_, _, ⟨_, hnext⟩, ⟨_, hkey⟩, ⟨_, hcolon⟩⟩ := hkey
  obtain ⟨_, hvalue⟩ := hvalue
  refine ⟨by omega, ?_⟩
  rw [Record.readFields]
  simp only [hnext, hkey, hfind, hlacks, hcolon, hvalue, Bool.false_eq_true, if_false]

/-- Any other member is passed over. -/
theorem readFields_unknown (hkey : FieldAt first start key next)
    (hfind : fields.find? (·.key == key) = none) (hvalue : Reads (skipValue next) () after)
    (h : start.length < whole.length) :
    ∃ hafter, Record.readFields fields limit first draft start h
      = Record.readFields fields limit false draft after hafter := by
  obtain ⟨_, _, ⟨_, hnext⟩, ⟨_, hkey⟩, ⟨_, hcolon⟩⟩ := hkey
  obtain ⟨_, hvalue⟩ := hvalue
  refine ⟨by omega, ?_⟩
  rw [Record.readFields]
  simp only [hnext, hkey, hfind, hcolon, hvalue]

/-- **One member of an object is read or passed over**, and the others give what is then lacking. -/
theorem exists_step (h : MemberText key value text) (hstart : Follows first start (text ++ rest))
    (hrest : Closes rest) (hlimit : levels ≤ limit)
    (hstanding : Standing places levels ((key, value) :: members) draft final)
    (hunknown : key ∉ places.keys → WellFormed .value value) :
    ∃ given after, Standing places levels members given final
      ∧ skipBlanks after = skipBlanks (bytes rest)
      ∧ ∀ {whole : List UInt8} (h : start.length < whole.length), ∃ hafter,
        Record.readFields places.fields limit first draft start h
          = Record.readFields places.fields limit false given after hafter := by
  obtain ⟨next, back, hkey, hnext, hback, hcloses⟩ := exists_fieldAt h hstart hrest
  cases hfind : places.fields.find? (·.key == key) with
  | none =>
    have hnone : key ∉ places.keys := by
      intro hmem
      obtain ⟨p, hp, hsame⟩ := List.mem_map.1 hmem
      have hfield : p.field ∈ places.fields := List.mem_map_of_mem hp
      exact List.find?_eq_none.1 hfind p.field hfield (beq_iff_eq.2 hsame)
    have hskip := reads_skipValue (hunknown hnone) hcloses hnext
    exact ⟨draft, _, hstanding.unknown hnone, hback, readFields_unknown hkey hfind hskip⟩
  | some field =>
    have hfound := List.find?_some hfind
    have hsame : field.key = key := beq_iff_eq.1 hfound
    obtain ⟨p, hp, rfl⟩ := List.mem_map.1 (List.mem_of_find?_eq_some hfind)
    obtain rfl : p.key = key := hsame
    obtain ⟨x, hlacks, hmeans, hothers⟩ := hstanding.known hp
    obtain ⟨after, hafter, hread⟩ := hmeans limit next back hlimit hcloses hnext
    have hgiven : p.field.given draft = false := by
      simp only [Place.field, Field.kept, hlacks, Option.isSome_none]
    exact ⟨p.set draft x, after, hothers, hafter.trans hback,
      readFields_known hkey hfind hgiven (hread.map (p.set draft))⟩

/-- **All members of an object are read**, up to its closing brace. -/
theorem exists_reads_members (h : MembersText members text) (rest : List Char)
    (hstart : Follows first start (text ++ '\x7d' :: rest)) (hlimit : levels ≤ limit)
    (hstanding : Standing places levels members draft final)
    (hunknown : Others places.keys members) :
    ∃ after, skipBlanks after = ascii '\x7d' :: bytes rest
      ∧ ∀ {whole : List UInt8} (h : start.length < whole.length),
        Reads (Record.readFields places.fields limit first draft start h) final after := by
  induction h generalizing first start draft with
  | last h =>
    have hcloses : Closes ('\x7d' :: rest) := closes_cons (by decide) rest
    obtain ⟨given, after, hgiven, hafter, hstep⟩ :=
      exists_step h hstart hcloses hlimit hstanding (hunknown _ List.mem_cons_self)
    obtain rfl := hgiven.eq
    rw [skipBlanks_bytes_cons (by decide) (by decide)] at hafter
    refine ⟨after, hafter, fun {whole} h => ?_⟩
    obtain ⟨hshort, hread⟩ := hstep h
    rw [hread]
    exact recordFields_of_close hafter hshort
  | @cons key value text more members h hmore ih =>
    rw [List.append_assoc, List.cons_append] at hstart
    obtain ⟨given, after, hgiven, hafter, hstep⟩ :=
      exists_step h hstart (closes_cons (by decide) _) hlimit hstanding
        (hunknown _ List.mem_cons_self)
    rw [skipBlanks_bytes_cons (by decide) (by decide)] at hafter
    have hnext : Follows false after (more ++ '\x7d' :: rest) := hafter
    obtain ⟨last, hlast, hothers⟩ :=
      ih hnext hgiven fun member hmem => hunknown member (List.mem_cons_of_mem _ hmem)
    refine ⟨last, hlast, fun {whole} h => ?_⟩
    obtain ⟨hshort, hread⟩ := hstep h
    rw [hread]
    exact hothers hshort

end Objects

/-! ## Records -/

/-- A record that is read into some places of a draft. -/
structure Record.Kept {δ α : Type} (record : Record δ α) (places : Places δ) : Prop where
  fields : record.fields = places.fields
  blank : ∀ p ∈ places.list, p.get record.blank = none

section Records

variable {δ α : Type} {record : Record δ α} {places : Places δ} {levels inner : Nat}
  {text rest : List UInt8} {draft final : δ} {value : α} {limit : Nat}

theorem reads_recordObject {after left : List UInt8} (h : skipBlanks text = ascii '\x7b' :: rest)
    (hfields : ∀ hlt : rest.length < text.length,
      Reads (Record.readFields record.fields inner true record.blank rest hlt) draft left)
    (hbuild : record.build draft = .ok value) (hclose : skipBlanks left = ascii '\x7d' :: after) :
    Reads (record.decoder (inner + 1) text) value after := by
  have hvalue : record.ofFields draft = .ok value := by
    rw [Record.ofFields, hbuild]
  rw [recordDecoder_object h]
  exact reads_within ((hfields _).finish hvalue) (reads_closeObject hclose)

/-- **A record is read from the text of an object**: what its members give is what is read, in
whatever order they stand, and members of unknown keys make no difference. -/
theorem denotes_object (hrecord : record.Kept places) {members : List (String × List Char)}
    {text : List Char} (htext : ObjectText members text)
    (hgiven : ∀ p ∈ places.list, Given (Denotes p.decoder levels) p.key members (p.get draft))
    (hunknown : Others places.keys members)
    (hbuild : record.build draft = .ok value) : Denotes record.decoder (levels + 1) text value := by
  have hstanding : Standing places levels members record.blank draft :=
    fun p hp => .inl ⟨hrecord.blank p hp, hgiven p hp⟩
  intro limit start back hlimit hback hstart
  obtain ⟨inner, rfl⟩ : ∃ inner, limit = inner + 1 := ⟨limit - 1, by omega⟩
  refine ⟨bytes back, rfl, ?_⟩
  cases htext with
  | @empty gap hgap =>
    obtain rfl := hstanding.eq
    rw [bytes_bracketed (by decide), skipBlanks_of_not_isBlank (by decide)] at hstart
    have hclose : skipBlanks (bytes (gap ++ '\x7d' :: back)) = ascii '\x7d' :: bytes back := by
      rw [hgap.skipBlanks_append, skipBlanks_bytes_cons (by decide) (by decide)]
    exact reads_recordObject hstart (fun hlt => recordFields_of_close hclose hlt) hbuild hclose
  | @members members text htext =>
    rw [bytes_bracketed (by decide), skipBlanks_of_not_isBlank (by decide)] at hstart
    have hfollows : Follows true (bytes (text ++ '\x7d' :: back)) (text ++ '\x7d' :: back) := rfl
    obtain ⟨left, hclose, hread⟩ :=
      exists_reads_members htext back hfollows (Nat.le_of_succ_le_succ hlimit) hstanding hunknown
    rw [← hrecord.fields] at hread
    exact reads_recordObject hstart (fun hlt => hread hlt) hbuild hclose

/-! ### Lists -/

/-- The first item of a list, or a further one, is where its text begins. -/
theorem itemAt_of_follows {first : Bool} {start : List UInt8} {text : List Char}
    (hstart : Follows first start text) (hopens : OpensAt (skipBlanks (bytes text))) :
    ItemAt first start (skipBlanks (bytes text)) := by
  obtain ⟨b, rest, hblanks, hopens⟩ := hopens
  rw [hblanks]
  cases first with
  | true => exact itemAt_first (hstart.trans hblanks) hopens.ne_close
  | false => exact itemAt_comma hstart hblanks hopens.ne_close

theorem OpensAt.append {start : List UInt8} (h : OpensAt start) (more : List UInt8) :
    OpensAt (start ++ more) := by
  obtain ⟨b, rest, rfl, hopens⟩ := h
  exact ⟨b, rest ++ more, rfl, hopens⟩

/-- One item of a list is read into a place. -/
theorem exists_item_step {p : Place δ} {x : p.α} {value ahead behind back : List Char}
    (hahead : IsBlanks ahead) (hbehind : IsBlanks behind) (hback : Closes back) {first : Bool}
    {start : List UInt8} (hstart : Follows first start (ahead ++ (value ++ (behind ++ back))))
    (hopens : OpensAt (skipBlanks (bytes value))) (hmeans : Denotes p.decoder levels value x)
    (hlimit : levels ≤ limit) (draft : δ) (fields : List (Field δ)) :
    ∃ after, skipBlanks after = skipBlanks (bytes back)
      ∧ ∀ {whole : List UInt8} (h : start.length < whole.length), ∃ hafter,
        Record.readItems limit first draft start h (p.field :: fields)
          = Record.readItems limit false (p.set draft x) after hafter fields := by
  have hblanks := hahead.skipBlanks_append (value ++ (behind ++ back))
  have hsome : skipBlanks (bytes value) ≠ [] := by
    obtain ⟨b, rest, hvalue, -⟩ := hopens
    exact hvalue ▸ List.cons_ne_nil b rest
  have hitem : OpensAt (skipBlanks (bytes (ahead ++ (value ++ (behind ++ back))))) := by
    rw [hblanks, bytes_append, skipBlanks_append_of_ne hsome]
    exact hopens.append _
  obtain ⟨_, hnext⟩ := itemAt_of_follows hstart hitem
  obtain ⟨after, hafter, shorter, hread⟩ := hmeans limit _ (behind ++ back) hlimit
    (hback.append hbehind) ((skipBlanks_skipBlanks _).trans hblanks)
  refine ⟨after, hafter.trans (hbehind.skipBlanks_append back), fun {whole} h => ?_⟩
  refine ⟨by omega, ?_⟩
  rw [Record.readItems]
  simp only [hnext, Place.field, Field.kept, hread]
  rfl

/-- A place is done once its item has been read, and stays so. -/
theorem get_set_or_mem {p : Place δ} {left : List (Place δ)} {x : p.α} (hp : p ∈ places.list)
    (hfinal : p.get final = some x)
    (hdone : ∀ q ∈ places.list, q ∈ p :: left ∨ q.get draft = q.get final) :
    ∀ q ∈ places.list, q ∈ left ∨ q.get (p.set draft x) = q.get final := by
  intro q hq
  by_cases hkey : p.key = q.key
  · obtain rfl := places.key_inj hp hq hkey
    exact .inr ((places.get_set p hp draft x).trans hfinal.symm)
  · rw [places.get_set_of_ne hp hq hkey]
    refine (hdone q hq).imp_left fun hmem => ?_
    exact (List.mem_cons.1 hmem).resolve_left fun hsame => hkey (congrArg Place.key hsame.symm)

/-- Items are read into the places that are left, one by one. -/
theorem exists_reads_items {values : List (List Char)} {text : List Char}
    (h : ItemsText values text) (rest : List Char) {first : Bool} {start : List UInt8}
    (hstart : Follows first start (text ++ ']' :: rest)) (hlimit : levels ≤ limit)
    {left : List (Place δ)} (hleft : left ⊆ places.list)
    (hmeans : List.Forall₂ (fun p text => OpensAt (skipBlanks (bytes text)) ∧
      ∃ x, p.get final = some x ∧ Denotes p.decoder levels text x) left values)
    (hdone : ∀ p ∈ places.list, p ∈ left ∨ p.get draft = p.get final) :
    ∃ after, skipBlanks after = ascii ']' :: bytes rest
      ∧ ∀ {whole : List UInt8} (h : start.length < whole.length),
        Reads (Record.readItems limit first draft start h (left.map Place.field)) final after := by
  induction h generalizing first start left draft with
  | @last value ahead behind hahead hbehind =>
    cases hmeans with
    | @cons p _ left _ hone hnone =>
      obtain rfl := List.forall₂_nil_right_iff.1 hnone
      obtain ⟨hopens, x, hfinal, hmeans⟩ := hone
      simp only [List.append_assoc] at hstart
      obtain ⟨after, hafter, hstep⟩ := exists_item_step hahead hbehind
        (closes_cons (by decide) rest) hstart hopens hmeans hlimit draft []
      have hdone := get_set_or_mem (hleft List.mem_cons_self) hfinal hdone
      obtain rfl := places.ext _ _ fun q hq => (hdone q hq).resolve_left List.not_mem_nil
      rw [skipBlanks_bytes_cons (by decide) (by decide)] at hafter
      refine ⟨after, hafter, fun {whole} h => ?_⟩
      obtain ⟨hshort, hread⟩ := hstep h
      exact ⟨hshort, hread⟩
  | @cons value ahead behind more values hahead hbehind hmore ih =>
    cases hmeans with
    | @cons p _ left _ hone hothers =>
      obtain ⟨hopens, x, hfinal, hmeans⟩ := hone
      simp only [List.append_assoc, List.cons_append] at hstart
      obtain ⟨after, hafter, hstep⟩ := exists_item_step hahead hbehind
        (closes_cons (by decide) _) hstart hopens hmeans hlimit draft
        (left.map Place.field)
      have hdone := get_set_or_mem (hleft List.mem_cons_self) hfinal hdone
      rw [skipBlanks_bytes_cons (by decide) (by decide)] at hafter
      have hnext : Follows false after (more ++ ']' :: rest) := hafter
      obtain ⟨last, hlast, hread⟩ :=
        ih hnext (List.subset_of_cons_subset hleft) hothers hdone
      refine ⟨last, hlast, fun {whole} h => ?_⟩
      obtain ⟨hshort, hfirst⟩ := hstep h
      rw [List.map_cons, hfirst]
      exact hread hshort

theorem reads_recordList {after left : List UInt8} (h : skipBlanks text = ascii '[' :: rest)
    (hitems : ∀ hlt : rest.length < text.length,
      Reads (Record.readItems inner true record.blank rest hlt record.fields) draft left)
    (hbuild : record.build draft = .ok value) (hclose : skipBlanks left = ascii ']' :: after) :
    Reads (record.decoder (inner + 1) text) value after := by
  have hvalue : record.ofItems draft = .ok value := by
    rw [Record.ofItems, hbuild]
  rw [recordDecoder_list h]
  exact reads_within ((hitems _).finish hvalue) (reads_closeList hclose)

/-- **A record is read from the text of a list** with an item for each of its fields in turn. -/
theorem denotes_list (hrecord : record.Kept places) {values : List (List Char)} {text : List Char}
    (htext : ItemsText values text)
    (hmeans : List.Forall₂ (fun p text => OpensAt (skipBlanks (bytes text)) ∧
      ∃ x, p.get draft = some x ∧ Denotes p.decoder levels text x) places.list values)
    (hbuild : record.build draft = .ok value) :
    Denotes record.decoder (levels + 1) ('[' :: (text ++ [']'])) value := by
  intro limit start back hlimit hback hstart
  obtain ⟨inner, rfl⟩ : ∃ inner, limit = inner + 1 := ⟨limit - 1, by omega⟩
  rw [bytes_bracketed (by decide), skipBlanks_of_not_isBlank (by decide)] at hstart
  have hfollows : Follows true (bytes (text ++ ']' :: back)) (text ++ ']' :: back) := rfl
  have hnone : ∀ p ∈ places.list, p ∈ places.list ∨ p.get record.blank = p.get draft :=
    fun p hp => .inl hp
  obtain ⟨left, hclose, hread⟩ := exists_reads_items htext back hfollows
    (Nat.le_of_succ_le_succ hlimit) (List.Subset.refl _) hmeans hnone
  have hfields : record.fields = places.list.map Place.field := hrecord.fields
  rw [← hfields] at hread
  exact ⟨bytes back, rfl, reads_recordList hstart (fun hlt => hread hlt) hbuild hclose⟩

end Records

end BlockScript.Json
