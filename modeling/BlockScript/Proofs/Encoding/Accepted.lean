import BlockScript.Proofs.Encoding.Program
import BlockScript.Proofs.Json.Depth

/-!
# Programs that were accepted

A document may leave out the body of a loop, and the text of the program then has an empty list in
its place, which is a level more.  So the text of a program can be nested more deeply than the
document that it was read from, by one level and no more.

## What is here

* `Block.levels_ofValue` — a block has at most one level more than the value that spells it.
* `Program.levels_ofJson` — a program that was read has at most one level more than the reader
  allows.
* `Program.ofJson_nested` — loops in loops, where the bound is reached.
-/

set_option autoImplicit false
namespace BlockScript

open Json

namespace Block

/-- The bodies that values kept aside spell have at most so many levels. -/
def BodiesWithin (n : Nat) (aside : Aside) : Prop :=
  ∀ body, aside.body = .ok body → levelsAll body ≤ n

/-- What belongs to a loop is its body, if it has one. -/
theorem levels_loopParts {n : Nat} {content : Content Aside}
    (hcontent : content.Forall (BodiesWithin n)) {block : Block}
    (h : loopParts.read content = .ok block) : block.levels ≤ 2 + n := by
  have hparts : ∀ part ∈ loopParts.parts, ∀ draft aside next,
      (∀ body, draft.body = some body → levelsAll body ≤ n) → BodiesWithin n aside →
      part.read draft aside = .ok next →
      ∀ body, next.body = some body → levelsAll body ≤ n := by
    intro part hpart draft aside next hdraft haside hread
    rcases List.mem_cons.1 hpart with rfl | hpart
    · obtain ⟨count, -, rfl⟩ := map_eq_ok hread
      exact hdraft
    · rw [List.mem_singleton.1 hpart] at hread
      obtain ⟨body, hbody, rfl⟩ := map_eq_ok hread
      intro other hother
      obtain rfl := Option.some.inj hother
      exact haside body hbody
  obtain ⟨draft, hdraft, hbuild⟩ := draft_partsRead (by simp [loopParts]) hparts hcontent h
  obtain rfl := Except.ok.inj hbuild
  rw [levels]
  cases hbody : draft.body with
  | none => exact Nat.add_le_add_left (Nat.zero_le n) 2
  | some body => exact Nat.add_le_add_left (hdraft body hbody) 2

theorem eq_of_nothing {content : Content Aside} {block other : Block}
    (h : content.nothing block = .ok other) : other = block := by
  rw [Content.nothing.eq_def] at h
  split at h <;> cases h <;> rfl

theorem levels_ofContent {n : Nat} {kind : Kind} {content : Content Aside}
    (hcontent : content.Forall (BodiesWithin n)) {block : Block}
    (h : ofContent kind content = .ok block) : block.levels ≤ 2 + n := by
  have hflat : 1 ≤ 2 + n := by omega
  cases kind with
  | start =>
    rw [eq_of_nothing h]
    exact hflat
  | eat =>
    rw [eq_of_nothing h]
    exact hflat
  | move =>
    obtain ⟨draft, -, hbuild⟩ := draft_partsRead trivial (fun _ _ _ _ _ _ _ _ => trivial)
      hcontent (h : moveParts.read content = .ok block)
    cases draft with
    | none => cases hbuild
    | some direction =>
      cases hbuild
      exact hflat
  | loop => exact levels_loopParts hcontent h

theorem levels_ofTagged {n : Nat} {content : Content Aside}
    (hcontent : content.Forall (BodiesWithin n)) {block : Block}
    (h : ofTagged content = .ok block) : block.levels ≤ 2 + n := by
  rw [ofTagged] at h
  obtain ⟨taken, htag, h⟩ := bind_eq_ok h
  exact levels_ofContent (forall_takeTag hcontent htag) h

mutual

/-- **A block has at most one level more than the value that spells it.** -/
theorem levels_ofValue : ∀ (value : Value) {block : Block}, ofValue value = .ok block →
    block.levels ≤ value.depth + 1
  | .object fields, block, h => by
    have hlevels := levels_ofTagged (bodiesWithin_asideFields fields) h
    rw [Value.depth]
    omega
  | .list items, block, h => by
    have hlevels := levels_ofTagged (bodiesWithin_asideItems items) h
    rw [Value.depth]
    omega
  | .null, _, h | .bool _, _, h | .integer _, _, h | .float _, _, h | .string _, _, h => by cases h

theorem levelsAll_ofValues : ∀ (values : List Value) {blocks : List Block},
    ofValues values = .ok blocks → levelsAll blocks ≤ Value.depthOfItems values + 1
  | [], _, h => by cases h; exact Nat.zero_le _
  | value :: rest, blocks, h => by
    rw [ofValues] at h
    obtain ⟨block, hvalue, h⟩ := bind_eq_ok h
    obtain ⟨others, hrest, h⟩ := bind_eq_ok h
    cases h
    have hblock := levels_ofValue value hvalue
    have hothers := levelsAll_ofValues rest hrest
    rw [levelsAll, Value.depthOfItems]
    omega

theorem levelsAll_bodyOf : ∀ (value : Value) {body : List Block}, bodyOf value = .ok body →
    levelsAll body ≤ value.depth
  | .list items, body, h => by
    have hlevels := levelsAll_ofValues items h
    rw [Value.depth]
    omega
  | .object _, _, h | .null, _, h | .bool _, _, h | .integer _, _, h | .float _, _, h
  | .string _, _, h => by cases h

theorem bodiesWithin_asideItems : ∀ items : List Value,
    Content.Forall (BodiesWithin (Value.depthOfItems items)) (.items (asideItems items))
  | [] => by simp [asideItems, Content.Forall]
  | value :: rest => by
    have hrest := bodiesWithin_asideItems rest
    rw [asideItems, Value.depthOfItems]
    refine List.forall_mem_cons.2 ⟨fun body hbody => ?_, fun aside haside body hbody => ?_⟩
    · exact Nat.le_trans (levelsAll_bodyOf value hbody) (Nat.le_max_left ..)
    · exact Nat.le_trans (hrest aside haside body hbody) (Nat.le_max_right ..)

theorem bodiesWithin_asideFields : ∀ fields : List (String × Value),
    Content.Forall (BodiesWithin (Value.depthOfFields fields)) (.fields (asideFields fields))
  | [] => by simp [asideFields, Content.Forall]
  | (key, value) :: rest => by
    have hrest := bodiesWithin_asideFields rest
    rw [asideFields, Value.depthOfFields]
    refine List.forall_mem_cons.2 ⟨fun body hbody => ?_, fun field hfield body hbody => ?_⟩
    · exact Nat.le_trans (levelsAll_bodyOf value hbody) (Nat.le_max_left ..)
    · exact Nat.le_trans (hrest field hfield body hbody) (Nat.le_max_right ..)

end

theorem levelsAll_le_of_forall {n : Nat} {blocks : List Block}
    (h : ∀ block ∈ blocks, block.levels ≤ n) : levelsAll blocks ≤ n := by
  induction blocks with
  | nil => exact Nat.zero_le n
  | cons block blocks ih =>
    exact Nat.max_le.2 ⟨h block List.mem_cons_self,
      ih fun other hother => h other (List.mem_cons_of_mem _ hother)⟩

/-- A value kept aside spells at most as many levels of blocks as it is deep. -/
theorem bodiesWithin_aside {n : Nat} {value : Value} (hvalue : value.depth ≤ n) :
    BodiesWithin n ⟨value, bodyOf value⟩ := fun _ hbody =>
  Nat.le_trans (levelsAll_bodyOf value hbody) hvalue

/-- A block that was read has at most one level more than the reader allows. -/
theorem levels_decoder {limit : Nat} {text : List UInt8} {read : Read Block text}
    (h : decoder limit text = .ok read) : read.value.levels ≤ limit + 1 := by
  rw [decoder, Decoder.ofTagged] at h
  split at h
  · cases h
  · next tagged htagged =>
    obtain ⟨inner, rfl, hcontent⟩ := depth_tagged htagged
    split at h
    · next block hblock =>
      cases h
      have hlevels := levels_ofContent (hcontent.map fun _ => bodiesWithin_aside) hblock
      simp only
      omega
    · cases h

end Block

namespace Program

/-- **A program that was read has at most one level more than the reader allows**: its text is as
deep as the document, or has a level more where a body was left out. -/
theorem levels_ofJson {text : String} {program : Program} (h : ofJson text = .ok program) :
    program.levels ≤ 128 := by
  obtain ⟨read, hread, rfl⟩ := exists_read_of_decode h
  have hfields : ∀ inner, maxDepth = inner + 1 → ∀ field ∈ asRecord.fields,
      ∀ (draft : Draft) text (next : Read Draft text),
      (∀ blocks, draft.blocks = some blocks → Block.levelsAll blocks ≤ 126) →
      field.read draft inner text = .ok next →
      ∀ blocks, next.value.blocks = some blocks → Block.levelsAll blocks ≤ 126 := by
    intro inner hinner field hfield draft text next hdraft hnext
    rcases List.mem_cons.1 hfield with rfl | hfield
    · obtain ⟨name, -, rfl⟩ := map_eq_ok hnext
      exact hdraft
    · rw [List.mem_singleton.1 hfield] at hnext
      obtain ⟨blocks, hblocks, rfl⟩ := map_eq_ok hnext
      intro other hother
      obtain rfl := Option.some.inj hother
      have hlimit : inner = 126 := (Nat.succ.inj hinner).symm
      refine Block.levelsAll_le_of_forall (forall_decoderList ?_ hblocks)
      intro innermost text read hinnermost hblock
      have hlevels := Block.levels_decoder hblock
      omega
  obtain ⟨draft, hdraft, hbuild⟩ := draft_recordDecoder (by simp [asRecord]) hfields hread
  simp only [asRecord] at hbuild
  split at hbuild
  · next blocks hblocks =>
    rw [← Except.ok.inj hbuild]
    exact Nat.add_le_add_left (hdraft blocks hblocks) 2
  · cases hbuild

end Program

/-! ## Loops in loops -/

namespace Block

/-- What is said beside its kind about a loop around so many others, of which the innermost has no
body. -/
def nestedBeside : Nat → List (String × Value)
  | 0 => []
  | n + 1 => [("body", .list [.object (("kind", .string "repeat") :: nestedBeside n)])]

/-- A loop around so many others, of which the innermost has no body. -/
def nestedValue (n : Nat) : Value := .object (("kind", .string "repeat") :: nestedBeside n)

/-- What the nested loops are read as: each is run the usual number of times. -/
def nested : Nat → Block
  | 0 => .loop .standard []
  | n + 1 => .loop .standard [nested n]

theorem levels_nested (n : Nat) : (nested n).levels = 2 * n + 2 := by
  induction n with
  | zero => rfl
  | succ n ih =>
    rw [nested, levels, levelsAll, levelsAll, ih]
    omega

theorem depth_nestedValue (n : Nat) : (nestedValue n).depth = 2 * n + 1 := by
  induction n with
  | zero => rfl
  | succ n ih =>
    rw [nestedValue] at ih
    simp only [nestedValue, nestedBeside, Value.depth, Value.depthOfFields, Value.depthOfItems]
      at ih ⊢
    omega

/-- A loop is read from its body alone. -/
theorem ofContent_body {values : List Value} {body : List Block}
    (h : ofValues values = .ok body) :
    ofContent .loop (.fields (asideFields [("body", .list values)]))
      = .ok (.loop .standard body) := by
  have hbody : ∀ named, Parts.readFields loopParts.parts ⟨none, none⟩
      (("body", ⟨.list values, bodyOf (.list values)⟩) :: named)
        = Parts.readFields loopParts.parts ⟨none, some body⟩ named := by
    refine readFields_cons rfl rfl (read_kept ?_ _)
    exact h
  exact parts_read_fields (hbody []) rfl

theorem standsFor_nestedValue (n : Nat) : StandsFor (nestedValue n) (nested n) := by
  induction n with
  | zero => exact ⟨[], [], rfl, .nil, by simp, rfl⟩
  | succ n ih =>
    obtain ⟨reads, hreads, hbody⟩ := StandsFor.exists_reads (.cons ih .nil)
    exact ⟨nestedBeside (n + 1), _, rfl, .cons (.under "body" (decodes_readValue_list hreads)) .nil,
      by simp [nestedBeside], ofContent_body hbody⟩

end Block

namespace Program

/-- A document that has nested loops for its one block, and no name. -/
def nestedDocument (n : Nat) : Value := .object [("blocks", .list [Block.nestedValue n])]

/-- The program of nested loops. -/
def nested (name : String) (n : Nat) : Program := { name, blocks := [Block.nested n] }

theorem levels_nested (name : String) (n : Nat) : (nested name n).levels = 2 * n + 4 := by
  rw [levels, nested, Block.levelsAll, Block.levelsAll, Block.levels_nested]
  omega

/-- **Loops in loops are read where they are nested at most 127 levels deep.**  The program of 62
loops around one more is 128 levels deep. -/
theorem ofJson_nested {n : Nat} (hn : n ≤ 62) :
    ofJson (nestedDocument n).pretty = .ok (nested "" n) := by
  have hblocks := decodes_list (.cons (Block.standsFor_nestedValue n).decodes .nil)
  have hfills : Fills asRecord.fields asRecord.blank
      [("blocks", .list [Block.nestedValue n])] { blocks := some [Block.nested n] } :=
    .cons _ rfl rfl (hblocks.kept _ _ _ _) (.nil _)
  have hdecode := decode_pretty (decodes_record hfills rfl)
  rwa [if_pos] at hdecode
  rw [Value.depth, Value.depthOfFields, Value.depth, Value.depthOfItems, Block.depth_nestedValue,
    Value.depthOfItems, Value.depthOfFields, maxDepth]
  omega

end Program
end BlockScript
