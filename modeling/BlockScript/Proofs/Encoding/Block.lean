import BlockScript.Encoding.Block
import BlockScript.Proofs.Json.Decoding

/-!
# Blocks that were written

What a document says about a block are its kind and the parts that belong to this kind.  A loop is
two levels deep, an object around a list, even if its body is empty; the bodies inside lie two
levels deeper each.

## What is here

* `Block.levels` — how deep the levels of a block are nested in a document.
* `Block.ofValue_toValue` — a block is what its value spells.
* `Block.decodes_toValue` — a block is what the decoder makes of its text, unless it is nested too
  deeply.
-/

set_option autoImplicit false
namespace BlockScript

open Json

/-! ## Names and counts -/

theorem Direction.variantOf_name (direction : Direction) :
    variantOf variants direction.name = .ok direction := by
  cases direction <;> rfl

theorem RepeatCount.exact_toValue (count : RepeatCount) : count.toValue.Exact := by
  have hmaximum := count.le_maximum
  rw [toValue, Value.Exact, maxSignificand]
  omega

theorem RepeatCount.ofValue_toValue (count : RepeatCount) : ofValue count.toValue = .ok count := by
  rw [toValue, ofValue, ofInt_val]

namespace Block

/-! ## Levels -/

mutual

/-- The number of lists and objects around the innermost one in the text of a block: a block is an
object, and the body of a loop is a list. -/
def levels : Block → Nat
  | .start => 1
  | .move _ => 1
  | .eat => 1
  | .loop _ body => 2 + levelsAll body

/-- The largest number of levels of a block in a list. -/
def levelsAll : List Block → Nat
  | [] => 0
  | b :: bs => max b.levels (levelsAll bs)

end

mutual

theorem depth_toValue : ∀ b : Block, b.toValue.depth = b.levels
  | .start => rfl
  | .move _ => rfl
  | .eat => rfl
  | .loop count body => by
    have hbody := depthOfItems_toValues body
    simp only [toValue, RepeatCount.toValue, Value.depth, Value.depthOfFields, levels, hbody]
    omega

theorem depthOfItems_toValues : ∀ bs : List Block, Value.depthOfItems (toValues bs) = levelsAll bs
  | [] => rfl
  | b :: bs => by
    rw [toValues, Value.depthOfItems, levelsAll, depth_toValue b, depthOfItems_toValues bs]

end

/-! ## Kinds and parts -/

/-- The kind of a block. -/
def kind : Block → Kind
  | .start => .start
  | .move _ => .move
  | .eat => .eat
  | .loop _ _ => .loop

/-- What a document says about a block beside its kind. -/
def parts : Block → List (String × Value)
  | .start => []
  | .move direction => [("direction", .string direction.name)]
  | .eat => []
  | .loop count body => [("count", count.toValue), ("body", .list (toValues body))]

theorem toValue_eq (b : Block) : b.toValue = .object (("kind", .string b.label) :: b.parts) := by
  cases b <;> rfl

theorem variantOf_label (b : Block) : variantOf Kind.variants b.label = .ok b.kind := by
  cases b <;> rfl

theorem ne_kind_of_mem_parts (b : Block) : ∀ field ∈ b.parts, field.1 ≠ "kind" := by
  cases b <;> simp [parts]

mutual

theorem exact_toValue : ∀ b : Block, b.toValue.Exact
  | .start => ⟨trivial, trivial⟩
  | .move _ => ⟨trivial, trivial, trivial⟩
  | .eat => ⟨trivial, trivial⟩
  | .loop count body => ⟨trivial, count.exact_toValue, exactItems_toValues body, trivial⟩

theorem exactItems_toValues : ∀ bs : List Block, Value.ExactItems (toValues bs)
  | [] => trivial
  | b :: bs => ⟨exact_toValue b, exactItems_toValues bs⟩

end

/-! ## Values as blocks -/

theorem asideFields_eq_map (fields : List (String × Value)) :
    asideFields fields = fields.map fun (key, value) => (key, ⟨value, bodyOf value⟩) := by
  induction fields with
  | nil => rfl
  | cons field fields ih =>
    obtain ⟨key, value⟩ := field
    rw [asideFields, ih]
    rfl

theorem fst_asideFields_ne {fields : List (String × Value)} {key : String}
    (h : ∀ field ∈ fields, field.1 ≠ key) : ∀ field ∈ asideFields fields, field.1 ≠ key := by
  rw [asideFields_eq_map]
  intro field hmem
  obtain ⟨other, hother, rfl⟩ := List.mem_map.1 hmem
  exact h other hother

/-- A loop is given by its count and its body, in whatever way these are written. -/
theorem ofContent_loop {value : Value} {items : List Value} {count : RepeatCount}
    {body : List Block} (hcount : RepeatCount.ofValue value = .ok count)
    (hbody : ofValues items = .ok body) :
    ofContent .loop (.fields (asideFields [("count", value), ("body", .list items)]))
      = .ok (.loop count body) := by
  have hfirst : ∀ named, Parts.readFields loopParts.parts ⟨none, none⟩
      (("count", ⟨value, bodyOf value⟩) :: named)
        = Parts.readFields loopParts.parts ⟨some count, none⟩ named := by
    refine readFields_cons rfl rfl (read_kept ?_ _)
    exact hcount
  have hlist : ∀ named, Parts.readFields loopParts.parts ⟨some count, none⟩
      (("body", ⟨.list items, bodyOf (.list items)⟩) :: named)
        = Parts.readFields loopParts.parts ⟨some count, some body⟩ named := by
    refine readFields_cons rfl rfl (read_kept ?_ _)
    exact hbody
  exact parts_read_fields ((hfirst _).trans (hlist [])) rfl

/-- The parts of a block say which one of its kind it is, if its body reads as it should. -/
theorem ofContent_parts (b : Block) (hbody : ofValues (toValues b.children) = .ok b.children) :
    ofContent b.kind (.fields (asideFields b.parts)) = .ok b := by
  cases b with
  | start => rfl
  | eat => rfl
  | move direction =>
    have hdirection : ∀ named, Parts.readFields moveParts.parts none
        (("direction", ⟨.string direction.name, bodyOf (.string direction.name)⟩) :: named)
          = Parts.readFields moveParts.parts (some direction) named := by
      refine readFields_cons rfl rfl (read_kept ?_ _)
      exact direction.variantOf_name
    exact parts_read_fields (hdirection []) rfl
  | loop count body => exact ofContent_loop count.ofValue_toValue hbody

/-- A block is what an object spells that names its kind, if the other fields give the block. -/
theorem ofValue_kind {b : Block} {named : List (String × Value)}
    (hne : ∀ field ∈ named, field.1 ≠ "kind")
    (hcontent : ofContent b.kind (.fields (asideFields named)) = .ok b) :
    ofValue (.object (("kind", .string b.label) :: named)) = .ok b := by
  have htag : Content.takeTag Aside.value "kind" Kind.variants
      (.fields (("kind", ⟨.string b.label, bodyOf (.string b.label)⟩) :: asideFields named))
        = .ok (b.kind, .fields (asideFields named)) :=
    takeTag_cons rfl b.variantOf_label (fst_asideFields_ne hne)
  rw [ofValue, asideFields, ofTagged, htag]
  exact hcontent

/-- A block is what its value spells, if the blocks inside it are what theirs spell. -/
theorem ofValue_of_children (b : Block)
    (hbody : ofValues (toValues b.children) = .ok b.children) : ofValue b.toValue = .ok b := by
  rw [toValue_eq]
  exact ofValue_kind b.ne_kind_of_mem_parts (ofContent_parts b hbody)

mutual

/-- **A block is what its value spells.** -/
theorem ofValue_toValue : ∀ b : Block, ofValue b.toValue = .ok b
  | .start => ofValue_of_children .start rfl
  | .move direction => ofValue_of_children (.move direction) rfl
  | .eat => ofValue_of_children .eat rfl
  | .loop count body => ofValue_of_children (.loop count body) (ofValues_toValues body)

theorem ofValues_toValues : ∀ bs : List Block, ofValues (toValues bs) = .ok bs
  | [] => rfl
  | b :: bs => by
    rw [toValues, ofValues, ofValue_toValue b, ofValues_toValues bs]
    rfl

end

/-! ## Texts as blocks -/

/-- A value stands for a block: it names the kind of the block, and what is read of its other fields
gives the block. -/
def StandsFor (value : Value) (b : Block) : Prop :=
  ∃ named reads, value = .object (("kind", .string b.label) :: named)
    ∧ List.Forall₂ ReadsField named reads ∧ (∀ field ∈ named, field.1 ≠ "kind")
    ∧ ofContent b.kind (.fields (asideFields reads)) = .ok b

section StandsFor

variable {value : Value} {b : Block}

/-- What is read of a value that stands for a block spells the block. -/
theorem StandsFor.exists_read (h : StandsFor value b) :
    ∃ read, Decodes readValue value read ∧ ofValue read = .ok b := by
  obtain ⟨named, reads, rfl, hreads, hne, hcontent⟩ := h
  have hkind : Value.Exact (.string b.label) := trivial
  have hne := ReadsField.ne_key hreads hne
  exact ⟨_, decodes_readValue_object (.cons (.under "kind" (decodes_readValue hkind)) hreads),
    ofValue_kind hne hcontent⟩

/-- A block is what the decoder makes of a text that stands for it. -/
theorem StandsFor.decodes (h : StandsFor value b) : Decodes decoder value b := by
  obtain ⟨named, reads, rfl, hreads, hne, hcontent⟩ := h
  refine (decodes_tagged "BlockNode" b.variantOf_label hreads hne).ofTagged ?_
  rw [Content.map, ← asideFields_eq_map]
  exact hcontent

theorem StandsFor.exists_reads {values : List Value} {bs : List Block}
    (h : List.Forall₂ StandsFor values bs) :
    ∃ reads, List.Forall₂ (Decodes readValue) values reads ∧ ofValues reads = .ok bs := by
  induction h with
  | nil => exact ⟨[], .nil, rfl⟩
  | cons hone _ ih =>
    obtain ⟨read, hread, hvalue⟩ := hone.exists_read
    obtain ⟨reads, hreads, hvalues⟩ := ih
    refine ⟨read :: reads, .cons hread hreads, ?_⟩
    rw [ofValues, hvalue, hvalues]
    rfl

end StandsFor

theorem standsFor_toValue (b : Block) : StandsFor b.toValue b := by
  have hexact : b.toValue.Exact := exact_toValue b
  rw [toValue_eq] at hexact
  exact ⟨b.parts, b.parts, b.toValue_eq, forall₂_exactFields hexact.2, b.ne_kind_of_mem_parts,
    ofContent_parts b (ofValues_toValues b.children)⟩

/-- **A block is what the decoder makes of its text.** -/
theorem decodes_toValue (b : Block) : Decodes decoder b.toValue b := (standsFor_toValue b).decodes

/-- The blocks of a list are what the decoder makes of their texts, one by one. -/
theorem decodes_toValues (bs : List Block) : List.Forall₂ (Decodes decoder) (toValues bs) bs := by
  induction bs with
  | nil => exact .nil
  | cons b bs ih => exact .cons (decodes_toValue b) ih

end Block
end BlockScript
