import BlockScript.Json.Tagged
import BlockScript.Proofs.Results

/-!
# What readers accept

A reader that accepts a text has kept its limit: the value it gives is not nested more deeply than
it was allowed to open lists and objects.  What a record decoder gives was built from a draft into
which every field was read by its own decoder.

## What is here

* `Json.depth_readValue` — the depth of a value that was read.
* `Json.draft_recordDecoder`, `Json.forall_decoderList` — what holds of the parts of a record and of
  a list that were read.
* `Json.depth_tagged` — the values beside a tag that were read.
-/

set_option autoImplicit false
namespace BlockScript.Json

variable {text whole : List UInt8} {limit n : Nat} {first : Bool}

/-! ## Values -/

namespace Value

theorem depthOfItems_le_iff {items : List Value} :
    depthOfItems items ≤ n ↔ ∀ item ∈ items, item.depth ≤ n := by
  induction items with
  | nil => simp [depthOfItems]
  | cons item items ih => rw [depthOfItems, Nat.max_le, ih, List.forall_mem_cons]

theorem depthOfFields_le_iff {fields : List (String × Value)} :
    depthOfFields fields ≤ n ↔ ∀ field ∈ fields, field.2.depth ≤ n := by
  induction fields with
  | nil => simp [depthOfFields]
  | cons field fields ih =>
    obtain ⟨key, value⟩ := field
    rw [depthOfFields, Nat.max_le, ih, List.forall_mem_cons]

end Value

/-! ## Scalars -/

section Numbers

variable {negative : Bool} {significand : Nat} {exponent : Int}

theorem depth_scaledValue {value : Value}
    (h : scaledValue negative significand exponent text = .ok value) : value.depth = 0 := by
  rw [scaledValue] at h
  split at h <;> cases h
  rfl

theorem depth_readExponent {read : Value × Tail text}
    (h : readExponent negative significand exponent text = .ok read) : read.1.depth = 0 := by
  simp only [readExponent] at h
  split at h
  · split at h
    · split at h <;> cases h
      rfl
    · obtain ⟨value, hvalue, rfl⟩ := map_eq_ok h
      exact depth_scaledValue hvalue
  · split at h <;> cases h

theorem depth_readScaled {read : Value × Tail text}
    (h : readScaled negative significand exponent text = .ok read) : read.1.depth = 0 := by
  rw [readScaled] at h
  split at h
  · obtain ⟨inner, hinner, rfl⟩ := map_eq_ok h
    have hdepth := depth_readExponent hinner
    exact hdepth
  · obtain ⟨value, hvalue, rfl⟩ := map_eq_ok h
    exact depth_scaledValue hvalue

theorem depth_readAfterWhole {read : Value × Tail text}
    (h : readAfterWhole negative significand exponent text = .ok read) : read.1.depth = 0 := by
  rw [readAfterWhole.eq_def] at h
  split at h
  · exact depth_readScaled h
  · split at h
    · obtain ⟨inner, hinner, rfl⟩ := map_eq_ok h
      simp only [readFraction] at hinner
      split at hinner
      · cases hinner
      · obtain ⟨scaled, hscaled, rfl⟩ := map_eq_ok hinner
        have hdepth := depth_readScaled hscaled
        exact hdepth
    · exact depth_readScaled h

theorem depth_wholeValue : (wholeValue negative significand).depth = 0 := by
  rw [wholeValue]
  split
  · rfl
  · split <;> rfl

theorem depth_readNumber {read : Read Value text} (h : readNumber negative text = .ok read) :
    read.value.depth = 0 := by
  rw [readNumber.eq_def] at h
  split at h
  · cases h
  · split at h
    · split at h
      · cases h
      · split at h
        · obtain ⟨inner, hinner, rfl⟩ := map_eq_ok h
          exact depth_readAfterWhole hinner
        · cases h
          exact depth_wholeValue
    · split at h
      · simp only at h
        split at h
        · obtain ⟨inner, hinner, rfl⟩ := map_eq_ok h
          exact depth_readAfterWhole hinner
        · cases h
          exact depth_wholeValue
      · cases h

end Numbers

theorem depth_readWord {letters : List Char} {value : Value} {read : Value × Tail text}
    (hvalue : value.depth = 0) (h : readWord letters value text = .ok read) : read.1.depth = 0 := by
  obtain ⟨rest, -, rfl⟩ := map_eq_ok h
  exact hvalue

theorem depth_readScalar {b : UInt8} {read : Value × Tail text}
    (h : readScalar b text = .ok read) : read.1.depth = 0 := by
  rw [readScalar] at h
  split at h
  · exact depth_readWord rfl h
  split at h
  · exact depth_readWord rfl h
  split at h
  · exact depth_readWord rfl h
  split at h
  · obtain ⟨inner, -, rfl⟩ := map_eq_ok h
    rfl
  split at h
  · obtain ⟨inner, hinner, rfl⟩ := map_eq_ok h
    exact depth_readNumber hinner
  split at h
  · obtain ⟨inner, hinner, rfl⟩ := map_eq_ok h
    exact depth_readNumber hinner
  · cases h

/-! ## Lists and objects -/

/-- The values that are read of a text are not too deep if shorter texts give none that is. -/
def ShallowUpTo (n : Nat) : Prop :=
  ∀ (limit : Nat) (text : List UInt8) (read : Read Value text), text.length ≤ n →
    readValue limit text = .ok read → read.value.depth ≤ limit

theorem depth_readItems (hvalues : ShallowUpTo n) {items : Array Value}
    (hlt : text.length < whole.length) (hlength : text.length ≤ n)
    (hitems : ∀ item ∈ items.toList, item.depth ≤ limit) {read : Read (List Value) whole}
    (h : readItems limit first items text hlt = .ok read) :
    ∀ item ∈ read.value, item.depth ≤ limit := by
  induction hsize : text.length using Nat.strongRecOn generalizing text first items with
  | ind size ih =>
    rw [readItems] at h
    split at h
    · cases h
    · obtain ⟨closed, -, rfl⟩ := map_eq_ok h
      exact hitems
    · next start hstart hnext =>
      split at h
      · cases h
      · next value rest hrest hvalue =>
        refine ih rest.length (by omega) _ (by omega) ?_ h rfl
        intro item hitem
        rw [Array.toList_push] at hitem
        rcases List.mem_append.1 hitem with hold | hnew
        · exact hitems item hold
        · rw [List.mem_singleton.1 hnew]
          exact hvalues limit start _ (by omega) hvalue

theorem depth_readFields (hvalues : ShallowUpTo n) {fields : Array (String × Value)}
    (hlt : text.length < whole.length) (hlength : text.length ≤ n)
    (hfields : ∀ field ∈ fields.toList, field.2.depth ≤ limit)
    {read : Read (List (String × Value)) whole}
    (h : readFields limit first fields text hlt = .ok read) :
    ∀ field ∈ read.value, field.2.depth ≤ limit := by
  induction hsize : text.length using Nat.strongRecOn generalizing text first fields with
  | ind size ih =>
    rw [readFields] at h
    split at h
    · cases h
    · obtain ⟨closed, -, rfl⟩ := map_eq_ok h
      exact hfields
    · next start hstart hnext =>
      split at h
      · cases h
      · next key afterKey hkey _ =>
        split at h
        · cases h
        · next afterColon hcolon _ =>
          split at h
          · cases h
          · next value rest hrest hvalue =>
            refine ih rest.length (by omega) _ (by omega) ?_ h rfl
            intro field hfield
            rw [Array.toList_push] at hfield
            rcases List.mem_append.1 hfield with hold | hnew
            · exact hfields field hold
            · rw [List.mem_singleton.1 hnew]
              exact hvalues limit afterColon _ (by omega) hvalue

theorem shallowUpTo (n : Nat) : ShallowUpTo n := by
  induction n using Nat.strongRecOn with
  | ind n ih =>
    intro limit text read hlength h
    rw [readValue] at h
    split at h
    · cases h
    · next b rest hskip =>
      have hrest := length_lt_of_skipBlanks hskip
      have hshorter := ih rest.length (by omega)
      simp only at h
      split at h
      · cases limit with
        | zero => cases h
        | succ limit =>
          obtain ⟨items, hitems, rfl⟩ := map_eq_ok h
          have hall := depth_readItems hshorter _ (Nat.le_refl _) (by simp) hitems
          rw [Nat.add_comm]
          exact Nat.add_le_add_left (Value.depthOfItems_le_iff.2 hall) 1
      split at h
      · cases limit with
        | zero => cases h
        | succ limit =>
          obtain ⟨fields, hfields, rfl⟩ := map_eq_ok h
          have hall := depth_readFields hshorter _ (Nat.le_refl _) (by simp) hfields
          rw [Nat.add_comm]
          exact Nat.add_le_add_left (Value.depthOfFields_le_iff.2 hall) 1
      · obtain ⟨scalar, hscalar, rfl⟩ := map_eq_ok h
        have hdepth := depth_readScalar hscalar
        exact Nat.le_trans (Nat.le_of_eq hdepth) (Nat.zero_le limit)

/-- **A value that was read keeps the limit.** -/
theorem depth_readValue {read : Read Value text} (h : readValue limit text = .ok read) :
    read.value.depth ≤ limit := shallowUpTo text.length limit text read (Nat.le_refl _) h

/-! ## Decoders -/

section Decoders

variable {α δ τ : Type}

/-- What a decoder of scalars gives was picked from a value. -/
theorem exists_pick {expected : String} {pick : Value → Except Cause α} {read : Read α text}
    (h : Decoder.scalar expected pick limit text = .ok read) :
    ∃ value, pick value = .ok read.value := by
  rw [Decoder.scalar] at h
  split at h
  · cases h
  split at h
  · cases h
  split at h
  · cases h
  split at h
  · next value after hscalar _ picked hpick =>
    cases h
    exact ⟨value, hpick⟩
  · cases h

theorem eq_ok_of_within {depth : Nat} {here : List UInt8} {stand : List UInt8 → List UInt8}
    {close : (rest : List UInt8) → Except Fault (Read Unit rest)}
    {inside : Nat → Except Fault (Read α text)} {read : Read α text}
    (h : within depth here stand close inside = .ok read) :
    ∃ inner item, depth = inner + 1 ∧ inside inner = .ok item ∧ item.value = read.value := by
  cases depth with
  | zero => cases h
  | succ inner =>
    rw [within] at h
    cases hinside : inside inner with
    | error fault => rw [hinside] at h; cases h
    | ok item =>
      rw [hinside] at h
      obtain ⟨closed, -, rfl⟩ := map_eq_ok h
      exact ⟨inner, item, rfl, hinside, rfl⟩

/-- **What holds of every item that an item decoder gives holds of every item of a list.** -/
theorem forall_itemsFrom {item : Decoder α} {P : α → Prop}
    (hitem : ∀ text read, item limit text = .ok read → P read.value) {items : Array α}
    (hitems : ∀ x ∈ items.toList, P x) (hlt : text.length < whole.length)
    {read : Read (List α) whole}
    (h : Decoder.itemsFrom item limit first items text hlt = .ok read) :
    ∀ x ∈ read.value, P x := by
  induction hsize : text.length using Nat.strongRecOn generalizing text first items with
  | ind size ih =>
    rw [Decoder.itemsFrom] at h
    split at h
    · cases h
    · cases h
      exact hitems
    · next start hstart hnext =>
      split at h
      · cases h
      · next value rest hrest hvalue =>
        refine ih rest.length (by omega) ?_ _ h rfl
        intro x hx
        rw [Array.toList_push] at hx
        rcases List.mem_append.1 hx with hold | hnew
        · exact hitems x hold
        · rw [List.mem_singleton.1 hnew]
          exact hitem start _ hvalue

theorem forall_decoderList {item : Decoder α} {P : α → Prop}
    (hitem : ∀ inner text read, limit = inner + 1 → item inner text = .ok read → P read.value)
    {read : Read (List α) text} (h : Decoder.list item limit text = .ok read) :
    ∀ x ∈ read.value, P x := by
  rw [Decoder.list] at h
  split at h
  · cases h
  · split at h
    · obtain ⟨inner, items, rfl, hitems, hvalue⟩ := eq_ok_of_within h
      rw [← hvalue]
      exact forall_itemsFrom (fun text read => hitem inner text read rfl) (by simp) _ hitems
    · cases h

/-! ### Records -/

theorem draft_readItems {P : δ → Prop} {fields : List (Field δ)}
    (hfields : ∀ field ∈ fields, ∀ draft text read, P draft →
      field.read draft limit text = .ok read → P read.value)
    {draft : δ} (hdraft : P draft) (hlt : text.length < whole.length) {read : Read δ whole}
    (h : Record.readItems limit first draft text hlt fields = .ok read) : P read.value := by
  induction fields generalizing text first draft with
  | nil =>
    cases h
    exact hdraft
  | cons field fields ih =>
    rw [Record.readItems] at h
    split at h
    · cases h
    · cases h
      exact hdraft
    · next start hstart hnext =>
      split at h
      · cases h
      · next next rest hrest hvalue =>
        exact ih (fun other hother => hfields other (List.mem_cons_of_mem _ hother))
          (hfields field List.mem_cons_self draft start _ hdraft hvalue) _ h

theorem draft_readFields {P : δ → Prop} {fields : List (Field δ)}
    (hfields : ∀ field ∈ fields, ∀ draft text read, P draft →
      field.read draft limit text = .ok read → P read.value)
    {draft : δ} (hdraft : P draft) (hlt : text.length < whole.length) {read : Read δ whole}
    (h : Record.readFields fields limit first draft text hlt = .ok read) : P read.value := by
  induction hsize : text.length using Nat.strongRecOn generalizing text first draft with
  | ind size ih =>
    rw [Record.readFields] at h
    split at h
    · cases h
    · cases h
      exact hdraft
    · next start hstart hnext =>
      split at h
      · cases h
      · next key afterKey hkey _ =>
        split at h
        · next field hfind =>
          split at h
          · cases h
          split at h
          · cases h
          · next afterColon hcolon _ =>
            split at h
            · cases h
            · next next rest hrest hvalue =>
              exact ih rest.length (by omega)
                (hfields field (List.mem_of_find?_eq_some hfind) draft _ _ hdraft hvalue) _ h rfl
        · split at h
          · cases h
          · next afterColon hcolon _ =>
            split at h
            · cases h
            · next rest hrest _ => exact ih rest.length (by omega) hdraft _ h rfl

theorem eq_ok_of_finish {β : Type} {result : Except Fault (Read δ text)}
    {build : δ → Except Cause β} {read : Read β text}
    (h : result >>= Record.finish build = .ok read) :
    ∃ draft, result = .ok draft ∧ build draft.value = .ok read.value := by
  obtain ⟨draft, hresult, h⟩ := bind_eq_ok h
  refine ⟨draft, hresult, ?_⟩
  rw [Record.finish] at h
  cases hbuild : build draft.value with
  | error cause => rw [hbuild] at h; cases h
  | ok value =>
    rw [hbuild] at h
    cases h
    rfl

/-- **What every field of a record keeps holds of the draft from which a value was built.** -/
theorem draft_recordDecoder {record : Record δ α} {P : δ → Prop} (hblank : P record.blank)
    (hfields : ∀ inner, limit = inner + 1 → ∀ field ∈ record.fields, ∀ draft text read, P draft →
      field.read draft inner text = .ok read → P read.value)
    {read : Read α text} (h : record.decoder limit text = .ok read) :
    ∃ draft, P draft ∧ record.build draft = .ok read.value := by
  rw [Record.decoder] at h
  split at h
  · cases h
  · simp only at h
    split at h
    · obtain ⟨inner, whole, rfl, hwhole, hvalue⟩ := eq_ok_of_within h
      obtain ⟨draft, hdraft, hbuild⟩ := eq_ok_of_finish hwhole
      refine ⟨draft.value, draft_readItems (hfields inner rfl) hblank _ hdraft, ?_⟩
      rw [← hvalue]
      rw [Record.ofItems] at hbuild
      split at hbuild
      · next value hvalue => rw [hvalue, Except.ok.inj hbuild]
      · cases hbuild
    split at h
    · obtain ⟨inner, whole, rfl, hwhole, hvalue⟩ := eq_ok_of_within h
      obtain ⟨draft, hdraft, hbuild⟩ := eq_ok_of_finish hwhole
      refine ⟨draft.value, draft_readFields (hfields inner rfl) hblank _ hdraft, ?_⟩
      rw [← hvalue]
      rw [Record.ofFields] at hbuild
      split at hbuild
      · next value hvalue => rw [hvalue, Except.ok.inj hbuild]
      · cases hbuild
    · cases h

/-- The value of a document was read by its decoder. -/
theorem exists_read_of_decode {decoder : Decoder α} {value : α}
    (h : decode decoder text = .ok value) :
    ∃ read, decoder maxDepth text = .ok read ∧ read.value = value := by
  rw [decode] at h
  split at h
  · cases h
  · next read hread =>
    refine ⟨read, hread, ?_⟩
    split at h
    · exact Except.ok.inj h
    · cases h

/-! ### Tagged values -/

/-- What holds of all values of a content. -/
def Content.Forall {β : Type} (P : β → Prop) : Content β → Prop
  | .fields named => ∀ field ∈ named, P field.2
  | .items values => ∀ value ∈ values, P value

theorem Content.Forall.map {β γ : Type} {P : β → Prop} {Q : γ → Prop} {f : β → γ}
    (hf : ∀ value, P value → Q (f value)) {content : Content β} (h : content.Forall P) :
    (content.map f).Forall Q := by
  cases content with
  | fields named =>
    intro field hfield
    obtain ⟨other, hother, rfl⟩ := List.mem_map.1 hfield
    exact hf _ (h other hother)
  | items values =>
    intro value hvalue
    obtain ⟨other, hother, rfl⟩ := List.mem_map.1 hvalue
    exact hf _ (h other hother)

theorem depth_taggedFields {key : String} {variants : List (String × τ)} {tag : Option τ}
    {others : Array (String × Value)} (hothers : ∀ field ∈ others.toList, field.2.depth ≤ limit)
    (hlt : text.length < whole.length) {read : Read (τ × Content Value) whole}
    (h : taggedFields key variants limit first tag others text hlt = .ok read) :
    read.value.2.Forall (·.depth ≤ limit) := by
  induction hsize : text.length using Nat.strongRecOn generalizing text first tag others with
  | ind size ih =>
    rw [taggedFields.eq_def] at h
    split at h
    · cases h
    · split at h
      · cases h
        exact hothers
      · cases h
    · next start hstart hnext =>
      split at h
      · cases h
      · next name afterKey hkey _ =>
        split at h
        · split at h
          · cases h
          split at h
          · cases h
          · next afterColon hcolon _ =>
            split at h
            · cases h
            · next tag rest hrest _ => exact ih rest.length (by omega) hothers _ h rfl
        · split at h
          · cases h
          · next afterColon hcolon _ =>
            split at h
            · cases h
            · next value rest hrest hvalue =>
              refine ih rest.length (by omega) ?_ _ h rfl
              intro field hfield
              rw [Array.toList_push] at hfield
              rcases List.mem_append.1 hfield with hold | hnew
              · exact hothers field hold
              · rw [List.mem_singleton.1 hnew]
                exact depth_readValue hvalue

theorem depth_taggedItems {key : String} {variants : List (String × τ)}
    (hlt : text.length < whole.length) {read : Read (τ × Content Value) whole}
    (h : taggedItems key variants limit text hlt = .ok read) :
    read.value.2.Forall (·.depth ≤ limit) := by
  rw [taggedItems] at h
  split at h
  · cases h
  · cases h
  · split at h
    · cases h
    · obtain ⟨items, hitems, rfl⟩ := map_eq_ok h
      exact forall_itemsFrom (fun _ _ => depth_readValue) (by simp) _ hitems

/-- **What stands beside a tag is less deep than the whole.** -/
theorem depth_tagged {type key : String} {variants : List (String × τ)}
    {read : Read (τ × Content Value) text}
    (h : Decoder.tagged type key variants limit text = .ok read) :
    ∃ inner, limit = inner + 1 ∧ read.value.2.Forall (·.depth ≤ inner) := by
  rw [Decoder.tagged] at h
  split at h
  · cases h
  · simp only at h
    split at h
    · obtain ⟨inner, whole, rfl, hwhole, hvalue⟩ := eq_ok_of_within h
      exact ⟨inner, rfl, hvalue ▸ depth_taggedItems _ hwhole⟩
    split at h
    · obtain ⟨inner, whole, rfl, hwhole, hvalue⟩ := eq_ok_of_within h
      exact ⟨inner, rfl, hvalue ▸ depth_taggedFields (by simp) _ hwhole⟩
    · cases h

end Decoders

/-! ## Values kept aside -/

section Aside

variable {β δ τ α : Type}

theorem forall_takeTagFrom {view : β → Value} {key : String} {variants : List (String × τ)}
    {P : β → Prop} {tag : Option τ} {others : Array (String × β)} {named : List (String × β)}
    (hothers : ∀ field ∈ others.toList, P field.2) (hnamed : ∀ field ∈ named, P field.2)
    {taken : τ × List (String × β)}
    (h : Content.takeTagFrom view key variants tag others named = .ok taken) :
    ∀ field ∈ taken.2, P field.2 := by
  induction named generalizing tag others with
  | nil =>
    rw [Content.takeTagFrom.eq_def] at h
    simp only at h
    split at h <;> cases h
    exact hothers
  | cons field named ih =>
    obtain ⟨name, value⟩ := field
    have hrest : ∀ field ∈ named, P field.2 := fun field hfield =>
      hnamed field (List.mem_cons_of_mem _ hfield)
    rw [Content.takeTagFrom.eq_def] at h
    simp only at h
    split at h
    · split at h
      · cases h
      · obtain ⟨tag, -, h⟩ := bind_eq_ok h
        exact ih hothers hrest h
    · refine ih ?_ hrest h
      intro field hfield
      rw [Array.toList_push] at hfield
      rcases List.mem_append.1 hfield with hold | hnew
      · exact hothers field hold
      · rw [List.mem_singleton.1 hnew]
        exact hnamed (name, value) List.mem_cons_self

/-- What is left when the tag is taken was there before. -/
theorem forall_takeTag {view : β → Value} {key : String} {variants : List (String × τ)}
    {P : β → Prop} {content : Content β} (hcontent : content.Forall P) {taken : τ × Content β}
    (h : content.takeTag view key variants = .ok taken) : taken.2.Forall P := by
  cases content with
  | fields named =>
    rw [Content.takeTag] at h
    obtain ⟨rest, hnamed, h⟩ := bind_eq_ok h
    cases h
    exact forall_takeTagFrom (by simp) hcontent hnamed
  | items values =>
    cases values with
    | nil => cases h
    | cons value values =>
      rw [Content.takeTag] at h
      obtain ⟨tag, -, h⟩ := bind_eq_ok h
      cases h
      exact fun other hother => hcontent other (List.mem_cons_of_mem _ hother)

section Parts

variable {P : δ → Prop} {Q : β → Prop} {parts : List (Part δ β)}
  (hparts : ∀ part ∈ parts, ∀ draft value next, P draft → Q value →
    part.read draft value = .ok next → P next)

include hparts

theorem draft_partsFields {draft next : δ} (hdraft : P draft) {named : List (String × β)}
    (hnamed : ∀ field ∈ named, Q field.2) (h : Parts.readFields parts draft named = .ok next) :
    P next := by
  induction named generalizing draft with
  | nil =>
    cases h
    exact hdraft
  | cons field named ih =>
    obtain ⟨key, value⟩ := field
    have hrest : ∀ field ∈ named, Q field.2 := fun field hfield =>
      hnamed field (List.mem_cons_of_mem _ hfield)
    rw [Parts.readFields] at h
    split at h
    · exact ih hdraft hrest h
    · next part hfind =>
      split at h
      · cases h
      · obtain ⟨middle, hread, h⟩ := bind_eq_ok h
        exact ih (hparts part (List.mem_of_find?_eq_some hfind) draft value middle hdraft
          (hnamed (key, value) List.mem_cons_self) hread) hrest h

theorem draft_partsItems {draft : δ} (hdraft : P draft) {values : List β}
    (hvalues : ∀ value ∈ values, Q value) {next : δ × Nat}
    (h : Parts.readItems draft parts values = .ok next) : P next.1 := by
  induction parts generalizing draft values with
  | nil =>
    cases h
    exact hdraft
  | cons part parts ih =>
    cases values with
    | nil =>
      cases h
      exact hdraft
    | cons value values =>
      rw [Parts.readItems] at h
      obtain ⟨middle, hread, h⟩ := bind_eq_ok h
      exact ih (fun other hother => hparts other (List.mem_cons_of_mem _ hother))
        (hparts part List.mem_cons_self draft value middle hdraft
          (hvalues value List.mem_cons_self) hread)
        (fun other hother => hvalues other (List.mem_cons_of_mem _ hother)) h

end Parts

/-- **What every part of a variant keeps holds of the draft from which a value was built.** -/
theorem draft_partsRead {variant : Parts δ β α} {P : δ → Prop} {Q : β → Prop}
    (hblank : P variant.blank) (hparts : ∀ part ∈ variant.parts, ∀ draft value next, P draft →
      Q value → part.read draft value = .ok next → P next)
    {content : Content β} (hcontent : content.Forall Q) {value : α}
    (h : variant.read content = .ok value) :
    ∃ draft, P draft ∧ variant.build draft = .ok value := by
  rw [Parts.read.eq_def] at h
  split at h
  · next named =>
    obtain ⟨draft, hread, h⟩ := bind_eq_ok h
    refine ⟨draft, draft_partsFields hparts hblank hcontent hread, ?_⟩
    split at h
    · next built hbuild => rw [hbuild, Except.ok.inj h]
    · cases h
  · next values =>
    obtain ⟨⟨draft, surplus⟩, hread, h⟩ := bind_eq_ok h
    refine ⟨draft, draft_partsItems hparts hblank hcontent hread, ?_⟩
    dsimp only at h
    split at h
    · cases h
    · next built hbuild =>
      split at h
      · rw [hbuild, Except.ok.inj h]
      · cases h

end Aside

end BlockScript.Json
