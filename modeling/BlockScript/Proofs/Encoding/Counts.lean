import BlockScript.Proofs.Encoding.Program
import BlockScript.Proofs.Json.Integers
import BlockScript.Proofs.RepeatCount
import BlockScript.Proofs.Script.Layout

/-!
# Counts in scripts and documents

The count of a loop can be an atom of a script, or a number or a text of a document.  Integers of
every size take quite different ways there: an atom can be an integer or a word, and a number can be
read as an integer or as a double.  All these ways end at the same count.

## What is here

* `RepeatCount.Accepted` and `RepeatCount.Accepted.exists_read` — an integer that a document may
  consist of, and what it is read as.
* `Script.ByAtom` — counts in scripts, as the counts of the texts of atoms.
* `Block.Describes` and `Program.ofJson_describes` — documents whose counts are integers of any size
  and texts.
* `RepeatCount.normalized_alike` — **all ways to a count normalize it alike**.
-/

set_option autoImplicit false
namespace BlockScript

open Json

/-! ## Counts in documents -/

namespace RepeatCount

theorem ofFloat_of_beyond {x : Float} (h : Beyond x) : ofFloat x = standard := by
  rw [ofFloat]
  refine ofInt_eq_standard ?_
  rcases h with hzero | hlarge <;> omega

/-- A count is what the value gives that is read. -/
theorem decodes_decoder {value read : Value} {count : RepeatCount}
    (h : Decodes readValue value read) (hcount : ofValue read = .ok count) :
    Decodes decoder value count := by
  constructor
  intro limit d text rest htext hends
  constructor
  · intro hfits
    obtain ⟨shorter, hread⟩ := (h.yields htext hends).reads hfits
    refine ⟨shorter, ?_⟩
    rw [decoder, hread]
    simp only [hcount]
  · intro hnot
    obtain ⟨unread, herror⟩ := (h.yields htext hends).tooDeep hnot
    refine ⟨unread, ?_⟩
    rw [decoder, herror]

/-- There is no count where no value can be read. -/
theorem refuses_decoder {value : Value} (h : Refuses readValue value) : Refuses decoder value := by
  constructor
  intro limit d text rest htext hends
  have hfails : ∃ fault, readValue limit text = .error fault := h.fails htext hends
  obtain ⟨fault, hfault⟩ := hfails
  refine ⟨fault, ?_⟩
  rw [decoder, hfault]

theorem pretty_integer (n : Int) : (Value.integer n).pretty = toString n := by
  have htext : (Value.integer n).pretty = String.ofList ((toString n).toList ++ []) := rfl
  rw [htext, List.append_nil, String.ofList_toList]

theorem pretty_string (text : String) : (Value.string text).pretty = quote text := by
  have htext : (Value.string text).pretty = String.ofList ((quote text).toList ++ []) := rfl
  rw [htext, List.append_nil, String.ofList_toList]

/-- A count is decoded from a document that consists of it. -/
theorem decode_count {value read : Value} {count : RepeatCount} (hdepth : value.depth = 0)
    (h : Decodes readValue value read) (hcount : ofValue read = .ok count) :
    decode decoder value.pretty.toUTF8.toList = .ok count := by
  have hdecode := decode_pretty (decodes_decoder h hcount)
  rwa [if_pos (hdepth ▸ Nat.zero_le _)] at hdecode

/-- An integer is accepted as a count by the decoder. -/
def Accepted (n : Int) : Prop :=
  ∃ count, decode decoder (toString n).toUTF8.toList = .ok count

/-- Integers of at most 64 bits are accepted. -/
theorem accepted_of_fits {n : Int} (hlow : -9223372036854775808 ≤ n) (hhigh : n ≤ maxSignificand) :
    Accepted n := by
  have hexact : (Value.integer n).Exact := ⟨hlow, hhigh⟩
  have hcount : ofValue (.integer n) = .ok (ofInt n) := rfl
  have hdecode := decode_count rfl (decodes_readValue hexact) hcount
  rw [pretty_integer] at hdecode
  exact ⟨_, hdecode⟩

/-- **What is read of an integer that is accepted gives the count of the integer**, wherever it
stands. -/
theorem Accepted.exists_read {n : Int} (h : Accepted n) :
    ∃ read, Decodes readValue (.integer n) read ∧ ofValue read = .ok (ofInt n) := by
  by_cases hfits : -9223372036854775808 ≤ n ∧ n ≤ maxSignificand
  · have hexact : (Value.integer n).Exact := hfits
    exact ⟨_, decodes_readValue hexact, rfl⟩
  · -- Beyond 64 bits it is read as a double, which is beyond 32 bits as well, or not at all.
    have hlarge : n < -9223372036854775808 ∨ maxSignificand < n := by omega
    obtain ⟨outcome, hjudges, hbeyond⟩ := exists_judges_integer hlarge
    cases outcome with
    | some x =>
      have hbounds : ¬ (1 ≤ n ∧ n ≤ 4294967295) := by
        rw [maxSignificand] at hlarge
        omega
      refine ⟨_, hjudges, ?_⟩
      rw [ofValue, ofFloat_of_beyond (hbeyond x rfl), ofInt_eq_standard hbounds]
    | none =>
      obtain ⟨count, hdecode⟩ := h
      have hrefuses : Judges decoder (.integer n) none := refuses_decoder hjudges
      have hsettles := decode_judged hrefuses (Nat.zero_le _)
      obtain ⟨error, herror⟩ := hsettles
      rw [pretty_integer] at herror
      cases hdecode.symm.trans herror

/-- An integer that is accepted is decoded as its count. -/
theorem Accepted.decode_eq {n : Int} (h : Accepted n) :
    decode decoder (toString n).toUTF8.toList = .ok (ofInt n) := by
  obtain ⟨read, hread, hcount⟩ := h.exists_read
  rw [← pretty_integer]
  exact decode_count rfl hread hcount

/-- A text is decoded as its count. -/
theorem decode_quote (text : String) :
    decode decoder (quote text).toUTF8.toList = .ok (ofText text) := by
  have hexact : (Value.string text).Exact := trivial
  rw [← pretty_string]
  exact decode_count rfl (decodes_readValue hexact) rfl

end RepeatCount

/-! ## Blocks in documents -/

/-- What a document may have for a count: an integer of any size that is accepted, or a text. -/
inductive RepeatCount.Describes : Value → RepeatCount → Prop
  | integer {n : Int} {count : RepeatCount} (haccepted : Accepted n) (hcount : Normalizes n count) :
    Describes (.integer n) count
  | text (text : String) : Describes (.string text) (ofText text)

theorem RepeatCount.Describes.depth_eq {value : Value} {count : RepeatCount}
    (h : RepeatCount.Describes value count) : value.depth = 0 := by
  cases h <;> rfl

theorem RepeatCount.Describes.exists_read {value : Value} {count : RepeatCount}
    (h : RepeatCount.Describes value count) :
    ∃ read, Decodes readValue value read ∧ ofValue read = .ok count := by
  cases h with
  | integer haccepted hcount =>
    rw [hcount.eq_ofInt]
    exact haccepted.exists_read
  | text text =>
    have hexact : (Value.string text).Exact := trivial
    exact ⟨_, decodes_readValue hexact, rfl⟩

namespace Block

mutual

/-- The value of a document that has a block. -/
inductive Describes : Value → Block → Prop
  | start : Describes (.object [("kind", .string "start")]) .start
  | move (direction : Direction) :
    Describes (.object [("kind", .string "move"), ("direction", .string direction.name)])
      (.move direction)
  | eat : Describes (.object [("kind", .string "eat")]) .eat
  | loop {value : Value} {count : RepeatCount} {items : List Value} {body : List Block}
    (hcount : RepeatCount.Describes value count) (hbody : DescribesAll items body) :
    Describes
      (.object [("kind", .string "repeat"), ("count", value), ("body", .list items)])
      (.loop count body)

/-- The values of a document that has a list of blocks. -/
inductive DescribesAll : List Value → List Block → Prop
  | nil : DescribesAll [] []
  | cons {value : Value} {block : Block} {items : List Value} {blocks : List Block}
    (hone : Describes value block) (hmany : DescribesAll items blocks) :
    DescribesAll (value :: items) (block :: blocks)

end

mutual

/-- A value that describes a block stands for it. -/
theorem Describes.standsFor {value : Value} {block : Block} (h : Describes value block) :
    StandsFor value block := by
  match h with
  | .start => exact standsFor_toValue .start
  | .move direction => exact standsFor_toValue (.move direction)
  | .eat => exact standsFor_toValue .eat
  | .loop hcount hbody =>
    obtain ⟨read, hread, hvalue⟩ := hcount.exists_read
    obtain ⟨reads, hreads, hvalues⟩ := StandsFor.exists_reads hbody.standsForAll
    exact ⟨_, _, rfl, .cons (.under "count" hread)
      (.cons (.under "body" (decodes_readValue_list hreads)) .nil), by simp,
      ofContent_loop hvalue hvalues⟩

theorem DescribesAll.standsForAll {items : List Value} {blocks : List Block}
    (h : DescribesAll items blocks) : List.Forall₂ StandsFor items blocks := by
  match h with
  | .nil => exact .nil
  | .cons hone hmany => exact .cons hone.standsFor hmany.standsForAll

end

mutual

theorem Describes.depth_eq {value : Value} {block : Block} (h : Describes value block) :
    value.depth = block.levels := by
  match h with
  | .start => rfl
  | .move direction => rfl
  | .eat => rfl
  | .loop hcount hbody =>
    have hbody := hbody.depthOfItems_eq
    simp only [Value.depth, Value.depthOfFields, levels, hcount.depth_eq, hbody]
    omega

theorem DescribesAll.depthOfItems_eq {items : List Value} {blocks : List Block}
    (h : DescribesAll items blocks) : Value.depthOfItems items = levelsAll blocks := by
  match h with
  | .nil => rfl
  | .cons hone hmany =>
    rw [Value.depthOfItems, levelsAll, hone.depth_eq, hmany.depthOfItems_eq]

end

end Block

/-- **A document is read as the program that it describes**, unless it is nested too deeply. -/
theorem Program.ofJson_describes (name : String) {items : List Value} {blocks : List Block}
    (h : Block.DescribesAll items blocks)
    (hlevels : levels { name, blocks } ≤ 127) :
    ofJson (document name items).pretty = .ok { name, blocks } := by
  have hdepth : (document name items).depth = levels { name, blocks } := by
    simp only [document, levels, Value.depth, Value.depthOfFields, h.depthOfItems_eq]
    omega
  have hblocks := h.standsForAll.imp fun _ _ => Block.StandsFor.decodes
  have hdecode := decode_pretty (decodes_document name hblocks)
  rwa [hdepth, if_pos (show levels { name, blocks } ≤ maxDepth from hlevels)] at hdecode

/-! ## Counts in scripts -/

namespace Script

/-- A count as the count of the text of an atom, whatever that is; without an atom it is the usual
one. -/
inductive ByAtom : List Word → RepeatCount → Prop
  | none : ByAtom [] .standard
  | atom {text : List Char} (hlegible : (Word.atom text).Legible) :
    ByAtom [.atom text] (.ofText (String.ofList text))

theorem readBack_byAtom : ReadBack ByAtom := by
  rintro number count (_ | ⟨hlegible⟩)
  · exact .inl ⟨rfl, rfl⟩
  · exact .inr ⟨_, rfl, hlegible, Atom.count_ofText _⟩

/-- A script is read with the counts of the texts of its atoms. -/
theorem ofScript_byAtom (name : String) {text : String} {blocks : List Block}
    (h : Writes ByAtom text.toList blocks) : Program.ofScript name text = .ok { name, blocks } := by
  rw [Program.ofScript, h.blocks_eq readBack_byAtom]
  rfl

end Script

/-! ## All ways to a count -/

/-- **All ways to a count normalize it alike.**  A text is trimmed, and its count is that of the
integer that it then begins with, which is cut off between two characters; or else it is four.  In a
script any atom may stand for a count, and it gives the count of its text.  An integer of any size
gives itself if it is within the bounds and four otherwise, be it given as a number, as an atom, or
in a document as a text or, if that is accepted, as a number; and so does every integer in the
document of a program.  So every count is within the bounds. -/
theorem RepeatCount.normalized_alike :
    (∀ text : String, ∃! middle, Text.Trims text.toList middle)
      ∧ (∀ (text : String) (middle : List Char), Text.Trims text.toList middle →
          (∀ n, Text.BeginsWith middle n → Normalizes n (ofText text))
            ∧ ((∀ n, ¬ Text.BeginsWith middle n) → (ofText text).val = 4)
            ∧ (String.ofList (Text.leadingInteger middle)).rawEndPos.IsValid
                (String.ofList middle))
      ∧ (∀ (name text : String) (blocks : List Block),
          Script.Writes Script.ByAtom text.toList blocks →
            Program.ofScript name text = .ok { name, blocks })
      ∧ (∀ n : Int, Normalizes n (ofInt n)
          ∧ Normalizes n (Script.Atom.ofText (toString n).toList).count
          ∧ (∃ count, decode decoder (quote (toString n)).toUTF8.toList = .ok count
              ∧ Normalizes n count)
          ∧ (∀ count, decode decoder (toString n).toUTF8.toList = .ok count →
              Normalizes n count)
          ∧ (-9223372036854775808 ≤ n → n ≤ 18446744073709551615 → Accepted n))
      ∧ (∀ (name : String) (items : List Value) (blocks : List Block),
          Block.DescribesAll items blocks → Program.levels { name, blocks } ≤ 127 →
            Program.ofJson (Program.document name items).pretty = .ok { name, blocks })
      ∧ ∀ count : RepeatCount, 1 ≤ count.val ∧ count.val ≤ 4294967295 := by
  refine ⟨fun text => ?_, fun text middle htrims => ⟨fun n hbegins => ?_, fun hnone => ?_, ?_⟩,
    fun name text blocks => Script.ofScript_byAtom name,
    fun n => ⟨normalizes_ofInt n, ?_, ?_, fun count hcount => ?_, accepted_of_fits⟩,
    fun name items blocks => Program.ofJson_describes name,
    fun count => ⟨count.pos, count.le_maximum⟩⟩
  · exact ⟨_, Text.trims_trim text.toList, fun middle htrims => htrims.eq_trim⟩
  · rw [ofText_eq_ofInt htrims hbegins]
    exact normalizes_ofInt n
  · rw [ofText_eq_standard htrims hnone]
    rfl
  · obtain ⟨rest, hrest, -⟩ := Text.exists_append_leadingInteger middle
    refine String.Pos.Raw.isValid_iff_exists_append.2 ⟨_, String.ofList rest, ?_, rfl⟩
    rw [← String.ofList_append, ← hrest]
  · rw [Script.Atom.count_ofText, String.ofList_toList,
      ofText_of_isInteger (Text.isInteger_toString n)]
    exact normalizes_ofInt n
  · refine ⟨_, decode_quote _, ?_⟩
    rw [ofText_of_isInteger (Text.isInteger_toString n)]
    exact normalizes_ofInt n
  · have haccepted : Accepted n := ⟨count, hcount⟩
    obtain rfl := Except.ok.inj (hcount.symm.trans haccepted.decode_eq)
    exact normalizes_ofInt n

/-- Integers beyond 64 bits are accepted too, such as this one, which is scaled once. -/
theorem RepeatCount.accepted_scaled : Accepted 100000000000000000000 := by
  have hblanks : skipBlanks (toString (100000000000000000000 : Int)).toUTF8.toList
      = ascii '1' :: List.replicate 20 (ascii '0') := by decide +kernel
  have hscalar : ScalarAt (ascii '1' :: List.replicate 20 (ascii '0'))
      (.float (Float.ofNat 10000000000000000000 * Number.powerOfTen 1)) [] :=
    ⟨_, _, rfl, ⟨by decide, by decide⟩, by decide, by decide, Nat.zero_le _, by rfl⟩
  obtain ⟨shorter, hread⟩ := reads_readValue_scalar hblanks hscalar
  refine ⟨ofFloat (Float.ofNat 10000000000000000000 * Number.powerOfTen 1), ?_⟩
  rw [decode, decoder, hread]
  rfl

/-- A text with a sign and a leading zero, a text that only ends in a digit, an atom that begins
with a blank beyond ASCII, and a number beyond 64 bits, alone and in a program. -/
theorem RepeatCount.normalized_alike_loosely :
    (ofText " +07é\n").val = 7 ∧ (ofText "é7").val = 4
      ∧ Program.ofScript "demo" "(repeat \xa05x (eat))"
          = .ok { name := "demo", blocks := [.loop (.ofInt 5) [.eat]] }
      ∧ (∃ count, decode decoder (toString (100000000000000000000 : Int)).toUTF8.toList = .ok count
          ∧ count.val = 4)
      ∧ Program.ofJson (Program.document "demo" [.object [("kind", .string "repeat"),
          ("count", .integer 100000000000000000000), ("body", .list [])]]).pretty
          = .ok { name := "demo", blocks := [.loop .standard []] } := by
  have htrims : Text.Trims " +07é\n".toList "+07é".toList :=
    ⟨⟨[' '], ['\n'], by decide, List.all_eq_true.1 (by decide), List.all_eq_true.1 (by decide)⟩,
      by rintro c ⟨⟩; decide, by rintro c ⟨⟩; decide⟩
  have hseven : Text.BeginsWith "+07é".toList 7 :=
    ⟨"+07".toList, ['é'], by decide,
      .plus ⟨by decide, List.all_eq_true.1 (by decide), by decide⟩, by rintro c ⟨⟩; decide⟩
  have htrims' : Text.Trims "é7".toList "é7".toList :=
    ⟨⟨[], [], by decide, by simp, by simp⟩, by rintro c ⟨⟩; decide, by rintro c ⟨⟩; decide⟩
  have hnone : ∀ n, ¬ Text.BeginsWith "é7".toList n := by
    intro n hn
    cases Text.integer?_leadingInteger_eq_some_iff.2 hn
  have hcount : Script.ByAtom [.atom "\xa05x".toList] (.ofInt 5) := by
    have hfive : ofInt 5 = ofText (String.ofList "\xa05x".toList) := by decide
    rw [hfive]
    exact .atom ⟨by decide, List.all_eq_true.1 (by decide)⟩
  have hrepeat : Script.Names "repeat" "repeat".toList := by decide
  have heat : Script.Names "eat" "eat".toList := by decide
  have hwrites : Script.Writes Script.ByAtom "(repeat \xa05x (eat))".toList
      [.loop (.ofInt 5) [.eat]] := by
    refine ⟨_, .cons (.loop hrepeat hcount (.cons (.eat heat) .nil)) .nil, ?_⟩
    have hgap : Script.IsGap [' '] := .blank (by decide) .nil
    exact .word .nil (by decide) <| .word .nil (by decide) <| .word hgap (by decide) <|
      .word hgap (by decide) <| .word .nil (by decide) <| .word .nil (by decide) <|
      .word .nil (by decide) <| .last (.gap .nil)
  have hdescribes : Block.DescribesAll [.object [("kind", .string "repeat"),
      ("count", .integer 100000000000000000000), ("body", .list [])]] [.loop .standard []] :=
    .cons (.loop (.integer accepted_scaled rfl) .nil) .nil
  obtain ⟨count, hdecode⟩ := accepted_scaled
  obtain ⟨-, htexts, hscripts, hintegers, hdocuments, -⟩ := normalized_alike
  refine ⟨Int.ofNat.inj ((htexts _ _ htrims).1 7 hseven), (htexts _ _ htrims').2.1 hnone,
    hscripts _ _ _ hwrites, ⟨count, hdecode, ?_⟩, hdocuments _ _ _ hdescribes (by decide)⟩
  exact Int.ofNat.inj ((hintegers _).2.2.2.1 count hdecode)

end BlockScript
