import BlockScript.Proofs.Script.Lexing
import BlockScript.Proofs.Script.Reading
import BlockScript.Proofs.Text.Integer
import Mathlib.Data.List.Basic

/-!
# Scripts in every layout

A list of blocks can be written down in many ways: with names in any letter case, with leading
zeros in the counts of its loops, with blanks and comments wherever one word ends and another
begins.  This file says which texts write a list of blocks, without speaking of lexemes, and proves
that they are all read as that list.

## What is here

* `Script.IsGap` and `Script.LaidOut` — blanks and comments, and a text that has some words with
  gaps around them.  A gap can be left out unless two atoms would run together.
  `Script.LaidOut.tokens_eq` says that the lexemes of the text are the words.
* `Script.Spells` and `Script.SpellsAll` — the words of a form, and of a list of forms, given how
  counts are put into words; `Script.InDecimal` puts them into words as decimal numerals.
* `Program.ofScript_laidOut` — **every list of blocks can be written, and is read back from
  whatever text writes it**.
-/

set_option autoImplicit false
namespace BlockScript
namespace Script

/-! ## Words with gaps between them -/

/-- A parenthesis or an atom of a script, by its characters. -/
inductive Word where
  | opening
  | closing
  | atom (text : List Char)

namespace Word

/-- The characters of a word. -/
def text : Word → List Char
  | opening => ['(']
  | closing => [')']
  | atom text => text

/-- Whether a word would run together with an atom next to it. -/
def isAtom : Word → Bool
  | atom _ => true
  | _ => false

/-- What a word means to the reader of forms. -/
def token : Word → Token
  | opening => .opening
  | closing => .closing
  | atom text => .atom (Atom.ofText text)

/-- An atom has some characters, and they can stand in an atom. -/
def Legible : Word → Prop
  | atom text => text ≠ [] ∧ ∀ c ∈ text, isAtomChar c = true
  | _ => True

@[simp] theorem legible_opening : opening.Legible := trivial

@[simp] theorem legible_closing : closing.Legible := trivial

end Word

/-- Blanks and comments, each comment with the newline that ends it. -/
inductive IsGap : List Char → Prop
  | nil : IsGap []
  | blank {c : Char} {rest : List Char} (hblank : c ∈ [' ', '\t', '\n', '\x0c', '\r'])
    (hrest : IsGap rest) : IsGap (c :: rest)
  | comment {content rest : List Char} (hcontent : '\n' ∉ content) (hrest : IsGap rest) :
    IsGap (';' :: (content ++ '\n' :: rest))

/-- What may stand after the last word: the last comment need not end before the text does. -/
inductive IsLastGap : List Char → Prop
  | gap {gap : List Char} (hgap : IsGap gap) : IsLastGap gap
  | comment {gap content : List Char} (hgap : IsGap gap) (hcontent : '\n' ∉ content) :
    IsLastGap (gap ++ ';' :: content)

/-- A text that consists of some words and the gaps around them, and that comes directly after an
atom or does not.  Between two atoms there is a gap; between any other words there may be one. -/
inductive LaidOut : Bool → List Word → List Char → Prop
  | last {afterAtom : Bool} {gap : List Char} (hgap : IsLastGap gap) : LaidOut afterAtom [] gap
  | word {afterAtom : Bool} {gap rest : List Char} {word : Word} {words : List Word}
    (hgap : IsGap gap) (hapart : afterAtom = true → word.isAtom = true → gap ≠ [])
    (hrest : LaidOut word.isAtom words rest) :
    LaidOut afterAtom (word :: words) (gap ++ word.text ++ rest)

/-- Any words can be laid out, for instance with a space before each of them. -/
theorem exists_laidOut (words : List Word) (afterAtom : Bool) :
    ∃ text, LaidOut afterAtom words text := by
  induction words generalizing afterAtom with
  | nil => exact ⟨[], .last (.gap .nil)⟩
  | cons word words ih =>
    obtain ⟨rest, hrest⟩ := ih word.isAtom
    exact ⟨[' '] ++ word.text ++ rest, .word (.blank (by decide) .nil) (by simp) hrest⟩

/-! ### Gaps are skipped -/

/-- What is in a comment is skipped, whatever it is. -/
theorem skipGap_comment {content : List Char} (h : '\n' ∉ content) (line : Nat)
    (rest : List Char) : skipGap true line (content ++ rest) = skipGap true line rest := by
  induction content with
  | nil => rfl
  | cons c content ih =>
    rw [List.mem_cons, not_or] at h
    rw [List.cons_append, skipGap, if_neg (Ne.symm h.1), if_pos (Bool.true_or _), ih h.2]

theorem skipGap_semicolon (line : Nat) (rest : List Char) :
    skipGap false line (';' :: rest) = skipGap true line rest := by
  rw [skipGap, if_neg (by decide), if_neg (by decide), if_pos rfl]

/-- A gap is skipped, and the text after it begins some lines further down. -/
theorem IsGap.skipGap_append {gap : List Char} (h : IsGap gap) (line : Nat) :
    ∃ start, ∀ rest, skipGap false line (gap ++ rest) = skipGap false start rest := by
  induction h generalizing line with
  | nil => exact ⟨line, fun rest => rfl⟩
  | @blank c gap hblank hgap ih =>
    -- A newline is a blank as well, but it also moves the line on.
    by_cases hnewline : c = '\n'
    · obtain ⟨start, hstart⟩ := ih (line + 1)
      refine ⟨start, fun rest => ?_⟩
      rw [List.cons_append, skipGap, if_pos hnewline, hstart]
    · obtain ⟨start, hstart⟩ := ih line
      refine ⟨start, fun rest => ?_⟩
      have hskip : (false || Text.isAsciiBlank c) = true := by
        simpa [Text.isAsciiBlank, or_assoc] using hblank
      rw [List.cons_append, skipGap, if_neg hnewline, if_pos hskip, hstart]
  | @comment content gap hcontent hgap ih =>
    obtain ⟨start, hstart⟩ := ih (line + 1)
    refine ⟨start, fun rest => ?_⟩
    rw [List.cons_append, List.append_assoc, skipGap_semicolon, skipGap_comment hcontent,
      List.cons_append, skipGap, if_pos rfl, hstart]

/-- There is no lexeme in the last gap. -/
theorem IsLastGap.lexemesAt_eq_nil {gap : List Char} (h : IsLastGap gap) (line : Nat) :
    lexemesAt line gap = [] := by
  refine lexemesAt_of_eq_none (Lexeme.next?_eq_none_iff.2 ?_)
  cases h with
  | gap hgap =>
    obtain ⟨start, hstart⟩ := hgap.skipGap_append line
    rw [← List.append_nil gap, hstart]
    rfl
  | @comment gap content hgap hcontent =>
    obtain ⟨start, hstart⟩ := hgap.skipGap_append line
    rw [hstart, skipGap_semicolon, ← List.append_nil content, skipGap_comment hcontent]
    rfl

/-! ### Words are lexemes -/

/-- A character can stand in an atom unless it begins a gap or is a parenthesis. -/
theorem not_isAtomChar_iff {c : Char} :
    isAtomChar c = false ↔ c ∈ [' ', '\t', '\n', '\x0c', '\r', '(', ')', ';'] := by
  simp only [isAtomChar, Text.isAsciiBlank, Bool.not_eq_false', Bool.or_eq_true, decide_eq_true_eq,
    List.mem_cons, List.not_mem_nil, or_false, or_assoc]

/-- A gap that is not left out does not begin like an atom. -/
theorem IsGap.head_not_isAtomChar {gap : List Char} (h : IsGap gap) :
    ∀ c ∈ gap.head?, isAtomChar c = false := by
  rintro c hc
  cases h with
  | nil => cases hc
  | blank hblank hrest =>
    obtain rfl := Option.some.inj hc
    exact not_isAtomChar_iff.2 (List.mem_append_left ['(', ')', ';'] hblank)
  | comment hcontent hrest =>
    obtain rfl := Option.some.inj hc
    rfl

/-- What comes after an atom does not continue it. -/
theorem LaidOut.head_not_isAtomChar {words : List Word} {text : List Char}
    (h : LaidOut true words text) : ∀ c ∈ text.head?, isAtomChar c = false := by
  rintro c hc
  cases h with
  | last hgap =>
    cases hgap with
    | gap hgap => exact hgap.head_not_isAtomChar c hc
    | @comment gap content hgap hcontent =>
      rw [List.head?_append, Option.mem_def, Option.or_eq_some_iff] at hc
      rcases hc with hc | ⟨-, hc⟩
      · exact hgap.head_not_isAtomChar c hc
      · obtain rfl := Option.some.inj hc
        rfl
  | @word _ gap rest word words hgap hapart hrest =>
    rw [List.append_assoc, List.head?_append, Option.mem_def, Option.or_eq_some_iff] at hc
    rcases hc with hc | ⟨hnone, hc⟩
    · exact hgap.head_not_isAtomChar c hc
    · -- With no gap in between, the next word is no atom.
      cases word with
      | opening => obtain rfl := Option.some.inj hc; rfl
      | closing => obtain rfl := Option.some.inj hc; rfl
      | atom text => exact absurd (List.head?_eq_none_iff.1 hnone) (hapart rfl rfl)

/-- An atom ends the gap before it. -/
theorem skipGap_of_isAtomChar {c : Char} (h : isAtomChar c = true) (line : Nat)
    (rest : List Char) : skipGap false line (c :: rest) = (line, c :: rest) := by
  have hnewline : c ≠ '\n' := by rintro rfl; exact absurd h (by decide)
  simp only [isAtomChar, Bool.not_eq_true', Bool.or_eq_false_iff, decide_eq_false_iff_not] at h
  obtain ⟨⟨⟨hblank, -⟩, -⟩, hsemicolon⟩ := h
  rw [skipGap, if_neg hnewline, if_neg (by simp [hblank]), if_neg hsemicolon]

theorem Atom.token_lexeme {text : List Char} (h : ∀ c ∈ text, isAtomChar c = true) (line : Nat) :
    Lexeme.token ⟨line, text⟩ = .atom (Atom.ofText text) := by
  unfold Lexeme.token
  split
  · next heq => exact absurd (h '(' (by simp_all)) (by decide)
  · next heq => exact absurd (h ')' (by simp_all)) (by decide)
  · rfl

/-- A word is the first lexeme of the text that it begins. -/
theorem Word.next?_append {word : Word} (hword : word.Legible) {rest : List Char}
    (hrest : word.isAtom = true → ∀ c ∈ rest.head?, isAtomChar c = false) {gap : List Char}
    (hgap : IsGap gap) (line : Nat) :
    ∃ start, Lexeme.next? line (gap ++ word.text ++ rest) = some (⟨start, word.text⟩, rest)
      ∧ Lexeme.token ⟨start, word.text⟩ = word.token := by
  obtain ⟨start, hstart⟩ := hgap.skipGap_append line
  refine ⟨start, ?_⟩
  rw [List.append_assoc, Lexeme.next?, hstart]
  cases word with
  | opening => exact ⟨rfl, rfl⟩
  | closing => exact ⟨rfl, rfl⟩
  | atom chars =>
    obtain ⟨hsome, hchars⟩ := hword
    refine ⟨?_, Atom.token_lexeme hchars start⟩
    cases chars with
    | nil => exact absurd rfl hsome
    | cons c chars =>
      obtain ⟨hc, hchars⟩ := List.forall_mem_cons.1 hchars
      have hparen : ¬ (c = '(' ∨ c = ')') := by rintro (rfl | rfl) <;> exact absurd hc (by decide)
      obtain ⟨htake, hdrop⟩ := Text.takeWhile_of_head (hrest rfl)
      rw [Word.text, List.cons_append, skipGap_of_isAtomChar hc]
      refine (if_neg hparen).trans ?_
      rw [List.takeWhile_append_of_pos hchars, List.dropWhile_append_of_pos hchars, htake, hdrop,
        List.append_nil]

/-- **The words of a text are its lexemes**, whatever the layout. -/
theorem LaidOut.tokens_eq {afterAtom : Bool} {words : List Word} {text : List Char}
    (h : LaidOut afterAtom words text) (hwords : ∀ word ∈ words, word.Legible) (line : Nat) :
    (lexemesAt line text).map Lexeme.token = words.map Word.token := by
  induction h generalizing line with
  | last hgap => rw [hgap.lexemesAt_eq_nil]; rfl
  | @word _ gap rest word words hgap hapart hrest ih =>
    obtain ⟨hword, hwords⟩ := List.forall_mem_cons.1 hwords
    have hapart' : word.isAtom = true → ∀ c ∈ rest.head?, isAtomChar c = false := by
      intro hatom
      rw [hatom] at hrest
      exact hrest.head_not_isAtomChar
    obtain ⟨start, hnext, htoken⟩ := word.next?_append hword hapart' hgap line
    rw [lexemesAt_of_eq_some hnext, List.map_cons, htoken, ih hwords]
    rfl

/-! ## Words of blocks -/

/-- A name in any letter case. -/
def Names (name : String) (text : List Char) : Prop := text.map Char.toLower = name.toList

instance (name : String) (text : List Char) : Decidable (Names name text) :=
  inferInstanceAs (Decidable (_ = _))

mutual

/-- The words of a form, and the block it stands for, where `counts` says how the count of a loop
is put into words. -/
inductive Spells (counts : List Word → RepeatCount → Prop) : List Word → Block → Prop
  | start {name : List Char} (hname : Names "start" name) :
    Spells counts [.opening, .atom name, .closing] .start
  | eat {name : List Char} (hname : Names "eat" name) :
    Spells counts [.opening, .atom name, .closing] .eat
  | move {name goal : List Char} {direction : Direction} (hname : Names "move" name)
    (hgoal : Names direction.name goal) :
    Spells counts [.opening, .atom name, .atom goal, .closing] (.move direction)
  | loop {name : List Char} {number body : List Word} {count : RepeatCount} {blocks : List Block}
    (hname : Names "repeat" name) (hcount : counts number count)
    (hbody : SpellsAll counts body blocks) :
    Spells counts (.opening :: .atom name :: (number ++ (body ++ [.closing])))
      (.loop count blocks)

/-- The words of a list of forms, and the blocks they stand for. -/
inductive SpellsAll (counts : List Word → RepeatCount → Prop) : List Word → List Block → Prop
  | nil : SpellsAll counts [] []
  | cons {form rest : List Word} {block : Block} {blocks : List Block}
    (hform : Spells counts form block) (hrest : SpellsAll counts rest blocks) :
    SpellsAll counts (form ++ rest) (block :: blocks)

end

/-- A count in decimal; leading zeros are allowed. -/
inductive InDecimal : List Word → RepeatCount → Prop
  | digits {digits : List Char} {count : RepeatCount} (h : Text.IsNumeral digits count.val) :
    InDecimal [.atom digits] count

/-- A text that writes a list of blocks, in some layout. -/
def Writes (counts : List Word → RepeatCount → Prop) (text : List Char) (blocks : List Block) :
    Prop :=
  ∃ words, SpellsAll counts words blocks ∧ LaidOut false words text

/-! ### Names and numerals -/

/-- Letters and digits can stand in an atom. -/
theorem isAtomChar_of_isAlphanum {c : Char} (h : c.isAlphanum = true) : isAtomChar c = true := by
  rw [← Bool.not_eq_false]
  intro hc
  rw [not_isAtomChar_iff] at hc
  simp only [List.mem_cons, List.not_mem_nil, or_false] at hc
  rcases hc with rfl | rfl | rfl | rfl | rfl | rfl | rfl | rfl <;> exact absurd h (by decide)

/-- Only letters have a lower case that is a letter. -/
theorem isAlpha_of_isLower_toLower {c : Char} (h : c.toLower.isLower = true) :
    c.isAlpha = true := by
  by_cases hupper : c.isUpper = true
  · exact Bool.or_eq_true_iff.2 (.inl hupper)
  · have hsame : c.toLower = c := dif_neg fun hbounds => hupper (decide_eq_true hbounds)
    rw [hsame] at h
    exact Bool.or_eq_true_iff.2 (.inr h)

theorem isDigit_eq_false_of_isAlpha {c : Char} (h : c.isAlpha = true) : c.isDigit = false := by
  rw [← Bool.not_eq_true]
  intro hdigit
  have hlow : 'A'.val ≤ c.val := by
    rcases Bool.or_eq_true_iff.1 h with hupper | hlower
    · exact (of_decide_eq_true hupper).1
    · exact UInt32.le_trans (by decide) (of_decide_eq_true (Bool.and_eq_true_iff.1 hlower).1)
  have hhigh : c.val ≤ '9'.val := of_decide_eq_true (Bool.and_eq_true_iff.1 hdigit).2
  exact absurd (UInt32.le_trans hlow hhigh) (by decide)

/-- A name is a word, and the word is that name in some letter case. -/
theorem Names.isWord {name : String} {text : List Char} (h : Names name text) (hsome : name ≠ "")
    (hname : name.toList.all Char.isLower = true) :
    (Word.atom text).Legible ∧ (Word.atom text).token = .atom (.word (String.ofList text))
      ∧ (String.ofList text).toLower = name := by
  have halpha : ∀ c ∈ text, c.isAlpha = true := by
    intro c hc
    refine isAlpha_of_isLower_toLower (List.all_eq_true.1 hname _ ?_)
    rw [← h]
    exact List.mem_map_of_mem hc
  cases text with
  | nil => exact absurd (String.toList_eq_nil_iff.1 h.symm) hsome
  | cons c text =>
    refine ⟨⟨by simp, fun d hd => isAtomChar_of_isAlphanum ?_⟩, ?_, ?_⟩
    · simp [Char.isAlphanum, halpha d hd]
    · have hc := halpha c List.mem_cons_self
      have hinteger : Text.integer? (c :: text) = none := by
        refine Text.integer?_cons_eq_none ?_ ?_ ?_ text
        · exact isDigit_eq_false_of_isAlpha hc
        · rintro rfl
          exact absurd hc (by decide)
        · rintro rfl
          exact absurd hc (by decide)
      simp [Word.token, Atom.ofText, hinteger]
    · rw [← String.toList_inj, toList_toLower, String.toList_ofList]
      exact h

theorem Direction.isLower_name (direction : Direction) :
    direction.name ≠ "" ∧ direction.name.toList.all Char.isLower = true := by
  cases direction <;> decide

/-- Counts are put into words that are read as those counts. -/
def ReadBack (counts : List Word → RepeatCount → Prop) : Prop :=
  ∀ number count, counts number count →
    (number = [] ∧ count = .standard)
      ∨ ∃ text, number = [.atom text] ∧ (Word.atom text).Legible ∧ (Atom.ofText text).count = count

/-- A count in decimal is read as that count. -/
theorem readBack_inDecimal : ReadBack InDecimal := by
  rintro number count ⟨hnumeral⟩
  rename_i digits
  refine .inr ⟨digits, rfl, ⟨hnumeral.ne_nil, fun c hc => isAtomChar_of_isAlphanum ?_⟩, ?_⟩
  · simp [Char.isAlphanum, hnumeral.isDigit c hc]
  · have hmax := count.le_maximum
    have hinteger : Text.integer? digits = some (count.val : Int) :=
      Text.integer?_eq_some_iff.2 (.unsigned hnumeral)
    have hatom : Atom.ofText digits = .integer count.val := by
      rw [Atom.ofText, hinteger]
      exact if_pos (by omega)
    rw [hatom, Atom.count]
    exact RepeatCount.ofInt_val count

section Spells

variable {counts : List Word → RepeatCount → Prop}

mutual

/-- The words of a form are legible, and mean that form. -/
theorem Spells.isForm (hcounts : ReadBack counts) {words : List Word} {block : Block}
    (h : Spells counts words block) :
    (∀ word ∈ words, word.Legible) ∧ IsForm (words.map Word.token) block := by
  match h with
  | .start hname =>
    obtain ⟨hlegible, htoken, hword⟩ := hname.isWord (by decide) (by decide)
    refine ⟨by simp [hlegible], ?_⟩
    simp only [List.map_cons, htoken]
    exact .start hword
  | .eat hname =>
    obtain ⟨hlegible, htoken, hword⟩ := hname.isWord (by decide) (by decide)
    refine ⟨by simp [hlegible], ?_⟩
    simp only [List.map_cons, htoken]
    exact .eat hword
  | @Spells.move _ _ _ direction hname hgoal =>
    obtain ⟨hlegible, htoken, hword⟩ := hname.isWord (by decide) (by decide)
    obtain ⟨hsome, hlower⟩ := Direction.isLower_name direction
    obtain ⟨hlegible', htoken', hword'⟩ := hgoal.isWord hsome hlower
    refine ⟨by simp [hlegible, hlegible'], ?_⟩
    simp only [List.map_cons, htoken, htoken']
    exact .move hword hword'
  | .loop hname hcount hbody =>
    obtain ⟨hlegible, htoken, hword⟩ := hname.isWord (by decide) (by decide)
    obtain ⟨hlegible', hbody⟩ := hbody.areForms hcounts
    rcases hcounts _ _ hcount with ⟨rfl, rfl⟩ | ⟨text, rfl, hlegible'', rfl⟩
    · refine ⟨by simpa [hlegible, or_imp, forall_and] using hlegible', ?_⟩
      simp only [List.map_cons, List.nil_append, List.map_append, htoken]
      exact .loop hword hbody
    · refine ⟨by simpa [hlegible, hlegible'', or_imp, forall_and] using hlegible', ?_⟩
      simp only [List.map_cons, List.cons_append, List.nil_append, List.map_append, htoken]
      exact .loopOf (Atom.ofText text) hword hbody

/-- The words of a list of forms are legible, and mean those forms. -/
theorem SpellsAll.areForms (hcounts : ReadBack counts) {words : List Word} {blocks : List Block}
    (h : SpellsAll counts words blocks) :
    (∀ word ∈ words, word.Legible) ∧ AreForms (words.map Word.token) blocks := by
  match h with
  | .nil => exact ⟨by simp, .nil⟩
  | .cons hform hrest =>
    obtain ⟨hlegible, hform⟩ := hform.isForm hcounts
    obtain ⟨hlegible', hrest⟩ := hrest.areForms hcounts
    refine ⟨fun word hword => (List.mem_append.1 hword).elim (hlegible word) (hlegible' word), ?_⟩
    rw [List.map_append]
    exact .cons hform hrest

end

/-- A text that writes some blocks is read as those blocks. -/
theorem Writes.blocks_eq (hcounts : ReadBack counts) {text : List Char} {blocks : List Block}
    (h : Writes counts text blocks) : Script.blocks text = .ok blocks := by
  obtain ⟨words, hspells, hlaidOut⟩ := h
  obtain ⟨hlegible, hforms⟩ := hspells.areForms hcounts
  refine blocks_of_areForms ?_
  rwa [lexemes_eq, hlaidOut.tokens_eq hlegible]

end Spells

/-! ## Every list of blocks can be written -/

theorem Direction.names_name (direction : Direction) :
    Names direction.name direction.name.toList := by
  cases direction <;> decide

mutual

theorem exists_spells (block : Block) : ∃ words, Spells InDecimal words block := by
  match block with
  | .start => exact ⟨_, .start (by decide : Names "start" "start".toList)⟩
  | .eat => exact ⟨_, .eat (by decide : Names "eat" "eat".toList)⟩
  | .move direction =>
    have hname : Names "move" "move".toList := by decide
    exact ⟨_, .move hname (Direction.names_name direction)⟩
  | .loop count body =>
    have hname : Names "repeat" "repeat".toList := by decide
    obtain ⟨words, hbody⟩ := exists_spellsAll body
    exact ⟨_, .loop hname (.digits (Text.isNumeral_toDigits count.val)) hbody⟩

theorem exists_spellsAll (blocks : List Block) : ∃ words, SpellsAll InDecimal words blocks := by
  match blocks with
  | [] => exact ⟨_, .nil⟩
  | block :: blocks =>
    obtain ⟨form, hform⟩ := exists_spells block
    obtain ⟨rest, hrest⟩ := exists_spellsAll blocks
    exact ⟨_, .cons hform hrest⟩

end

end Script

/-- **Every list of blocks can be written as a script, and is read back from it, whatever the
layout.**  A text writes some blocks if its words are the forms of those blocks — names in any
letter case, counts in decimal — and if all else in it is blanks and comments; they can be left out
wherever no two atoms run together.  Every such text is accepted, and the program has the given name
and exactly those blocks. -/
theorem Program.ofScript_laidOut (name : String) (blocks : List Block) :
    (∃ text : String, Script.Writes Script.InDecimal text.toList blocks)
      ∧ ∀ text : String, Script.Writes Script.InDecimal text.toList blocks →
          Program.ofScript name text = .ok { name, blocks } := by
  constructor
  · obtain ⟨words, hspells⟩ := Script.exists_spellsAll blocks
    obtain ⟨text, hlaidOut⟩ := Script.exists_laidOut words false
    refine ⟨String.ofList text, words, hspells, ?_⟩
    rwa [String.toList_ofList]
  · intro text h
    rw [Program.ofScript, h.blocks_eq Script.readBack_inDecimal]
    rfl

/-- A space is needed only before the count, and a comment may contain anything. -/
theorem Program.ofScript_laidOut_comments :
    Program.ofScript "demo" "(Repeat 03;é(\n(EAT)); end"
      = .ok { name := "demo", blocks := [.loop (.ofInt 3) [.eat]] } := by
  have hrepeat : Script.Names "repeat" "Repeat".toList := by decide
  have heat : Script.Names "eat" "EAT".toList := by decide
  have hcount : Script.InDecimal [.atom "03".toList] (.ofInt 3) :=
    .digits ⟨by decide, List.all_eq_true.1 (by decide), by decide⟩
  have hcomment : Script.IsGap (';' :: ("é(".toList ++ ['\n'])) :=
    .comment (by decide) .nil
  have hend : Script.IsLastGap (';' :: " end".toList) := .comment .nil (by decide)
  refine (Program.ofScript_laidOut "demo" _).2 _
    ⟨_, .cons (.loop hrepeat hcount (.cons (.eat heat) .nil)) .nil, ?_⟩
  exact .word .nil (by decide) <| .word .nil (by decide) <|
    .word (.blank (c := ' ') (by decide) .nil) (by decide) <| .word hcomment (by decide) <|
    .word .nil (by decide) <| .word .nil (by decide) <| .word .nil (by decide) <| .last hend

end BlockScript
