import BlockScript.Proofs.Script.Scanner

/-!
# The slices of a script

A scanner that goes through the bytes of a script cuts it into slices.  This file proves that they
are the lexemes of the script, that what is left out between them is blanks and comments, and that
every cut is between two characters, so that each slice is a text of its own.

## What is here

* `Script.Tiled` — gaps and slices take turns in a text.
* `Script.Slice.Sound` — what can be relied on for every slice; `Script.Tiled.sound` says that all
  slices of a tiled text are sound.
* `Script.scan_tiles` — **a scanner comes to its end, its slices tile the text, and they are the
  lexemes**.
-/

set_option autoImplicit false
namespace BlockScript.Script

open Json (ascii bytes bytes_append toList_toUTF8)

/-! ## Slices that tile a text -/

namespace Slice

variable (text : String) (slice : Slice)

/-- The bytes ahead of a slice. -/
def front : List UInt8 := text.toUTF8.toList.take slice.start

/-- The bytes of a slice. -/
def content : List UInt8 := (text.toUTF8.toList.take slice.stop).drop slice.start

/-- The bytes after a slice. -/
def back : List UInt8 := text.toUTF8.toList.drop slice.stop

/-- A slice has the line and the characters of a lexeme. -/
structure Holds (lexeme : Lexeme) : Prop where
  line : slice.line = lexeme.line
  content : slice.content text = bytes lexeme.text

/-- A slice of bytes that could be extended on neither side. -/
structure IsAtom : Prop where
  mem : ∀ b ∈ slice.content text, isAtomByte b = true
  front : ∀ b ∈ (slice.front text).getLast?, isAtomByte b = false
  back : ∀ b ∈ (slice.back text).head?, isAtomByte b = false

/-- What can be relied on for every slice: it has some bytes, it begins and ends between two
characters, its line is counted by the newlines ahead of it, and it is a parenthesis or an atom. -/
structure Sound : Prop where
  start_lt : slice.start < slice.stop
  stop_le : slice.stop ≤ text.utf8ByteSize
  start_isValid : (String.Pos.Raw.mk slice.start).IsValid text
  stop_isValid : (String.Pos.Raw.mk slice.stop).IsValid text
  line : slice.line = 1 + (slice.front text).count (ascii '\n')
  kind : slice.content text = [ascii '('] ∨ slice.content text = [ascii ')'] ∨ slice.IsAtom text

end Slice

/-- In a text that comes behind some other characters, gaps and slices take turns. -/
inductive Tiled : List Char → List Char → List Slice → Prop where
  | last {front gap : List Char} (hgap : IsLastGap gap) : Tiled front gap []
  | slice {front gap word back : List Char} {slices : List Slice} (hgap : IsGap gap)
    (hword : IsLexeme word back) (hback : Tiled (front ++ gap ++ word) back slices) :
    Tiled front (gap ++ (word ++ back)) (Slice.ofWord (front ++ gap) word :: slices)

section

variable {text : String} {front word rest : List Char}

theorem Slice.front_ofWord (h : text.toList = front ++ (word ++ rest)) :
    (ofWord front word).front text = bytes front := by
  rw [Slice.front, toList_toUTF8, h, bytes_append, ofWord, List.take_left]

theorem Slice.back_ofWord (h : text.toList = front ++ (word ++ rest)) :
    (ofWord front word).back text = bytes rest := by
  rw [Slice.back, toList_toUTF8, h, ← List.append_assoc, bytes_append, ofWord, List.drop_left]

theorem Slice.content_ofWord (h : text.toList = front ++ (word ++ rest)) :
    (ofWord front word).content text = bytes word := by
  rw [Slice.content, toList_toUTF8, h, ← List.append_assoc, bytes_append, ofWord, List.take_left,
    bytes_append, List.drop_left]

/-- Between characters a position is a valid one. -/
theorem isValid_length_bytes (h : text.toList = front ++ rest) :
    (String.Pos.Raw.mk (bytes front).length).IsValid text := by
  rw [String.Pos.Raw.isValid_iff_exists_append]
  refine ⟨String.ofList front, String.ofList rest, ?_, ?_⟩
  · rw [← String.ofList_append, ← h, String.ofList_toList]
  · rw [length_bytes]
    rfl

/-! ### The left edge -/

/-- No atom runs on from one part of a text into the next. -/
def Apart (front rest : List Char) : Prop :=
  (∀ c ∈ front.getLast?, isAtomChar c = false) ∨ ∀ c ∈ rest.head?, isAtomChar c = false

theorem IsGap.getLast_not_isAtomChar {gap : List Char} (h : IsGap gap) :
    ∀ c ∈ gap.getLast?, isAtomChar c = false := by
  have hlast : ∀ {c : Char} {rest : List Char}, isAtomChar c = false →
      (∀ d ∈ rest.getLast?, isAtomChar d = false) →
      ∀ d ∈ (c :: rest).getLast?, isAtomChar d = false := by
    intro c rest hc hrest d hd
    rw [List.getLast?_cons] at hd
    obtain rfl := Option.some.inj hd
    cases hend : rest.getLast? with
    | none => exact hc
    | some last => exact hrest last hend
  induction h with
  | nil => simp
  | blank hblank hrest ih =>
    have hstops := not_isAtomChar_iff.2 (List.mem_append_left ['(', ')', ';'] hblank)
    exact hlast hstops ih
  | @comment content rest hcontent hrest ih =>
    have hline := hlast (c := '\n') (by decide) ih
    rw [← List.cons_append, List.getLast?_append_of_ne_nil _ (List.cons_ne_nil _ _)]
    exact hline

/-- The slice of a lexeme can be relied on. -/
theorem Slice.sound_ofWord (htext : text.toList = front ++ (word ++ rest))
    (hword : IsLexeme word rest) (hapart : Apart front word) :
    (Slice.ofWord front word).Sound text := by
  have hbehind : text.toList = (front ++ word) ++ rest := by rw [htext, List.append_assoc]
  refine ⟨?_, ?_, isValid_length_bytes htext, isValid_length_bytes hbehind, ?_, ?_⟩
  · have hsome := List.length_pos_iff.2 (bytes_ne_nil hword.ne_nil)
    simp only [ofWord, bytes_append, List.length_append]
    omega
  · rw [← String.ofList_toList (s := text), ← length_bytes, hbehind, bytes_append (front ++ word),
      List.length_append]
    exact Nat.le_add_right _ _
  · rw [front_ofWord htext, count_bytes_newline]
    rfl
  · rcases hword with (rfl | rfl) | ⟨hne, hchars, hrest⟩
    · exact .inl (content_ofWord htext)
    · exact .inr (.inl (content_ofWord htext))
    · -- An atom has a first character, so it is apart only if nothing of an atom is ahead of it.
      refine .inr (.inr ⟨fun b hb => ?_, fun b hb => ?_, fun b hb => ?_⟩)
      · rw [content_ofWord htext] at hb
        obtain ⟨c, hc, hmem⟩ := exists_of_mem_bytes hb
        exact (isAtomByte_of_mem hmem).trans (hchars c hc)
      · rw [front_ofWord htext] at hb
        obtain ⟨c, hc, hmem⟩ := exists_of_getLast?_bytes hb
        rw [isAtomByte_of_mem hmem]
        refine hapart.elim (fun hfront => hfront c hc) fun hhead => ?_
        obtain ⟨d, others, rfl⟩ := List.exists_cons_of_ne_nil hne
        exact absurd ((hhead d rfl).symm.trans (hchars d List.mem_cons_self)) (by decide)
      · rw [back_ofWord htext] at hb
        obtain ⟨c, hc, hmem⟩ := exists_of_head?_bytes hb
        exact (isAtomByte_of_mem hmem).trans (hrest c hc)

/-- **Every slice of a tiled text can be relied on.** -/
theorem Tiled.sound {slices : List Slice} (h : Tiled front rest slices)
    (htext : text.toList = front ++ rest) (hapart : Apart front rest) :
    ∀ slice ∈ slices, slice.Sound text := by
  induction h with
  | last hgap => exact fun slice hmem => nomatch hmem
  | @slice front gap word back slices hgap hword hback ih =>
    have hbehind : text.toList = (front ++ gap) ++ (word ++ back) := by
      rw [htext, List.append_assoc]
    obtain ⟨first, others, hfirst⟩ := List.exists_cons_of_ne_nil hword.ne_nil
    have hleft : Apart (front ++ gap) word := by
      rcases List.eq_nil_or_concat gap with rfl | ⟨most, last, rfl⟩
      · rw [List.append_nil]
        rw [hfirst] at hapart ⊢
        exact hapart
      · rw [List.concat_eq_append, Apart,
          List.getLast?_append_of_ne_nil _ (List.append_ne_nil_of_right_ne_nil _
            (List.cons_ne_nil _ _)), ← List.concat_eq_append]
        exact .inl hgap.getLast_not_isAtomChar
    have hright : Apart (front ++ gap ++ word) back := by
      rcases hword with (rfl | rfl) | ⟨-, -, hrest⟩
      · exact .inl (by simp [isAtomChar])
      · exact .inl (by simp [isAtomChar])
      · exact .inr hrest
    intro slice hmem
    rcases List.mem_cons.1 hmem with rfl | hmem
    · exact Slice.sound_ofWord hbehind hword hleft
    · exact ih (by rw [hbehind, List.append_assoc (front ++ gap)]) hright slice hmem

/-! ## The slices are the lexemes -/

/-- A scanner that has passed some characters finds the lexemes of the rest. -/
theorem Scanner.exists_finds {line : Nat} (htext : text.toList = front ++ rest)
    (hline : line = 1 + front.count '\n') :
    ∃ slices, Scanner.Finds text.toUTF8 (Scanner.after front) slices ∧ Tiled front rest slices
      ∧ List.Forall₂ (Slice.Holds text) slices (lexemesAt line rest) := by
  have hleft : (Scanner.after front).left text.toUTF8 = bytes rest := by
    rw [Scanner.left, toList_toUTF8, htext, bytes_append, Scanner.after, List.drop_left]
  fun_induction lexemesAt line rest generalizing front with
  | case1 line rest hnext =>
    have hgap := Lexeme.isLastGap_of_next?_eq_none hnext
    exact ⟨[], .done (Scanner.next?_eq_none hgap hleft), .last hgap, .nil⟩
  | case2 line rest lexeme back hnext ih =>
    obtain ⟨gap, hgap, rfl, hlexeme, hnewline, hword⟩ := Lexeme.next?_gap hnext
    have hbehind : text.toList = (front ++ gap) ++ (lexeme.text ++ back) := by
      rw [htext, List.append_assoc]
    have hafter : text.toList = (front ++ gap ++ lexeme.text) ++ back := by
      rw [hbehind, List.append_assoc (front ++ gap)]
    obtain ⟨slices, hfinds, htiled, hholds⟩ := ih hafter
      (by rw [List.count_append, List.count_append, hnewline]; omega)
      (by rw [Scanner.left, toList_toUTF8, hafter, bytes_append, Scanner.after, List.drop_left])
    refine ⟨_, .next (Scanner.next?_eq_some hgap hword hleft) hfinds, .slice hgap hword htiled,
      .cons ⟨?_, ?_⟩ hholds⟩
    · rw [hlexeme, hline, Nat.add_assoc, ← List.count_append]
      rfl
    · exact Slice.content_ofWord hbehind

/-- **A script can be scanned byte by byte.**  A scanner that is asked for one slice after another
comes to the end of the text; its slices and the gaps between them make up the text; they are the
lexemes, line by line and character by character; and every one of them is sound. -/
theorem scan_tiles (text : String) :
    ∃ slices, Scanner.Finds text.toUTF8 {} slices ∧ Tiled [] text.toList slices
      ∧ List.Forall₂ (Slice.Holds text) slices (lexemes text.toList)
      ∧ ∀ slice ∈ slices, slice.Sound text := by
  have htext : text.toList = [] ++ text.toList := rfl
  obtain ⟨slices, hfinds, htiled, hholds⟩ := Scanner.exists_finds htext rfl
  exact ⟨slices, hfinds, htiled, lexemes_eq text.toList ▸ hholds,
    htiled.sound rfl (.inl (by simp))⟩

end

end BlockScript.Script
