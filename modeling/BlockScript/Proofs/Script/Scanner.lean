import BlockScript.Proofs.Json.Strings
import BlockScript.Proofs.Script.Layout

/-!
# Scanning a script byte by byte

The lexemes of a script are runs of characters, but a script is kept as bytes.  A scanner can go
through the bytes as if it knew nothing of characters: it stops only at blanks, parentheses and
semicolons, and none of these bytes is ever a part of another character.  This file says what such
a scanner does with the bytes of a gap and of a lexeme.

## What is here

* `Script.skipGap_split` and `Script.Lexeme.next?_gap` — what stands between two lexemes is a gap.
* `Script.isAtomByte` — the bytes of an atom are those of its characters, and no others.
* `Script.Slice` — a stretch of a script by its positions, with the line where it begins.
* `Script.Scanner` — how far the bytes of a script have been scanned; `Script.Scanner.next?` goes on
  to the next slice, and `Script.Scanner.Finds` says which slices are found until the end.
* `Script.Scanner.next?_eq_some` and `Script.Scanner.next?_eq_none` — **the next slice is the next
  lexeme**, and after the last one there is none.
-/

set_option autoImplicit false
namespace BlockScript.Script

open Json (ascii bytes ascii_inj toNat_ascii bytes_append bytes_cons bytes_cons_of_lt
  utf8EncodeChar_of_lt le_of_mem_utf8EncodeChar toList_eq_toList_data toList_toUTF8_ofList)

/-! ## Gaps between lexemes -/

theorem IsGap.append {gap more : List Char} (h : IsGap gap) (hmore : IsGap more) :
    IsGap (gap ++ more) := by
  induction h with
  | nil => exact hmore
  | blank hblank hrest ih => exact .blank hblank ih
  | comment hcontent hrest ih =>
    rw [List.cons_append, List.append_assoc]
    exact .comment hcontent ih

theorem IsGap.appendLast {gap more : List Char} (h : IsGap gap) (hmore : IsLastGap more) :
    IsLastGap (gap ++ more) := by
  cases hmore with
  | gap hgap => exact .gap (h.append hgap)
  | comment hgap hcontent =>
    rw [← List.append_assoc]
    exact .comment (h.append hgap) hcontent

/-- A comment may have one more character ahead. -/
theorem IsGap.lengthen {c : Char} {gap : List Char} (h : IsGap (';' :: gap)) (hc : c ≠ '\n') :
    IsGap (';' :: c :: gap) := by
  generalize hwhole : ';' :: gap = whole at h
  cases h with
  | nil => cases hwhole
  | blank hblank hrest =>
    obtain ⟨rfl, -⟩ := List.cons.inj hwhole
    exact absurd hblank (by decide)
  | @comment content rest hcontent hrest =>
    obtain ⟨-, rfl⟩ := List.cons.inj hwhole
    rw [← List.cons_append]
    exact .comment (by simp [hcontent, hc.symm]) hrest

theorem IsLastGap.lengthen {c : Char} {gap : List Char} (h : IsLastGap (';' :: gap))
    (hc : c ≠ '\n') : IsLastGap (';' :: c :: gap) := by
  generalize hwhole : ';' :: gap = whole at h
  cases h with
  | gap hgap => exact .gap ((hwhole ▸ hgap).lengthen hc)
  | @comment before content hgap hcontent =>
    cases hgap with
    | nil =>
      obtain ⟨-, rfl⟩ := List.cons.inj hwhole
      have hlonger : '\n' ∉ c :: gap := by simp [hcontent, hc.symm]
      exact .comment .nil hlonger
    | blank hblank hrest =>
      obtain ⟨rfl, -⟩ := List.cons.inj hwhole
      exact absurd hblank (by decide)
    | @comment earlier rest hearlier hrest =>
      obtain ⟨-, rfl⟩ := List.cons.inj hwhole
      have hlonger : '\n' ∉ c :: earlier := by simp [hearlier, hc.symm]
      simpa using IsLastGap.comment (.comment hlonger hrest) hcontent

/-- What is skipped is a gap, with the semicolon of the comment ahead of it if that is skipped from
the inside.  It need not be complete if it goes on to the end of the text. -/
theorem skipGap_split (inComment : Bool) (line : Nat) (text : List Char) :
    ∃ gap, text = gap ++ (skipGap inComment line text).2
      ∧ ((skipGap inComment line text).2 = [] →
        IsLastGap ((if inComment then [';'] else []) ++ gap))
      ∧ ((skipGap inComment line text).2 ≠ [] →
        IsGap ((if inComment then [';'] else []) ++ gap)) := by
  fun_induction skipGap inComment line text with
  | case1 inComment line =>
    refine ⟨[], rfl, fun _ => ?_, fun hne => absurd rfl hne⟩
    cases inComment with
    | true => exact .comment .nil List.not_mem_nil
    | false => exact .gap .nil
  | case2 inComment line rest ih =>
    obtain ⟨gap, hgap, hlast, hmore⟩ := ih
    have hline : IsGap ((if inComment then [';'] else []) ++ ['\n']) := by
      cases inComment with
      | true => exact .comment List.not_mem_nil .nil
      | false => exact .blank (by decide) .nil
    refine ⟨'\n' :: gap, congrArg ('\n' :: ·) hgap, fun hnil => ?_, fun hne => ?_⟩
    · simpa using hline.appendLast (hlast hnil)
    · simpa using hline.append (hmore hne)
  | case3 inComment line c rest hnewline hskip ih =>
    obtain ⟨gap, hgap, hlast, hmore⟩ := ih
    refine ⟨c :: gap, congrArg (c :: ·) hgap, fun hnil => ?_, fun hne => ?_⟩
    · cases inComment with
      | true => exact (hlast hnil).lengthen hnewline
      | false => exact (IsGap.blank (by simpa [Text.isAsciiBlank, or_assoc] using hskip)
          .nil).appendLast (hlast hnil)
    · cases inComment with
      | true => exact (hmore hne).lengthen hnewline
      | false => exact .blank (by simpa [Text.isAsciiBlank, or_assoc] using hskip) (hmore hne)
  | case4 inComment line rest hnewline hskip ih =>
    obtain ⟨gap, hgap, hlast, hmore⟩ := ih
    have hfalse : inComment = false := by
      cases inComment with
      | true => exact absurd rfl hskip
      | false => rfl
    subst hfalse
    exact ⟨';' :: gap, congrArg (';' :: ·) hgap, hlast, hmore⟩
  | case5 inComment line c rest hnewline hskip hsemicolon =>
    have hfalse : inComment = false := by
      cases inComment with
      | true => exact absurd rfl hskip
      | false => rfl
    subst hfalse
    exact ⟨[], rfl, fun hnil => absurd hnil (List.cons_ne_nil _ _), fun _ => .nil⟩

/-- Characters that are a lexeme if some text comes after them: a parenthesis, or an atom that the
text does not continue. -/
def IsLexeme (word back : List Char) : Prop :=
  (word = ['('] ∨ word = [')'])
    ∨ (word ≠ [] ∧ (∀ c ∈ word, isAtomChar c = true) ∧ ∀ c ∈ back.head?, isAtomChar c = false)

theorem IsLexeme.ne_nil {word back : List Char} (h : IsLexeme word back) : word ≠ [] := by
  rcases h with (rfl | rfl) | ⟨hne, -, -⟩
  · exact List.cons_ne_nil _ _
  · exact List.cons_ne_nil _ _
  · exact hne

/-- **What stands ahead of the first lexeme of a text is a gap.** -/
theorem Lexeme.next?_gap {line : Nat} {text rest : List Char} {lexeme : Lexeme}
    (h : next? line text = some (lexeme, rest)) :
    ∃ gap, IsGap gap ∧ text = gap ++ (lexeme.text ++ rest)
      ∧ lexeme.line = line + gap.count '\n' ∧ lexeme.text.count '\n' = 0
      ∧ IsLexeme lexeme.text rest := by
  obtain ⟨front, htext, hline, hnewline⟩ := next?_split h
  obtain ⟨start, c, after, hskip, hcases⟩ := next?_cases h
  obtain ⟨gap, hgap, -, hmore⟩ := skipGap_split false line text
  rw [hskip] at hgap hmore
  have hlexeme : c :: after = lexeme.text ++ rest ∧ IsLexeme lexeme.text rest := by
    rcases hcases with ⟨hparen, rfl, rfl⟩ | ⟨-, hc, rfl, rfl⟩
    · refine ⟨rfl, .inl ?_⟩
      rcases hparen with rfl | rfl
      · exact .inl rfl
      · exact .inr rfl
    · refine ⟨congrArg (c :: ·) List.takeWhile_append_dropWhile.symm, .inr ?_⟩
      refine ⟨List.cons_ne_nil _ _, ?_, Text.head_dropWhile isAtomChar after⟩
      exact List.forall_mem_cons.2 ⟨hc, List.all_eq_true.1 List.all_takeWhile⟩
  obtain ⟨hword, hislexeme⟩ := hlexeme
  have hsame : gap = front := by
    rw [htext] at hgap
    rw [hword] at hgap
    exact (List.append_cancel_right hgap).symm
  subst hsame
  exact ⟨gap, hmore (List.cons_ne_nil _ _), htext, hline, hnewline, hislexeme⟩

theorem Lexeme.isLastGap_of_next?_eq_none {line : Nat} {text : List Char}
    (h : next? line text = none) : IsLastGap text := by
  rw [next?_eq_none_iff] at h
  obtain ⟨gap, hgap, hlast, -⟩ := skipGap_split false line text
  rw [h, List.append_nil] at hgap
  exact hgap ▸ hlast h

/-! ## Bytes of characters -/

/-- Whether a byte is one of the ASCII blanks. -/
def isBlankByte (b : UInt8) : Bool :=
  b = ascii ' ' || b = ascii '\t' || b = ascii '\n' || b = ascii '\x0c' || b = ascii '\r'

/-- Whether a byte can stand in an atom. -/
def isAtomByte (b : UInt8) : Bool :=
  !(isBlankByte b || b = ascii '(' || b = ascii ')' || b = ascii ';')

/-- A byte of a character is an ASCII character only if that is the character. -/
theorem eq_ascii_iff {c d : Char} (hd : d.toNat < 128) {b : UInt8}
    (hmem : b ∈ String.utf8EncodeChar c) : b = ascii d ↔ c = d := by
  by_cases hc : c.toNat < 128
  · rw [utf8EncodeChar_of_lt hc, List.mem_singleton] at hmem
    subst hmem
    refine ⟨fun heq => ascii_inj (by omega) (by omega) heq, fun heq => heq ▸ rfl⟩
  · have hupper := le_of_mem_utf8EncodeChar (Nat.not_lt.1 hc) hmem
    constructor
    · rintro rfl
      rw [toNat_ascii (by omega)] at hupper
      omega
    · rintro rfl
      exact absurd hd hc

/-- **Each byte of a character can stand in an atom exactly if the character can.** -/
theorem isAtomByte_of_mem {c : Char} {b : UInt8} (hmem : b ∈ String.utf8EncodeChar c) :
    isAtomByte b = isAtomChar c := by
  simp only [isAtomByte, isBlankByte, isAtomChar, Text.isAsciiBlank,
    eq_ascii_iff (d := ' ') (by decide) hmem, eq_ascii_iff (d := '\t') (by decide) hmem,
    eq_ascii_iff (d := '\n') (by decide) hmem, eq_ascii_iff (d := '\x0c') (by decide) hmem,
    eq_ascii_iff (d := '\r') (by decide) hmem, eq_ascii_iff (d := '(') (by decide) hmem,
    eq_ascii_iff (d := ')') (by decide) hmem, eq_ascii_iff (d := ';') (by decide) hmem]

/-- There are as many newline bytes as newlines. -/
theorem count_bytes_newline (chars : List Char) :
    (bytes chars).count (ascii '\n') = chars.count '\n' := by
  induction chars with
  | nil => rfl
  | cons c chars ih =>
    rw [bytes_cons, List.count_append, ih]
    by_cases hc : c = '\n'
    · subst hc
      rw [utf8EncodeChar_of_lt (by decide), List.count_cons_self, List.count_cons_self,
        List.count_nil]
      omega
    · have hnone : ascii '\n' ∉ String.utf8EncodeChar c :=
        fun hmem => hc ((eq_ascii_iff (by decide) hmem).1 rfl)
      rw [List.count_eq_zero_of_not_mem hnone, Nat.zero_add, List.count_cons_of_ne hc]

/-- The bytes of some characters come from them. -/
theorem exists_of_mem_bytes {chars : List Char} {b : UInt8} (h : b ∈ bytes chars) :
    ∃ c ∈ chars, b ∈ String.utf8EncodeChar c := List.mem_flatMap.1 h

/-- The first byte of some characters is one of their first character. -/
theorem exists_of_head?_bytes {chars : List Char} {b : UInt8} (h : b ∈ (bytes chars).head?) :
    ∃ c ∈ chars.head?, b ∈ String.utf8EncodeChar c := by
  cases chars with
  | nil => cases h
  | cons c chars =>
    refine ⟨c, rfl, ?_⟩
    rw [bytes_cons, List.head?_append_of_ne_nil _ (by simp)] at h
    exact List.mem_of_mem_head? h

/-- The last byte of some characters is one of their last character. -/
theorem exists_of_getLast?_bytes {chars : List Char} {b : UInt8} (h : b ∈ (bytes chars).getLast?) :
    ∃ c ∈ chars.getLast?, b ∈ String.utf8EncodeChar c := by
  rcases List.eq_nil_or_concat chars with rfl | ⟨others, c, rfl⟩
  · cases h
  · refine ⟨c, by simp, ?_⟩
    rw [List.concat_eq_append, bytes_append, bytes_cons, Json.bytes_nil, List.append_nil,
      List.getLast?_append_of_ne_nil _ (by simp)] at h
    exact List.mem_of_getLast? h

theorem length_bytes (chars : List Char) :
    (bytes chars).length = (String.ofList chars).utf8ByteSize := by
  rw [← toList_toUTF8_ofList, toList_eq_toList_data, String.toUTF8_eq_toByteArray,
    Array.length_toList]
  rfl

theorem bytes_ne_nil {chars : List Char} (h : chars ≠ []) : bytes chars ≠ [] := by
  obtain ⟨c, chars, rfl⟩ := List.exists_cons_of_ne_nil h
  rw [bytes_cons]
  simp

/-! ## Scanning bytes -/

/-- A stretch of a text, by the positions of its bytes. -/
structure Slice where
  /-- The line on which it begins, counted from one. -/
  line : Nat
  /-- The position of its first byte. -/
  start : Nat
  /-- The position after its last byte. -/
  stop : Nat
  deriving DecidableEq, Repr

/-- The slice of a word behind some other characters. -/
def Slice.ofWord (front word : List Char) : Slice where
  line := 1 + front.count '\n'
  start := (bytes front).length
  stop := (bytes (front ++ word)).length

/-- How far the bytes of a script have been scanned. -/
structure Scanner where
  /-- The position of the byte that comes next. -/
  pos : Nat := 0
  /-- The line of that byte, counted from one. -/
  line : Nat := 1

namespace Scanner

variable (text : ByteArray)

/-- The byte that comes next. -/
def peek? (scanner : Scanner) : Option UInt8 := text[scanner.pos]?

/-- Goes on by one byte. -/
def bump (scanner : Scanner) : Scanner where
  pos := scanner.pos + 1
  line := if scanner.peek? text = some (ascii '\n') then scanner.line + 1 else scanner.line

theorem pos_lt_of_peek? {scanner : Scanner} {b : UInt8} (h : scanner.peek? text = some b) :
    scanner.pos < text.size := by
  by_contra hge
  rw [peek?, getElem?_neg text scanner.pos hge] at h
  cases h

/-- Goes on for as long as the next byte is of some kind. -/
def skipWhile (kind : UInt8 → Bool) (scanner : Scanner) : Scanner :=
  match _h : scanner.peek? text with
  | none => scanner
  | some b => if kind b then skipWhile kind (scanner.bump text) else scanner
termination_by text.size - scanner.pos
decreasing_by
  have := pos_lt_of_peek? text _h
  simp only [bump]
  omega

theorem pos_le_skipWhile (kind : UInt8 → Bool) (scanner : Scanner) :
    scanner.pos ≤ (scanner.skipWhile text kind).pos := by
  fun_induction skipWhile text kind scanner with
  | case1 scanner hpeek => exact Nat.le_refl _
  | case2 scanner b hpeek hkind ih => exact Nat.le_of_succ_le ih
  | case3 scanner b hpeek hkind => exact Nat.le_refl _

/-- Goes on to the next byte that is neither a blank nor in a comment. -/
def skipGap (scanner : Scanner) : Scanner :=
  match _h : scanner.peek? text with
  | none => scanner
  | some b =>
    if b = ascii ';' then skipGap ((scanner.bump text).skipWhile text (· ≠ ascii '\n'))
    else if isBlankByte b then skipGap (scanner.bump text)
    else scanner
termination_by text.size - scanner.pos
decreasing_by
  · have := pos_lt_of_peek? text _h
    have := pos_le_skipWhile text (· ≠ ascii '\n') (scanner.bump text)
    simp only [bump] at this ⊢
    omega
  · have := pos_lt_of_peek? text _h
    simp only [bump]
    omega

/-- The next slice, and how far the text has been scanned with it; nothing at the end. -/
def next? (scanner : Scanner) : Option (Slice × Scanner) :=
  let start := scanner.skipGap text
  match start.peek? text with
  | none => none
  | some b =>
    let stop :=
      if b = ascii '(' ∨ b = ascii ')' then start.bump text else start.skipWhile text isAtomByte
    some (⟨start.line, start.pos, stop.pos⟩, stop)

/-- The slices that are found if a scanner is asked for the next one again and again, until there is
none. -/
inductive Finds : Scanner → List Slice → Prop where
  | done {scanner : Scanner} (h : scanner.next? text = none) : Finds scanner []
  | next {scanner after : Scanner} {slice : Slice} {slices : List Slice}
    (h : scanner.next? text = some (slice, after)) (hrest : Finds after slices) :
    Finds scanner (slice :: slices)

/-! ### What is passed -/

/-- The bytes that a scanner has not come to. -/
def left (scanner : Scanner) : List UInt8 := text.toList.drop scanner.pos

/-- A scanner that has passed some more bytes. -/
def past (scanner : Scanner) (passed : List UInt8) : Scanner where
  pos := scanner.pos + passed.length
  line := scanner.line + passed.count (ascii '\n')

theorem past_nil (scanner : Scanner) : scanner.past [] = scanner := rfl

theorem past_append (scanner : Scanner) (passed more : List UInt8) :
    scanner.past (passed ++ more) = (scanner.past passed).past more := by
  simp only [past, List.length_append, List.count_append, Nat.add_assoc]

variable {text} {scanner : Scanner} {b : UInt8} {passed rest : List UInt8}
  {kind : UInt8 → Bool}

theorem left_past (passed : List UInt8) (h : scanner.left text = passed ++ rest) :
    (scanner.past passed).left text = rest := by
  rw [left, past, ← List.drop_drop]
  rw [left] at h
  rw [h, List.drop_left]

theorem peek?_eq (scanner : Scanner) : scanner.peek? text = (scanner.left text).head? := by
  rw [left, List.head?_drop, peek?, toList_eq_toList_data]
  by_cases hpos : scanner.pos < text.size
  · have hlist : scanner.pos < text.data.toList.length := by simpa using hpos
    rw [getElem?_pos text scanner.pos hpos, List.getElem?_eq_getElem hlist, Array.getElem_toList]
    rfl
  · have hlist : text.data.toList.length ≤ scanner.pos := by simpa using hpos
    rw [getElem?_neg text scanner.pos hpos, List.getElem?_eq_none hlist]

theorem bump_eq_past (h : scanner.left text = b :: rest) :
    scanner.bump text = scanner.past [b] := by
  have hpeek : scanner.peek? text = some b := by rw [peek?_eq, h, List.head?_cons]
  rw [bump, past, hpeek]
  by_cases hnewline : b = ascii '\n'
  · subst hnewline
    rfl
  · rw [if_neg fun heq => hnewline (Option.some.inj heq), List.count_cons_of_ne hnewline]
    rfl

theorem skipWhile_of_peek? (h : scanner.peek? text = some b) :
    scanner.skipWhile text kind
      = if kind b then (scanner.bump text).skipWhile text kind else scanner := by
  rw [skipWhile]
  split
  · next hnone => cases h.symm.trans hnone
  · next other hother =>
    obtain rfl := Option.some.inj (h.symm.trans hother)
    rfl

theorem skipGap_of_peek? (h : scanner.peek? text = some b) :
    scanner.skipGap text
      = if b = ascii ';' then ((scanner.bump text).skipWhile text (· ≠ ascii '\n')).skipGap text
        else if isBlankByte b then (scanner.bump text).skipGap text
        else scanner := by
  rw [skipGap]
  split
  · next hnone => cases h.symm.trans hnone
  · next other hother =>
    obtain rfl := Option.some.inj (h.symm.trans hother)
    rfl

/-- Bytes of one kind are passed, up to one that is not. -/
theorem skipWhile_eq_past (h : scanner.left text = passed ++ rest)
    (hpassed : ∀ b ∈ passed, kind b = true) (hrest : ∀ b ∈ rest.head?, kind b = false) :
    scanner.skipWhile text kind = scanner.past passed := by
  induction passed generalizing scanner with
  | nil =>
    rw [List.nil_append] at h
    rw [past_nil, skipWhile]
    split
    · rfl
    · next b hpeek =>
      rw [peek?_eq, h] at hpeek
      rw [if_neg (by simp [hrest b hpeek])]
  | cons b passed ih =>
    have hpeek : scanner.peek? text = some b := by rw [peek?_eq, h]; rfl
    obtain ⟨hb, hothers⟩ := List.forall_mem_cons.1 hpassed
    have hnext := left_past [b] h
    rw [skipWhile_of_peek? hpeek, if_pos hb, bump_eq_past h, ih hnext hothers, ← past_append]
    rfl

theorem skipGap_of_blank (h : scanner.left text = b :: rest) (hb : isBlankByte b = true) :
    scanner.skipGap text = (scanner.past [b]).skipGap text := by
  have hpeek : scanner.peek? text = some b := by rw [peek?_eq, h]; rfl
  have hsemicolon : b ≠ ascii ';' := by
    rintro rfl
    exact absurd hb (by decide)
  rw [skipGap_of_peek? hpeek, if_neg hsemicolon, if_pos hb, bump_eq_past h]

/-- A comment is skipped up to the end of its line. -/
theorem skipGap_of_comment (h : scanner.left text = ascii ';' :: (passed ++ rest))
    (hpassed : ∀ b ∈ passed, b ≠ ascii '\n') (hrest : ∀ b ∈ rest.head?, b = ascii '\n') :
    scanner.skipGap text = (scanner.past (ascii ';' :: passed)).skipGap text := by
  have hpeek : scanner.peek? text = some (ascii ';') := by rw [peek?_eq, h]; rfl
  have hnext := left_past [ascii ';'] h
  rw [skipGap_of_peek? hpeek, if_pos rfl, bump_eq_past h, skipWhile_eq_past hnext
    (fun b hb => decide_eq_true (hpassed b hb))
    (fun b hb => decide_eq_false (not_not_intro (hrest b hb))), ← past_append]
  rfl

/-- Where a lexeme begins, or at the end, nothing is skipped. -/
theorem skipGap_eq_self (h : ∀ b ∈ (scanner.left text).head?, isBlankByte b = false
    ∧ b ≠ ascii ';') : scanner.skipGap text = scanner := by
  rw [skipGap]
  split
  · rfl
  · next b hpeek =>
    rw [peek?_eq] at hpeek
    obtain ⟨hblank, hsemicolon⟩ := h b hpeek
    rw [if_neg hsemicolon, if_neg (by simp [hblank])]

/-- **A gap is skipped.** -/
theorem skipGap_of_isGap {gap : List Char} (hgap : IsGap gap)
    (h : scanner.left text = bytes gap ++ rest) :
    scanner.skipGap text = (scanner.past (bytes gap)).skipGap text := by
  induction hgap generalizing scanner with
  | nil => rfl
  | @blank c gap hblank hgap ih =>
    have hascii : [' ', '\t', '\n', '\x0c', '\r'].Forall fun d =>
        d.toNat < 128 ∧ isBlankByte (ascii d) = true := by decide
    obtain ⟨hc, hb⟩ := List.forall_iff_forall_mem.1 hascii c hblank
    rw [bytes_cons_of_lt hc, List.cons_append] at h
    rw [skipGap_of_blank h hb, ih (left_past [ascii c] h), ← past_append,
      bytes_cons_of_lt hc]
    rfl
  | @comment content gap hcontent hgap ih =>
    have hbytes : bytes (';' :: (content ++ '\n' :: gap))
        = ascii ';' :: bytes content ++ [ascii '\n'] ++ bytes gap := by
      rw [bytes_cons_of_lt (by decide), bytes_append, bytes_cons_of_lt (by decide)]
      simp
    have hcomment : scanner.left text
        = ascii ';' :: (bytes content ++ (ascii '\n' :: (bytes gap ++ rest))) := by
      rw [h, hbytes]
      simp
    have hnewline : ∀ b ∈ bytes content, b ≠ ascii '\n' := by
      rintro b hb rfl
      obtain ⟨c, hc, hmem⟩ := exists_of_mem_bytes hb
      exact hcontent ((eq_ascii_iff (by decide) hmem).1 rfl ▸ hc)
    have hafter := left_past (ascii ';' :: bytes content) hcomment
    have hlater := left_past [ascii '\n'] hafter
    rw [skipGap_of_comment hcomment hnewline (by simp), skipGap_of_blank hafter (by decide),
      ih hlater, ← past_append, ← past_append, hbytes, List.append_assoc]

/-- After the last gap the text is at its end. -/
theorem left_skipGap_of_isLastGap {gap : List Char} (hgap : IsLastGap gap)
    (h : scanner.left text = bytes gap) : (scanner.skipGap text).left text = [] := by
  cases hgap with
  | gap hgap =>
    rw [← List.append_nil (bytes gap)] at h
    have hend := left_past _ h
    rw [skipGap_of_isGap hgap h, skipGap_eq_self (by rw [hend]; simp), hend]
  | @comment gap content hgap hcontent =>
    have hbytes : bytes (gap ++ ';' :: content) = bytes gap ++ (ascii ';' :: (bytes content ++ []))
        := by
      rw [bytes_append, bytes_cons_of_lt (by decide), List.append_nil]
    rw [hbytes] at h
    have hnewline : ∀ b ∈ bytes content, b ≠ ascii '\n' := by
      rintro b hb rfl
      obtain ⟨c, hc, hmem⟩ := exists_of_mem_bytes hb
      exact hcontent ((eq_ascii_iff (by decide) hmem).1 rfl ▸ hc)
    have hcomment := left_past _ h
    have hend := left_past (ascii ';' :: bytes content) hcomment
    rw [skipGap_of_isGap hgap h, skipGap_of_comment hcomment hnewline (by simp),
      skipGap_eq_self (by rw [hend]; simp), hend]

/-- How far a script has been scanned when some of its characters have been passed. -/
def after (front : List Char) : Scanner := ⟨(bytes front).length, 1 + front.count '\n'⟩

theorem after_past (front more : List Char) :
    (after front).past (bytes more) = after (front ++ more) := by
  rw [past, after, after, bytes_append, List.length_append, List.count_append,
    count_bytes_newline, Nat.add_assoc]

variable {front gap word back : List Char}

/-- A byte that can stand in an atom is none of those that a scanner stops at. -/
theorem ne_of_isAtomByte (hb : isAtomByte b = true) : isBlankByte b = false
    ∧ b ≠ ascii '(' ∧ b ≠ ascii ')' ∧ b ≠ ascii ';' := by
  simpa [isAtomByte, and_assoc] using hb

theorem next?_of_paren {c : Char} (hc : c = '(' ∨ c = ')') (hgap : IsGap gap)
    (h : (after front).left text = bytes (gap ++ ([c] ++ back))) :
    (after front).next? text
      = some (Slice.ofWord (front ++ gap) [c], after (front ++ gap ++ [c])) := by
  have hascii : c.toNat < 128 := by rcases hc with rfl | rfl <;> decide
  have hparen : ascii c = ascii '(' ∨ ascii c = ascii ')' := hc.imp (congrArg _) (congrArg _)
  rw [bytes_append] at h
  have hleft := left_past _ h
  rw [after_past, List.singleton_append, bytes_cons_of_lt hascii] at hleft
  have hstart : (after front).skipGap text = after (front ++ gap) := by
    rw [skipGap_of_isGap hgap h, after_past, skipGap_eq_self]
    rw [hleft]
    rintro b ⟨⟩
    rcases hc with rfl | rfl <;> decide
  have hpeek : (after (front ++ gap)).peek? text = some (ascii c) := by
    rw [peek?_eq, hleft, List.head?_cons]
  have hbump : (after (front ++ gap)).bump text = after (front ++ gap ++ [c]) := by
    rw [bump_eq_past hleft, ← after_past (front ++ gap), bytes_cons_of_lt hascii, Json.bytes_nil]
  simp only [next?, hstart, hpeek, if_pos hparen, hbump]
  rfl

theorem next?_of_atom (hne : word ≠ []) (hword : ∀ c ∈ word, isAtomChar c = true)
    (hback : ∀ c ∈ back.head?, isAtomChar c = false) (hgap : IsGap gap)
    (h : (after front).left text = bytes (gap ++ (word ++ back))) :
    (after front).next? text
      = some (Slice.ofWord (front ++ gap) word, after (front ++ gap ++ word)) := by
  rw [bytes_append] at h
  have hleft := left_past _ h
  rw [after_past, bytes_append] at hleft
  have hpassed : ∀ b ∈ bytes word, isAtomByte b = true := by
    intro b hb
    obtain ⟨c, hc, hmem⟩ := exists_of_mem_bytes hb
    exact (isAtomByte_of_mem hmem).trans (hword c hc)
  have hstop : ∀ b ∈ (bytes back).head?, isAtomByte b = false := by
    intro b hb
    obtain ⟨c, hc, hmem⟩ := exists_of_head?_bytes hb
    exact (isAtomByte_of_mem hmem).trans (hback c hc)
  obtain ⟨b, others, hbytes⟩ := List.exists_cons_of_ne_nil (bytes_ne_nil hne)
  have hb := ne_of_isAtomByte (hpassed b (hbytes ▸ List.mem_cons_self))
  have hpeek : (after (front ++ gap)).peek? text = some b := by
    rw [peek?_eq, hleft, hbytes, List.cons_append, List.head?_cons]
  have hstart : (after front).skipGap text = after (front ++ gap) := by
    rw [skipGap_of_isGap hgap h, after_past, skipGap_eq_self]
    rw [← peek?_eq, hpeek]
    rintro _ ⟨⟩
    exact ⟨hb.1, hb.2.2.2⟩
  have hskip := skipWhile_eq_past hleft hpassed hstop
  rw [after_past] at hskip
  simp only [next?, hstart, hpeek, if_neg (not_or.2 ⟨hb.2.1, hb.2.2.1⟩), hskip]
  rfl

/-- **The lexeme after a gap is the next slice.** -/
theorem next?_eq_some (hgap : IsGap gap) (hword : IsLexeme word back)
    (h : (after front).left text = bytes (gap ++ (word ++ back))) :
    (after front).next? text
      = some (Slice.ofWord (front ++ gap) word, after (front ++ gap ++ word)) := by
  rcases hword with (rfl | rfl) | ⟨hne, hchars, hback⟩
  · exact next?_of_paren (.inl rfl) hgap h
  · exact next?_of_paren (.inr rfl) hgap h
  · exact next?_of_atom hne hchars hback hgap h

/-- **Nothing is found in the last gap.** -/
theorem next?_eq_none (hgap : IsLastGap gap) (h : scanner.left text = bytes gap) :
    scanner.next? text = none := by
  simp only [next?, peek?_eq, left_skipGap_of_isLastGap hgap h, List.head?_nil]

end Scanner

end BlockScript.Script
