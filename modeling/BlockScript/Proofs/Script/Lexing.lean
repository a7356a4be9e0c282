import BlockScript.Script.Lexeme
import Mathlib.Data.List.Basic

/-!
# Lexemes and lines

The lexemes of a script are found one after another in a single pass.  This file says what that
pass does with a text that is put together from parts: at a newline it starts afresh, whatever
stands before it.

## What is here

* `Script.lexemesAt` — the lexemes of a text that begins on a given line, one by one.
* `Script.lexemesAt_append_newline` — **at a newline the lexemes start afresh**: out of an atom,
  and out of a comment.
* `Script.Lexeme.later` — a lexeme some lines further down; `Script.lexemesAt_add` says that the
  line on which a text begins changes only the lines of its lexemes.
* `Script.lexemesAt_split` — where a lexeme stands in the text: its line is counted by the newlines
  ahead of it.
-/

set_option autoImplicit false
namespace BlockScript.Script

/-! ## One lexeme after another -/

/-- The lexemes of a text that begins on the given line. -/
def lexemesAt (line : Nat) (text : List Char) : List Lexeme :=
  match _h : Lexeme.next? line text with
  | none => []
  | some (lexeme, rest) => lexeme :: lexemesAt lexeme.line rest
termination_by text.length
decreasing_by exact Lexeme.length_next? (by assumption)

section

variable {line : Nat} {text rest : List Char} {lexeme : Lexeme}

theorem lexemesAt_of_eq_none (h : Lexeme.next? line text = none) : lexemesAt line text = [] := by
  rw [lexemesAt]
  split
  · rfl
  · next h' => rw [h] at h'; cases h'

theorem lexemesAt_of_eq_some (h : Lexeme.next? line text = some (lexeme, rest)) :
    lexemesAt line text = lexeme :: lexemesAt lexeme.line rest := by
  rw [lexemesAt]
  split
  · next h' => rw [h] at h'; cases h'
  · next h' =>
    obtain ⟨rfl, rfl⟩ := Prod.mk.inj (Option.some.inj (h.symm.trans h'))
    rfl

end

theorem toList_lexemesFrom (found : Array Lexeme) (line : Nat) (text : List Char) :
    (lexemesFrom found line text).toList = found.toList ++ lexemesAt line text := by
  fun_induction lexemesFrom found line text with
  | case1 found line text hnext => rw [lexemesAt_of_eq_none hnext, List.append_nil]
  | case2 found line text lexeme rest hnext ih =>
    rw [ih, lexemesAt_of_eq_some hnext, Array.toList_push, List.append_assoc, List.singleton_append]

theorem lexemes_eq (text : List Char) : lexemes text = lexemesAt 1 text := by
  rw [lexemes, toList_lexemesFrom, List.nil_append]

/-! ## At a newline -/

/-- What follows a newline is not part of the gap before it, nor of a comment in that gap. -/
theorem skipGap_append_newline (inComment : Bool) (line : Nat) (text more : List Char) :
    skipGap inComment line (text ++ '\n' :: more) =
      match skipGap inComment line text with
      | (line, []) => skipGap false (line + 1) more
      | (line, rest) => (line, rest ++ '\n' :: more) := by
  fun_induction skipGap inComment line text with
  | case1 inComment line => rfl
  | case2 inComment line rest ih => rw [List.cons_append, skipGap, if_pos rfl, ih]
  | case3 inComment line c rest hnewline hskip ih =>
    rw [List.cons_append, skipGap, if_neg hnewline, if_pos hskip, ih]
  | case4 inComment line rest hnewline hskip ih =>
    rw [List.cons_append, skipGap, if_neg hnewline, if_neg hskip, if_pos rfl, ih]
  | case5 inComment line c rest hnewline hskip hsemicolon =>
    rw [List.cons_append, skipGap, if_neg hnewline, if_neg hskip, if_neg hsemicolon]
    rfl

/-- A gap takes up as many lines as it has newlines. -/
theorem skipGap_line (inComment : Bool) (line : Nat) (text : List Char) :
    (skipGap inComment line text).1 + (skipGap inComment line text).2.count '\n'
      = line + text.count '\n' := by
  fun_induction skipGap inComment line text with
  | case1 inComment line => rfl
  | case2 inComment line rest ih => rw [ih, List.count_cons_self]; omega
  | case3 inComment line c rest hnewline hskip ih => rw [ih, List.count_cons_of_ne hnewline]
  | case4 inComment line rest hnewline hskip ih => rw [ih, List.count_cons_of_ne hnewline]
  | case5 inComment line c rest hnewline hskip hsemicolon => rfl

theorem takeWhile_append_newline (text more : List Char) :
    (text ++ '\n' :: more).takeWhile isAtomChar = text.takeWhile isAtomChar := by
  induction text with
  | nil => rfl
  | cons c text ih => rw [List.cons_append, List.takeWhile_cons, List.takeWhile_cons, ih]

theorem dropWhile_append_newline (text more : List Char) :
    (text ++ '\n' :: more).dropWhile isAtomChar = text.dropWhile isAtomChar ++ '\n' :: more := by
  induction text with
  | nil => rfl
  | cons c text ih =>
    rw [List.cons_append, List.dropWhile_cons, List.dropWhile_cons, ih]
    split <;> rfl

/-- Newlines stand in no atom. -/
theorem count_newline_dropWhile (text : List Char) :
    (text.dropWhile isAtomChar).count '\n' = text.count '\n' := by
  induction text with
  | nil => rfl
  | cons c text ih =>
    rw [List.dropWhile_cons]
    split
    · next hc =>
      have hnewline : c ≠ '\n' := by rintro rfl; exact absurd hc (by decide)
      rw [ih, List.count_cons_of_ne hnewline]
    · rfl

/-- After a gap comes a parenthesis or an atom. -/
theorem skipGap_head {inComment : Bool} {line start : Nat} {text after : List Char} {c : Char}
    (h : skipGap inComment line text = (start, c :: after)) :
    (c = '(' ∨ c = ')') ∨ isAtomChar c = true := by
  fun_induction skipGap inComment line text with
  | case1 inComment line => cases h
  | case2 inComment line rest ih => exact ih h
  | case3 inComment line d rest hnewline hskip ih => exact ih h
  | case4 inComment line rest hnewline hskip ih => exact ih h
  | case5 inComment line d rest hnewline hskip hsemicolon =>
    obtain ⟨-, rfl, -⟩ : _ ∧ d = c ∧ rest = after := by simpa using h
    have hblank : Text.isAsciiBlank d = false := by simp_all
    by_cases hparen : d = '(' ∨ d = ')'
    · exact .inl hparen
    · rw [not_or] at hparen
      simp [isAtomChar, hblank, hparen, hsemicolon]

namespace Lexeme

variable {line : Nat} {text rest : List Char} {lexeme : Lexeme}

/-- There is no lexeme in a text that is all gap. -/
theorem next?_eq_none_iff : next? line text = none ↔ (skipGap false line text).2 = [] := by
  unfold next?
  split
  · next heq => simp [heq]
  · next heq =>
    rw [heq]
    split <;> simp

/-- The first lexeme is a parenthesis, or an atom that is as long as can be. -/
theorem next?_cases (h : next? line text = some (lexeme, rest)) :
    ∃ start c after, skipGap false line text = (start, c :: after)
      ∧ (((c = '(' ∨ c = ')') ∧ lexeme = ⟨start, [c]⟩ ∧ rest = after)
        ∨ (¬ (c = '(' ∨ c = ')') ∧ isAtomChar c = true
            ∧ lexeme = ⟨start, c :: after.takeWhile isAtomChar⟩
            ∧ rest = after.dropWhile isAtomChar)) := by
  unfold next? at h
  split at h
  · cases h
  · next start c after heq =>
    refine ⟨start, c, after, heq, ?_⟩
    split at h
    · next hparen =>
      obtain ⟨rfl, rfl⟩ := Prod.mk.inj (Option.some.inj h)
      exact .inl ⟨hparen, rfl, rfl⟩
    · next hparen =>
      obtain ⟨rfl, rfl⟩ := Prod.mk.inj (Option.some.inj h)
      exact .inr ⟨hparen, (skipGap_head heq).resolve_left hparen, rfl, rfl⟩

/-- The first lexeme of a text stays the first if a newline and more text are added. -/
theorem next?_append_newline (h : next? line text = some (lexeme, rest)) (more : List Char) :
    next? line (text ++ '\n' :: more) = some (lexeme, rest ++ '\n' :: more) := by
  obtain ⟨start, c, after, hskip, hcases⟩ := next?_cases h
  rw [next?, skipGap_append_newline, hskip]
  rcases hcases with ⟨hparen, rfl, rfl⟩ | ⟨hparen, -, rfl, rfl⟩
  · exact if_pos hparen
  · rw [← takeWhile_append_newline after more, ← dropWhile_append_newline]
    exact if_neg hparen

/-- In a text without lexemes, one looks for them after the newline that follows it. -/
theorem next?_append_newline_of_eq_none (h : next? line text = none) (more : List Char) :
    next? line (text ++ '\n' :: more) = next? (line + text.count '\n' + 1) more := by
  rw [next?_eq_none_iff] at h
  have hline := skipGap_line false line text
  rw [h, List.count_nil, Nat.add_zero] at hline
  have hskip : skipGap false line text = (line + text.count '\n', []) := Prod.ext hline h
  rw [next?, skipGap_append_newline, hskip]
  rfl

/-- The lines of a text are those before its first lexeme and those after it. -/
theorem next?_line (h : next? line text = some (lexeme, rest)) :
    lexeme.line + rest.count '\n' = line + text.count '\n' := by
  obtain ⟨start, c, after, hskip, hcases⟩ := next?_cases h
  have hline := skipGap_line false line text
  rw [hskip] at hline
  rcases hcases with ⟨hparen, rfl, rfl⟩ | ⟨-, hc, rfl, rfl⟩
  · have hnewline : c ≠ '\n' := by rintro rfl; simp at hparen
    rwa [List.count_cons_of_ne hnewline] at hline
  · have hnewline : c ≠ '\n' := by rintro rfl; exact absurd hc (by decide)
    rwa [List.count_cons_of_ne hnewline, ← count_newline_dropWhile] at hline

/-- A lexeme some lines further down. -/
def later (lines : Nat) (lexeme : Lexeme) : Lexeme := { lexeme with line := lexeme.line + lines }

@[simp] theorem later_line (lines : Nat) : (lexeme.later lines).line = lexeme.line + lines := rfl

@[simp] theorem later_token (lines : Nat) : (lexeme.later lines).token = lexeme.token := rfl

end Lexeme

/-- **At a newline the lexemes start afresh**: out of an atom, and out of a comment. -/
theorem lexemesAt_append_newline (line : Nat) (text more : List Char) :
    lexemesAt line (text ++ '\n' :: more)
      = lexemesAt line text ++ lexemesAt (line + text.count '\n' + 1) more := by
  fun_induction lexemesAt line text with
  | case1 line text hnext =>
    -- What is left of the text is a gap, and with the newline it goes over into the gap after it.
    have hnext' := Lexeme.next?_append_newline_of_eq_none hnext more
    rw [List.nil_append]
    cases hmore : Lexeme.next? (line + text.count '\n' + 1) more with
    | none => rw [lexemesAt_of_eq_none (hnext'.trans hmore), lexemesAt_of_eq_none hmore]
    | some found => rw [lexemesAt_of_eq_some (hnext'.trans hmore), lexemesAt_of_eq_some hmore]
  | case2 line text lexeme rest hnext ih =>
    rw [lexemesAt_of_eq_some (Lexeme.next?_append_newline hnext more), ih,
      Lexeme.next?_line hnext, List.cons_append]

/-! ## Lines -/

theorem skipGap_add (inComment : Bool) (line lines : Nat) (text : List Char) :
    skipGap inComment (line + lines) text
      = ((skipGap inComment line text).1 + lines, (skipGap inComment line text).2) := by
  fun_induction skipGap inComment line text with
  | case1 inComment line => rfl
  | case2 inComment line rest ih => rw [skipGap, if_pos rfl, Nat.add_right_comm, ih]
  | case3 inComment line c rest hnewline hskip ih =>
    rw [skipGap, if_neg hnewline, if_pos hskip, ih]
  | case4 inComment line rest hnewline hskip ih =>
    rw [skipGap, if_neg hnewline, if_neg hskip, if_pos rfl, ih]
  | case5 inComment line c rest hnewline hskip hsemicolon =>
    rw [skipGap, if_neg hnewline, if_neg hskip, if_neg hsemicolon]

theorem Lexeme.next?_add (line lines : Nat) (text : List Char) :
    next? (line + lines) text = (next? line text).map (Prod.map (later lines) id) := by
  unfold next?
  rw [skipGap_add]
  obtain ⟨start, _ | ⟨c, after⟩⟩ := skipGap false line text
  · rfl
  · by_cases hparen : c = '(' ∨ c = ')'
    · simp only [if_pos hparen]; rfl
    · simp only [if_neg hparen]; rfl

/-- The line on which a text begins changes only the lines of its lexemes. -/
theorem lexemesAt_add (line lines : Nat) (text : List Char) :
    lexemesAt (line + lines) text = (lexemesAt line text).map (Lexeme.later lines) := by
  fun_induction lexemesAt line text with
  | case1 line text hnext =>
    refine lexemesAt_of_eq_none ?_
    rw [Lexeme.next?_add, hnext]
    rfl
  | case2 line text lexeme rest hnext ih =>
    have hnext' : Lexeme.next? (line + lines) text = some (lexeme.later lines, rest) := by
      rw [Lexeme.next?_add, hnext]
      rfl
    rw [lexemesAt_of_eq_some hnext', List.map_cons, ← ih]
    rfl

/-- The lexemes of two texts with a newline between them. -/
theorem lexemes_append_newline (text more : List Char) :
    lexemes (text ++ '\n' :: more)
      = lexemes text ++ (lexemes more).map (Lexeme.later (text.count '\n' + 1)) := by
  rw [lexemes_eq, lexemes_eq, lexemes_eq, lexemesAt_append_newline, Nat.add_assoc, lexemesAt_add]

/-! ## Where a lexeme stands -/

/-- A gap is skipped from its beginning. -/
theorem skipGap_suffix (inComment : Bool) (line : Nat) (text : List Char) :
    (skipGap inComment line text).2 <:+ text := by
  fun_induction skipGap inComment line text with
  | case1 inComment line => exact List.suffix_rfl
  | case2 inComment line rest ih => exact ih.trans (List.suffix_cons _ _)
  | case3 inComment line c rest hnewline hskip ih => exact ih.trans (List.suffix_cons _ _)
  | case4 inComment line rest hnewline hskip ih => exact ih.trans (List.suffix_cons _ _)
  | case5 inComment line c rest hnewline hskip hsemicolon => exact List.suffix_rfl

/-- The first lexeme of a text stands behind a gap, on the line to which the newlines of the gap
lead, and is on one line itself. -/
theorem Lexeme.next?_split {line : Nat} {text rest : List Char} {lexeme : Lexeme}
    (h : next? line text = some (lexeme, rest)) :
    ∃ gap, text = gap ++ (lexeme.text ++ rest) ∧ lexeme.line = line + gap.count '\n'
      ∧ lexeme.text.count '\n' = 0 := by
  have hline := next?_line h
  obtain ⟨start, c, after, hskip, hcases⟩ := next?_cases h
  obtain ⟨gap, hgap⟩ := skipGap_suffix false line text
  have hstart := skipGap_line false line text
  rw [hskip] at hgap hstart
  have hlexeme : lexeme.text ++ rest = c :: after ∧ lexeme.line = start := by
    rcases hcases with ⟨-, rfl, rfl⟩ | ⟨-, -, rfl, rfl⟩
    · exact ⟨rfl, rfl⟩
    · exact ⟨congrArg (c :: ·) List.takeWhile_append_dropWhile, rfl⟩
  obtain ⟨htext, rfl⟩ := hlexeme
  rw [← hgap, List.count_append] at hstart hline
  rw [← htext, List.count_append] at hstart hline
  exact ⟨gap, by rw [htext, hgap], by omega, by omega⟩

/-- **Where a lexeme stands in a text**: its line is counted by the newlines ahead of it, it is on
one line itself, and the lexemes after it are those of the rest of the text. -/
theorem lexemesAt_split {line : Nat} {text : List Char} {before rest : List Lexeme}
    {lexeme : Lexeme} (h : lexemesAt line text = before ++ lexeme :: rest) :
    ∃ front back, text = front ++ (lexeme.text ++ back)
      ∧ lexeme.line = line + front.count '\n' ∧ lexeme.text.count '\n' = 0
      ∧ lexemesAt lexeme.line back = rest := by
  fun_induction lexemesAt line text generalizing before with
  | case1 line text hnext => simp at h
  | case2 line text first after hnext ih =>
    obtain ⟨gap, htext, hline, hfirst⟩ := Lexeme.next?_split hnext
    cases before with
    | nil =>
      obtain ⟨rfl, hrest⟩ := List.cons.inj h
      exact ⟨gap, after, htext, hline, hfirst, hrest⟩
    | cons _ before =>
      obtain ⟨front, back, rfl, hlexeme, hrest⟩ := ih (List.cons.inj h).2
      refine ⟨gap ++ first.text ++ front, back, by simp [htext], ?_, hrest⟩
      rw [hlexeme, hline, List.count_append, List.count_append, hfirst]
      omega

end BlockScript.Script
