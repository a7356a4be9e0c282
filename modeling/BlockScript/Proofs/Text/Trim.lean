import BlockScript.Proofs.Text.Integer
import BlockScript.Text.Blank
import Mathlib.Data.List.TakeWhile

/-!
# Texts without the white space around them

## What is here

* `Text.Trims` — the middle of a text between the white space at its ends.
* `Text.trims_trim` and `Text.Trims.eq_trim` — **every text has exactly one such middle**, which is
  what is left when it is trimmed.
-/

set_option autoImplicit false
namespace BlockScript.Text

/-- A text is its middle between some white space, of which the middle has none at either end. -/
structure Trims (text middle : List Char) : Prop where
  around : ∃ before after, text = before ++ middle ++ after
    ∧ (∀ c ∈ before, isWhiteSpace c = true) ∧ ∀ c ∈ after, isWhiteSpace c = true
  head : ∀ c ∈ middle.head?, isWhiteSpace c = false
  last : ∀ c ∈ middle.getLast?, isWhiteSpace c = false

/-- What is left of a text when it is trimmed is its middle. -/
theorem trims_trim (text : List Char) : Trims text (trim text) := by
  -- The end of a text is trimmed as the start of the reversed text.
  let after := ((text.dropWhile isWhiteSpace).reverse.takeWhile isWhiteSpace).reverse
  have hmiddle : text.dropWhile isWhiteSpace = trim text ++ after := by
    rw [trim, ← List.reverse_append, List.takeWhile_append_dropWhile, List.reverse_reverse]
  refine ⟨⟨text.takeWhile isWhiteSpace, after, ?_, ?_, ?_⟩, ?_, ?_⟩
  · rw [List.append_assoc, ← hmiddle, List.takeWhile_append_dropWhile]
  · intro c hc
    exact List.mem_takeWhile_imp hc
  · intro c hc
    exact List.mem_takeWhile_imp (List.mem_reverse.1 hc)
  · intro c hc
    refine head_dropWhile isWhiteSpace text c ?_
    rw [hmiddle, List.head?_append, Option.mem_def.1 hc]
    rfl
  · intro c hc
    rw [trim, List.getLast?_reverse] at hc
    exact head_dropWhile isWhiteSpace _ c hc

/-- White space before and after a text is trimmed, if the text has none at its ends. -/
theorem Trims.eq_trim {text middle : List Char} (h : Trims text middle) : middle = trim text := by
  obtain ⟨⟨before, after, rfl, hbefore, hafter⟩, hhead, hlast⟩ := h
  have hafter' : ∀ c ∈ after.reverse, isWhiteSpace c = true := fun c hc =>
    hafter c (List.mem_reverse.1 hc)
  rw [trim, List.append_assoc, List.dropWhile_append_of_pos hbefore]
  cases middle with
  | nil =>
    -- All of the text is white space, so nothing is left to be trimmed at its end.
    have hnone : after.dropWhile isWhiteSpace = [] := List.dropWhile_eq_nil_iff.2 hafter
    rw [List.nil_append, hnone]
    rfl
  | cons c middle =>
    have hkeep : ((c :: middle) ++ after).dropWhile isWhiteSpace = (c :: middle) ++ after := by
      refine (takeWhile_of_head ?_).2
      exact hhead
    have hlast' : ∀ d ∈ (c :: middle).reverse.head?, isWhiteSpace d = false := by
      rwa [List.head?_reverse]
    rw [hkeep, List.reverse_append, List.dropWhile_append_of_pos hafter',
      (takeWhile_of_head hlast').2, List.reverse_reverse]

end BlockScript.Text
