import BlockScript.Text.Integer
import Mathlib.Data.List.Basic

/-!
# Decimal integers

What an integer in a text looks like, and which number it is.

## What is here

* `Text.IsNumeral` and `Text.IsInteger` — the digits of a number, and the sign and the digits of an
  integer, with the number that they write.
* `Text.integer?_eq_some_iff` — **a text is read as an integer if and only if it writes one**.
* `Text.BeginsWith` and `Text.integer?_leadingInteger_eq_some_iff` — the integer that a text begins
  with, which has as many digits as follow each other.
-/

set_option autoImplicit false
namespace BlockScript.Text

/-- Some digits that write a number; leading zeros are allowed. -/
structure IsNumeral (digits : List Char) (n : Nat) : Prop where
  ne_nil : digits ≠ []
  isDigit : ∀ c ∈ digits, c.isDigit = true
  value : Nat.ofDigitChars 10 digits 0 = n

theorem isNumeral_toDigits (n : Nat) : IsNumeral (Nat.toDigits 10 n) n :=
  ⟨Nat.toDigits_ne_nil, fun _ => Nat.isDigit_of_mem_toDigits (by decide) (by decide),
    Nat.ofDigitChars_ten_toDigits⟩

/-- A numeral after at most one sign, and the number that it writes. -/
inductive IsInteger : List Char → Int → Prop
  | unsigned {digits : List Char} {n : Nat} (h : IsNumeral digits n) : IsInteger digits n
  | plus {digits : List Char} {n : Nat} (h : IsNumeral digits n) : IsInteger ('+' :: digits) n
  | minus {digits : List Char} {n : Nat} (h : IsNumeral digits n) :
    IsInteger ('-' :: digits) (-n)

theorem natural?_eq_some_iff {text : List Char} {n : Nat} :
    natural? text = some n ↔ IsNumeral text n := by
  rw [natural?]
  split
  · next h =>
    rw [Option.some_inj]
    constructor
    · intro hvalue
      exact ⟨h.1, List.all_eq_true.1 h.2, hvalue⟩
    · exact IsNumeral.value
  · next h =>
    refine ⟨nofun, fun hnumeral => ?_⟩
    exact absurd ⟨hnumeral.ne_nil, List.all_eq_true.2 hnumeral.isDigit⟩ h

/-- No number begins with a sign. -/
theorem not_isNumeral_cons {c : Char} (hc : c.isDigit = false) {rest : List Char} {n : Nat} :
    ¬ IsNumeral (c :: rest) n := by
  intro h
  have := h.isDigit c List.mem_cons_self
  simp [hc] at this

/-- **A text is read as an integer if and only if it writes one.** -/
theorem integer?_eq_some_iff {text : List Char} {n : Int} :
    integer? text = some n ↔ IsInteger text n := by
  constructor
  · intro h
    unfold integer? at h
    split at h
    · next digits =>
      cases hm : natural? digits with
      | none => simp [hm] at h
      | some m =>
        rw [hm] at h
        obtain rfl := Option.some.inj h
        exact .minus (natural?_eq_some_iff.1 hm)
    · next digits =>
      obtain ⟨m, hm, rfl⟩ := Option.map_eq_some_iff.1 h
      exact .plus (natural?_eq_some_iff.1 hm)
    · obtain ⟨m, hm, rfl⟩ := Option.map_eq_some_iff.1 h
      exact .unsigned (natural?_eq_some_iff.1 hm)
  · rintro (⟨h⟩ | ⟨h⟩ | ⟨h⟩)
    · unfold integer?
      split
      · exact absurd h (not_isNumeral_cons (by decide))
      · exact absurd h (not_isNumeral_cons (by decide))
      · rw [natural?_eq_some_iff.2 h]
        rfl
    · rw [integer?, natural?_eq_some_iff.2 h]
      rfl
    · rw [integer?, natural?_eq_some_iff.2 h]
      rfl

/-- An integer begins with a digit or a sign. -/
theorem integer?_cons_eq_none {c : Char} (hdigit : c.isDigit = false) (hplus : c ≠ '+')
    (hminus : c ≠ '-') (rest : List Char) : integer? (c :: rest) = none := by
  rw [Option.eq_none_iff_forall_not_mem]
  intro n hn
  rcases integer?_eq_some_iff.1 hn with ⟨h⟩ | ⟨h⟩ | ⟨h⟩
  · exact not_isNumeral_cons hdigit h
  · exact hplus rfl
  · exact hminus rfl

/-- An integer is written by its decimal digits, after a minus if it is negative. -/
theorem toList_toString (n : Int) :
    (toString n).toList = (if n < 0 then ['-'] else []) ++ Nat.toDigits 10 n.natAbs := by
  cases n with
  | ofNat n => exact Nat.toList_repr
  | negSucc n =>
    rw [if_pos (Int.negSucc_lt_zero n), Int.natAbs_negSucc, ← Nat.toList_repr]
    exact String.toList_append

theorem isInteger_toString (n : Int) : IsInteger (toString n).toList n := by
  have hdigits := isNumeral_toDigits n.natAbs
  rw [toList_toString]
  by_cases hneg : n < 0
  · have hvalue : n = -(n.natAbs : Int) := by omega
    rw [if_pos hneg]
    nth_rewrite 2 [hvalue]
    exact .minus hdigits
  · have hvalue : n = (n.natAbs : Int) := by omega
    rw [if_neg hneg]
    nth_rewrite 2 [hvalue]
    exact .unsigned hdigits

/-! ## Integers at the start of a text -/

/-- What does not begin with a character of some kind has none of that kind at its start. -/
theorem takeWhile_of_head {p : Char → Bool} {text : List Char}
    (h : ∀ c ∈ text.head?, p c = false) : text.takeWhile p = [] ∧ text.dropWhile p = text := by
  cases text with
  | nil => exact ⟨rfl, rfl⟩
  | cons c text =>
    have hc := h c rfl
    exact ⟨List.takeWhile_cons_of_neg (by simp [hc]), List.dropWhile_cons_of_neg (by simp [hc])⟩

/-- What is left when the characters of some kind are dropped begins with none of them. -/
theorem head_dropWhile (p : Char → Bool) (text : List Char) :
    ∀ c ∈ (text.dropWhile p).head?, p c = false := by
  intro c hc
  have hnot := List.head?_dropWhile_not p text
  rwa [Option.mem_def.1 hc] at hnot

/-- A text begins with an integer, and what follows does not continue its digits. -/
def BeginsWith (text : List Char) (n : Int) : Prop :=
  ∃ number rest, text = number ++ rest ∧ IsInteger number n ∧ ∀ c ∈ rest.head?, c.isDigit = false

theorem takeWhile_isDigit_append {digits rest : List Char} {n : Nat} (h : IsNumeral digits n)
    (hrest : ∀ c ∈ rest.head?, c.isDigit = false) :
    (digits ++ rest).takeWhile Char.isDigit = digits := by
  rw [List.takeWhile_append_of_pos h.isDigit, (takeWhile_of_head hrest).1, List.append_nil]

/-- An integer that is not continued is all that is taken of a text. -/
theorem IsInteger.leadingInteger_append {number rest : List Char} {n : Int}
    (h : IsInteger number n) (hrest : ∀ c ∈ rest.head?, c.isDigit = false) :
    leadingInteger (number ++ rest) = number := by
  cases h with
  | @unsigned _ n h =>
    cases number with
    | nil => exact absurd rfl h.ne_nil
    | cons c digits =>
      have hsign : ¬ (c = '-' ∨ c = '+') := by
        rintro (rfl | rfl) <;> exact not_isNumeral_cons (by decide) h
      rw [List.cons_append, leadingInteger, if_neg hsign]
      exact takeWhile_isDigit_append h hrest
  | plus h =>
    rw [List.cons_append, leadingInteger, if_pos (.inr rfl), takeWhile_isDigit_append h hrest]
  | minus h =>
    rw [List.cons_append, leadingInteger, if_pos (.inl rfl), takeWhile_isDigit_append h hrest]

/-- What is taken of a text is its start, up to a character that is no digit. -/
theorem exists_append_leadingInteger (text : List Char) :
    ∃ rest, text = leadingInteger text ++ rest ∧ ∀ c ∈ rest.head?, c.isDigit = false := by
  cases text with
  | nil => exact ⟨[], rfl, nofun⟩
  | cons c text =>
    rw [leadingInteger]
    split
    · refine ⟨text.dropWhile Char.isDigit, ?_, head_dropWhile Char.isDigit text⟩
      rw [List.cons_append, List.takeWhile_append_dropWhile]
    · exact ⟨_, List.takeWhile_append_dropWhile.symm, head_dropWhile Char.isDigit _⟩

/-- **The integer that is read at the start of a text is the one that the text begins with.** -/
theorem integer?_leadingInteger_eq_some_iff {text : List Char} {n : Int} :
    integer? (leadingInteger text) = some n ↔ BeginsWith text n := by
  constructor
  · intro h
    obtain ⟨rest, htext, hrest⟩ := exists_append_leadingInteger text
    exact ⟨leadingInteger text, rest, htext, integer?_eq_some_iff.1 h, hrest⟩
  · rintro ⟨number, rest, rfl, hnumber, hrest⟩
    rw [hnumber.leadingInteger_append hrest]
    exact integer?_eq_some_iff.2 hnumber

end BlockScript.Text
