import BlockScript.Json.Number
import BlockScript.Proofs.Json.Scanning

/-!
# Whole numbers that were written

A whole number is written with its decimal digits, of which only zero begins with a zero.  The
reader gathers them one at a time, and none is left out as long as the number fits a significand.

## What is here

* `Json.toDigits_eq_cons` — the first digit of a positive number is not zero.
* `Json.exists_first_digit` — the numeral of a positive number, from its first digit on.
* `Json.gather_digits` — all the digits of a number are gathered.
* `Json.reads_readNumber` — a whole number that was written, read.
-/

set_option autoImplicit false
namespace BlockScript.Json

/-! ## Digits -/

theorem lt_of_isDigit {c : Char} (h : c.isDigit = true) : c.toNat < 128 := by
  have hle : c.toNat ≤ 57 := (Char.isDigit_iff_toNat.1 h).2
  omega

theorem isDigit_ascii {c : Char} (h : c.isDigit = true) : isDigit (ascii c) = true := by
  have hbyte : c.toNat < 256 := Nat.lt_trans (lt_of_isDigit h) (by decide)
  obtain ⟨hlow, hhigh⟩ := Char.isDigit_iff_toNat.1 h
  rw [isDigit, Bool.and_eq_true, decide_eq_true_eq, decide_eq_true_eq, UInt8.le_iff_toNat_le,
    UInt8.le_iff_toNat_le, toNat_ascii hbyte]
  exact ⟨hlow, hhigh⟩

theorem digitValue_ascii {c : Char} (h : c.isDigit = true) :
    digitValue (ascii c) = c.toNat - '0'.toNat := by
  rw [digitValue, toNat_ascii (Nat.lt_trans (lt_of_isDigit h) (by decide))]
  rfl

theorem digitValue_ascii_le {c : Char} (h : c.isDigit = true) : digitValue (ascii c) ≤ 9 := by
  have hle : c.toNat ≤ 57 := (Char.isDigit_iff_toNat.1 h).2
  have hzero : '0'.toNat = 48 := rfl
  rw [digitValue_ascii h]
  omega

/-- The first digit of a positive number is not zero. -/
theorem toDigits_eq_cons {n : Nat} (h : 0 < n) :
    ∃ c digits, c ≠ '0' ∧ Nat.toDigits 10 n = c :: digits := by
  induction n using Nat.strongRecOn with
  | ind n ih =>
    by_cases hsmall : n < 10
    · have hdigit : ∀ d < 10, 0 < d → Nat.digitChar d ≠ '0' := by decide
      exact ⟨_, [], hdigit n hsmall h, Nat.toDigits_of_lt_base hsmall⟩
    · have hlarge : 10 ≤ n := Nat.not_lt.1 hsmall
      obtain ⟨c, digits, hne, hdigits⟩ := ih (n / 10) (by omega) (by omega)
      refine ⟨c, digits ++ [Nat.digitChar (n % 10)], hne, ?_⟩
      rw [Nat.toDigits_of_base_le (by decide) hlarge, hdigits, List.cons_append]

/-- The numeral of a positive number, from its first digit on. -/
theorem exists_first_digit {n : Nat} (h : 0 < n) :
    ∃ c digits, Nat.toDigits 10 n = c :: digits ∧ c.isDigit = true ∧ ascii c ≠ ascii '0'
      ∧ (∀ other ∈ digits, other.isDigit = true)
      ∧ Nat.ofDigitChars 10 digits (digitValue (ascii c)) = n := by
  obtain ⟨c, digits, hne, hdigits⟩ := toDigits_eq_cons h
  have hall : ∀ other ∈ c :: digits, other.isDigit = true := fun other hmem =>
    Nat.isDigit_of_mem_toDigits (by decide) (by decide) (hdigits ▸ hmem)
  obtain ⟨hc, hothers⟩ := List.forall_mem_cons.1 hall
  have hfirst : ascii c ≠ ascii '0' := fun heq =>
    hne (ascii_inj (Nat.lt_trans (lt_of_isDigit hc) (by decide)) (by decide) heq)
  have hvalue : Nat.ofDigitChars 10 (Nat.toDigits 10 n) 0 = n := Nat.ofDigitChars_ten_toDigits
  rw [hdigits, Nat.ofDigitChars_cons, Nat.mul_zero, Nat.zero_add, ← digitValue_ascii hc] at hvalue
  exact ⟨c, digits, hdigits, hc, hfirst, hothers, hvalue⟩

/-- A number is at least as large as what its first digits give. -/
theorem le_ofDigitChars (digits : List Char) (first : Nat) :
    first ≤ Nat.ofDigitChars 10 digits first := by
  rw [Nat.ofDigitChars_eq_ofDigitChars_zero]
  exact Nat.le_trans (Nat.le_mul_of_pos_left first (Nat.pow_pos (by decide)))
    (Nat.le_add_right _ _)

/-! ## Reading them -/

/-- All the digits of a number that fits are gathered. -/
theorem gather_digits {limit : Nat} {digits : List Char} (hdigits : ∀ c ∈ digits, c.isDigit = true)
    {significand : Nat} (hfits : Nat.ofDigitChars 10 digits significand ≤ limit) (count : Nat)
    {rest : List UInt8} (hrest : startsWithDigit rest = false) :
    (gather limit significand count (digits.map ascii ++ rest)).significand
        = Nat.ofDigitChars 10 digits significand
      ∧ (gather limit significand count (digits.map ascii ++ rest)).rest = rest := by
  induction digits generalizing significand count with
  | nil =>
    cases rest with
    | nil => exact ⟨rfl, rfl⟩
    | cons b rest =>
      have hb : isDigit b = false := hrest
      rw [List.map_nil, List.nil_append, gather, hb, Bool.false_and, if_neg Bool.false_ne_true]
      exact ⟨rfl, rfl⟩
  | cons c digits ih =>
    have hc : c.isDigit = true := hdigits c List.mem_cons_self
    have hstep : significand * 10 + digitValue (ascii c)
        = 10 * significand + (c.toNat - '0'.toNat) := by
      rw [digitValue_ascii hc, Nat.mul_comm]
    rw [Nat.ofDigitChars_cons, ← hstep] at hfits ⊢
    have hle := Nat.le_trans (le_ofDigitChars digits _) hfits
    rw [List.map_cons, List.cons_append, gather, isDigit_ascii hc, Bool.true_and,
      if_pos (decide_eq_true hle)]
    exact ih (fun other hmem => hdigits other (List.mem_cons_of_mem _ hmem)) hfits (count + 1)

/-- The end of a whole number: neither a digit nor what makes it a double comes next. -/
structure Ends (rest : List UInt8) : Prop where
  digit : startsWithDigit rest = false
  scale : startsWithScale rest = false

theorem Ends.ne_point {rest : List UInt8} (h : Ends rest) : ∀ b ∈ rest.head?, b ≠ ascii '.' := by
  rintro b hb rfl
  cases rest with
  | nil => cases hb
  | cons c rest =>
    obtain rfl := Option.some.inj hb
    exact Bool.false_ne_true (h.scale.symm.trans rfl)

theorem reads_readNumber_zero (negative : Bool) {rest : List UInt8} (hends : Ends rest) :
    Reads (readNumber negative (ascii '0' :: rest)) (wholeValue negative 0) rest := by
  refine ⟨length_lt_cons (ascii '0') rest, ?_⟩
  rw [readNumber, if_pos rfl, hends.digit, hends.scale, if_neg Bool.false_ne_true,
    if_neg Bool.false_ne_true]

theorem reads_readNumber_gather (negative : Bool) {b : UInt8} (hdigit : isDigit b = true)
    (hne : b ≠ ascii '0') {text : List UInt8}
    (hends : Ends (gather maxSignificand (digitValue b) 1 text).rest) :
    Reads (readNumber negative (b :: text))
      (wholeValue negative (gather maxSignificand (digitValue b) 1 text).significand)
      (gather maxSignificand (digitValue b) 1 text).rest := by
  refine ⟨Nat.lt_succ_of_le (gather maxSignificand (digitValue b) 1 text).le, ?_⟩
  rw [readNumber, if_neg hne, if_pos hdigit]
  simp only [hends.digit, hends.scale, Bool.or_false, if_neg Bool.false_ne_true]

/-- **A whole number that was written is read as itself**, as long as it fits a significand. -/
theorem reads_readNumber (negative : Bool) {n : Nat} (hfits : n ≤ maxSignificand)
    {rest : List UInt8} (hends : Ends rest) :
    Reads (readNumber negative ((Nat.toDigits 10 n).map ascii ++ rest)) (wholeValue negative n)
      rest := by
  rcases Nat.eq_zero_or_pos n with rfl | hpos
  · exact reads_readNumber_zero negative hends
  · obtain ⟨c, digits, hdigits, hc, hfirst, hothers, hvalue⟩ := exists_first_digit hpos
    obtain ⟨hsignificand, hleft⟩ := gather_digits hothers (hvalue ▸ hfits) 1 hends.digit
    have hread := reads_readNumber_gather negative (isDigit_ascii hc) hfirst (hleft.symm ▸ hends)
    rw [hsignificand, hleft, hvalue] at hread
    rw [hdigits]
    exact hread

end BlockScript.Json
