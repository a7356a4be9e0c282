import BlockScript.Proofs.Json.Outcomes
import BlockScript.Proofs.Number.Magnitude
import BlockScript.Proofs.Text.Integer

/-!
# Integers of any size that were written

A whole number beyond 64 bits becomes a double.  Of its digits only as many are kept as fit a
significand, which is scaled once by the number of the others, and a number that is too large for a
double is refused.  What is known of such a double is its sign, and that it is beyond 32 bits.

## What is here

* `Json.gather_long` and `Json.gives_readNumber_long` — a numeral that is too long, from its first
  digit on.
* `Json.Beyond` — a double that is negative or beyond 32 bits.
* `Json.exists_judges_integer` — **an integer beyond 64 bits is read as such a double**, or it is
  refused.
-/

set_option autoImplicit false
namespace BlockScript.Json

open Number

/-! ## Numerals that are too long -/

/-- The digits of a number that does not fit are gathered until the next one would be too much. -/
theorem gather_long {limit : Nat} {digits : List Char} (hdigits : ∀ c ∈ digits, c.isDigit = true)
    {significand : Nat} (hfits : significand ≤ limit)
    (hlong : limit < Nat.ofDigitChars 10 digits significand) (count : Nat) :
    ∃ kept left, limit / 10 ≤ kept ∧ left ≠ [] ∧ (∀ c ∈ left, c.isDigit = true) ∧
      ∀ rest, (gather limit significand count (digits.map ascii ++ rest)).significand = kept
        ∧ (gather limit significand count (digits.map ascii ++ rest)).rest
          = left.map ascii ++ rest := by
  induction digits generalizing significand count with
  | nil =>
    rw [Nat.ofDigitChars_nil] at hlong
    omega
  | cons c digits ih =>
    obtain ⟨hc, hothers⟩ := List.forall_mem_cons.1 hdigits
    have hstep : significand * 10 + digitValue (ascii c)
        = 10 * significand + (c.toNat - '0'.toNat) := by
      rw [digitValue_ascii hc, Nat.mul_comm]
    rw [Nat.ofDigitChars_cons, ← hstep] at hlong
    by_cases hnext : significand * 10 + digitValue (ascii c) ≤ limit
    · obtain ⟨kept, left, hkept, hne, hleft, hgather⟩ := ih hothers hnext hlong (count + 1)
      refine ⟨kept, left, hkept, hne, hleft, fun rest => ?_⟩
      rw [List.map_cons, List.cons_append, gather, isDigit_ascii hc, Bool.true_and,
        if_pos (decide_eq_true hnext)]
      exact hgather rest
    · -- The first digit that does not fit is left, and so are all after it.
      have hsmall := digitValue_ascii_le hc
      refine ⟨significand, c :: digits, by omega, List.cons_ne_nil _ _, hdigits, fun rest => ?_⟩
      rw [List.map_cons, List.cons_append, gather, isDigit_ascii hc, Bool.true_and,
        if_neg (by simpa using hnext)]
      exact ⟨rfl, rfl⟩

theorem gives_readAfterWhole_ends {negative : Bool} {significand : Nat} {exponent : Int}
    {rest : List UInt8} (hends : Ends rest) :
    Gives (readAfterWhole negative significand exponent rest)
      (scaledOnce negative significand exponent) rest := by
  refine gives_readAfterWhole_power ?_ (gives_readScaled_ends hends)
  intro hhead
  obtain ⟨tail, rfl⟩ : ∃ tail, rest = ascii '.' :: tail := List.head?_eq_some_iff.1 hhead
  exact Bool.false_ne_true hends.scale.symm

/-- A numeral that is too long for a significand is read as its leading digits, scaled once. -/
theorem gives_readNumber_long {n : Nat} (hlong : maxSignificand < n) :
    ∃ kept dropped : Nat, maxSignificand / 10 ≤ kept ∧
      ∀ (negative : Bool) {rest : List UInt8}, Ends rest →
        GivesRead (readNumber negative ((Nat.toDigits 10 n).map ascii ++ rest))
          (scaledOnce negative kept dropped) rest := by
  obtain ⟨c, digits, hdigits, hc, hfirst, hothers, hvalue⟩ :=
    exists_first_digit (Nat.lt_of_le_of_lt (Nat.zero_le _) hlong)
  have hsmall : digitValue (ascii c) ≤ maxSignificand :=
    Nat.le_trans (digitValue_ascii_le hc) (by decide)
  obtain ⟨kept, left, hkept, hsome, hleft, hgather⟩ :=
    gather_long hothers hsmall (hvalue.symm ▸ hlong) 1
  refine ⟨kept, left.length, hkept, fun negative rest hends => ?_⟩
  obtain ⟨hsignificand, hrest⟩ := hgather rest
  have hstarts : startsWithDigit (left.map ascii ++ rest) = true :=
    startsWithDigit_map_ascii hsome hleft
  rw [hdigits, List.map_cons, List.cons_append, readNumber, if_neg hfirst,
    if_pos (isDigit_ascii hc)]
  simp only [hrest, hstarts, Bool.true_or, if_true]
  refine Gives.read ?_ _
  rw [hsignificand, hrest, dropDigits_map_ascii hleft hends.digit, List.length_append,
    List.length_map, Nat.add_sub_cancel]
  exact gives_readAfterWhole_ends hends

/-! ## Doubles beyond 32 bits -/

/-- A double that is cut down to no whole number from one up to the largest one of 32 bits. -/
def Beyond (x : Float) : Prop := x.toUInt64.toNat = 0 ∨ 2 ^ 32 ≤ x.toUInt64.toNat

theorem beyond_of_atLeast {p : Nat} {x : Float} (h : AtLeast p x) (hlow : 32 ≤ p) (hhigh : p < 64)
    (negative : Bool) : Beyond (if negative then -x else x) := by
  cases negative with
  | true => exact .inl h.toUInt64_neg
  | false =>
    exact .inr (Nat.le_trans (Nat.pow_le_pow_right (by decide) hlow) (h.le_toUInt64 hhigh))

/-- Digits that fill a significand stay large when they are scaled up. -/
theorem beyond_of_scaledOnce {negative : Bool} {kept dropped : Nat} {x : Float}
    (hkept : maxSignificand / 10 ≤ kept) (h : scaledOnce negative kept dropped = some x) :
    Beyond x := by
  have hlarge : AtLeast 60 (Float.ofNat kept) :=
    atLeast_ofNat (by decide) (Nat.le_trans (by decide) hkept)
  obtain ⟨y, hy, rfl⟩ := Option.map_eq_some_iff.1 h
  have hscaled : scaled? kept (dropped : Int)
      = if 308 < dropped then if Float.ofNat kept == 0 then some (Float.ofNat kept) else none
        else if (Float.ofNat kept * powerOfTen dropped).isInf then none
        else some (Float.ofNat kept * powerOfTen dropped) := rfl
  rw [hscaled, hlarge.ne_zero, if_neg Bool.false_ne_true] at hy
  split_ifs at hy with hdropped hinfinite
  obtain rfl := Option.some.inj hy
  have hpower : dropped ≤ 2048 := Nat.le_trans (Nat.not_lt.1 hdropped) (by decide)
  have hproduct := hlarge.mul (atLeast_powerOfTen hpower)
  exact beyond_of_atLeast hproduct (by decide) (by decide) negative

/-! ## Integers beyond 64 bits -/

/-- The numeral of an integer beyond 64 bits is read from its first digit on as a double beyond 32
bits, or it is refused; what comes after it makes no difference. -/
theorem exists_gives_readNumber {n : Int} (hlarge : n < -9223372036854775808 ∨ maxSignificand < n) :
    ∃ outcome : Option Float, (∀ x, outcome = some x → Beyond x) ∧
      ∀ {rest : List UInt8}, Ends rest →
        GivesRead (readNumber (decide (n < 0)) ((Nat.toDigits 10 n.natAbs).map ascii ++ rest))
          outcome rest := by
  by_cases hfits : n.natAbs ≤ maxSignificand
  · -- Only a negative one still fits a significand.
    have hneg : n < 0 := by omega
    have hvalue : wholeValue (decide (n < 0)) n.natAbs = .float (-(Float.ofNat n.natAbs)) := by
      rw [wholeValue, decide_eq_true hneg, if_neg (by decide), if_pos (.inr (by omega))]
    have hbeyond : AtLeast 63 (Float.ofNat n.natAbs) := atLeast_ofNat (by decide) (by omega)
    refine ⟨some (-(Float.ofNat n.natAbs)), ?_, fun hends => ?_⟩
    · rintro x ⟨rfl⟩
      exact beyond_of_atLeast hbeyond (by decide) (by decide) true
    · have hread := reads_readNumber (decide (n < 0)) hfits hends
      rwa [hvalue] at hread
  · obtain ⟨kept, dropped, hkept, hread⟩ := gives_readNumber_long (Nat.not_le.1 hfits)
    exact ⟨scaledOnce (decide (n < 0)) kept dropped, fun x => beyond_of_scaledOnce hkept,
      fun hends => hread _ hends⟩

/-- A reader of values gives the double that its first scalar is, or fails if there is none. -/
theorem judges_of_gives {value : Value} {outcome : Option Float} (hdepth : value.depth = 0)
    (h : ∀ {d : Nat} {rest : List Char}, Ends (bytes rest) →
      ∃ b text, bytes (value.prettyThen d rest) = b :: text ∧ Opens b ∧ b ≠ ascii '[' ∧
        b ≠ ascii '\x7b' ∧ Gives (readScalar b text) outcome (bytes rest)) :
    Judges readValue value (outcome.map .float) := by
  cases outcome with
  | some x =>
    refine decodes_readValue_scalar hdepth fun hends => ?_
    obtain ⟨b, text, hcons, hopens, hlist, hobject, hread⟩ := h hends
    exact ⟨b, text, hcons, hopens, hlist, hobject, hread⟩
  | none =>
    constructor
    intro limit d text rest htext hends
    obtain ⟨b, after, hcons, -, hlist, hobject, fault, hfault⟩ := h (d := d) hends
    refine ⟨fault, ?_⟩
    rw [readValue]
    split
    case h_1 hnil => exact absurd ((htext.trans hcons).symm.trans hnil) (List.cons_ne_nil _ _)
    case h_2 c other hother =>
      obtain ⟨rfl, rfl⟩ := List.cons.inj ((htext.trans hcons).symm.trans hother)
      rw [if_neg hlist, if_neg hobject, hfault]
      rfl

/-- **The numeral of an integer beyond 64 bits is read as a double beyond 32 bits**, or it is
refused; and it makes no difference where it stands. -/
theorem exists_judges_integer {n : Int}
    (hlarge : n < -9223372036854775808 ∨ maxSignificand < n) :
    ∃ outcome : Option Float, Judges readValue (.integer n) (outcome.map .float) ∧
      ∀ x, outcome = some x → Beyond x := by
  obtain ⟨outcome, hbeyond, hread⟩ := exists_gives_readNumber hlarge
  refine ⟨outcome, judges_of_gives rfl fun {d rest} hends => ?_, hbeyond⟩
  have htext : (Value.integer n).prettyThen d rest
      = (if decide (n < 0) then ['-'] else []) ++ Nat.toDigits 10 n.natAbs ++ rest := by
    have hchars := Text.toList_toString n
    have hsame : (Value.integer n).prettyThen d rest = (toString n).toList ++ rest := rfl
    rw [hsame, hchars]
    simp only [decide_eq_true_eq]
  rw [htext]
  refine gives_readScalar ?_ ?_ (hread hends)
  · intro c hc
    exact lt_of_isDigit (isDigit_of_mem_toDigits c hc)
  · obtain ⟨c, digits, hdigits⟩ :=
      List.exists_cons_of_ne_nil (Nat.toDigits_ne_nil (n := n.natAbs) (b := 10))
    exact ⟨c, digits, isDigit_of_mem_toDigits c (hdigits ▸ List.mem_cons_self), hdigits⟩

end BlockScript.Json
