import BlockScript.Json.Reader
import BlockScript.Proofs.Json.Doubles
import BlockScript.Proofs.Json.Strings

/-!
# Scalars that were written

A reader tells from the first byte of a value what kind of value it is.  Each kind of scalar as it
is written begins with a byte that no other kind begins with, and is then read to its end.

## What is here

* `Json.ScalarAt` — a scalar stands at a text: its first byte begins no list, no object and no
  white space, and it is read up to another text.
* `Json.scalarAt_integer`, `Json.scalarAt_string` and the like — where a scalar was written, it
  stands.
* `Json.doubleAt_floatText` — where a double was written, what its text is read as stands.
-/

set_option autoImplicit false
namespace BlockScript.Json

open Number

/-- A byte that may come first where an item of a list is expected. -/
structure Opens (b : UInt8) : Prop where
  not_blank : isBlank b = false
  ne_close : b ≠ ascii ']'

/-- A scalar stands at a text, up to another one. -/
def ScalarAt (text : List UInt8) (value : Value) (after : List UInt8) : Prop :=
  ∃ b rest, text = b :: rest ∧ Opens b ∧ b ≠ ascii '[' ∧ b ≠ ascii '\x7b' ∧
    ∃ le, readScalar b rest = .ok (value, ⟨after, le⟩)

/-! ## Words -/

theorem expectTail_map_ascii (letters : List Char) (after : List UInt8) :
    ∃ le, expectTail letters (letters.map ascii ++ after) = .ok ⟨after, le⟩ := by
  induction letters with
  | nil => exact ⟨length_le_self after, rfl⟩
  | cons c letters ih =>
    obtain ⟨le, hread⟩ := ih
    rw [List.map_cons, List.cons_append]
    refine ⟨Nat.le_succ_of_le le, ?_⟩
    rw [expectTail, if_pos rfl, hread]
    rfl

theorem readWord_map_ascii (letters : List Char) (value : Value) (after : List UInt8) :
    ∃ le, readWord letters value (letters.map ascii ++ after) = .ok (value, ⟨after, le⟩) := by
  obtain ⟨le, hread⟩ := expectTail_map_ascii letters after
  refine ⟨le, ?_⟩
  rw [readWord, hread]
  rfl

/-- A word stands where it was written, if its first letter is told from other values. -/
theorem scalarAt_word {value : Value} {c : Char} {letters : List Char}
    (htext : value.scalarText.toList = c :: letters)
    (hascii : ∀ other ∈ c :: letters, other.toNat < 128) (hopens : Opens (ascii c))
    (hlist : ascii c ≠ ascii '[') (hobject : ascii c ≠ ascii '\x7b')
    (hword : ∀ text, readScalar (ascii c) text = readWord letters value text) (rest : List Char) :
    ScalarAt (bytes (value.scalarText.toList ++ rest)) value (bytes rest) := by
  have hbytes : bytes (value.scalarText.toList ++ rest)
      = ascii c :: (letters.map ascii ++ bytes rest) := by
    rw [bytes_append, htext, bytes_of_lt hascii]
    rfl
  obtain ⟨le, hread⟩ := readWord_map_ascii letters value (bytes rest)
  refine ⟨_, _, hbytes, hopens, hlist, hobject, le, ?_⟩
  rw [hword, hread]

theorem scalarAt_null (rest : List Char) :
    ScalarAt (bytes (Value.null.scalarText.toList ++ rest)) .null (bytes rest) := by
  have htext : Value.null.scalarText.toList = 'n' :: ['u', 'l', 'l'] := rfl
  refine scalarAt_word htext (by simp) ⟨by decide, by decide⟩ (by decide) (by decide) ?_ rest
  intro text
  rw [readScalar, if_pos rfl]

theorem scalarAt_bool (b : Bool) (rest : List Char) :
    ScalarAt (bytes ((Value.bool b).scalarText.toList ++ rest)) (.bool b) (bytes rest) := by
  cases b with
  | true =>
    have htext : (Value.bool true).scalarText.toList = 't' :: ['r', 'u', 'e'] := rfl
    refine scalarAt_word htext (by simp) ⟨by decide, by decide⟩ (by decide) (by decide) ?_ rest
    intro text
    rw [readScalar, if_neg (by decide), if_pos rfl]
  | false =>
    have htext : (Value.bool false).scalarText.toList = 'f' :: ['a', 'l', 's', 'e'] := rfl
    refine scalarAt_word htext (by simp) ⟨by decide, by decide⟩ (by decide) (by decide) ?_ rest
    intro text
    rw [readScalar, if_neg (by decide), if_neg (by decide), if_pos rfl]

/-! ## Strings -/

theorem bytes_quote (text : String) (rest : List Char) :
    bytes ((quote text).toList ++ rest)
      = ascii '\x22' :: (bytes (text.toList.flatMap quoteChar) ++ ascii '\x22' :: bytes rest) := by
  rw [quote, String.toList_ofList, List.append_assoc, List.cons_append,
    bytes_cons_of_lt (by decide), bytes_append, List.singleton_append,
    bytes_cons_of_lt (by decide)]

theorem scalarAt_string (text : String) (rest : List Char) :
    ScalarAt (bytes ((Value.string text).scalarText.toList ++ rest)) (.string text)
      (bytes rest) := by
  obtain ⟨shorter, hread⟩ := reads_readString text (bytes rest)
  refine ⟨_, _, bytes_quote text rest, ⟨by decide, by decide⟩, by decide, by decide,
    Nat.le_of_lt shorter, ?_⟩
  rw [readScalar, if_neg (by decide), if_neg (by decide), if_neg (by decide), if_pos rfl, hread]
  rfl

/-! ## Whole numbers -/

theorem ne_of_isDigit {b other : UInt8} (h : isDigit b = true) (hother : isDigit other = false) :
    b ≠ other := by
  rintro rfl
  exact Bool.false_ne_true (hother.symm.trans h)

theorem bytes_toDigits (n : Nat) (rest : List Char) :
    bytes (Nat.toDigits 10 n ++ rest) = (Nat.toDigits 10 n).map ascii ++ bytes rest := by
  rw [bytes_append, bytes_of_lt fun c hmem =>
    lt_of_isDigit (Nat.isDigit_of_mem_toDigits (by decide) (by decide) hmem)]

theorem opens_of_isDigit {b : UInt8} (h : isDigit b = true) : Opens b where
  not_blank := by
    rw [isBlank, decide_eq_false (ne_of_isDigit h (by decide)),
      decide_eq_false (ne_of_isDigit h (by decide)), decide_eq_false (ne_of_isDigit h (by decide)),
      decide_eq_false (ne_of_isDigit h (by decide))]
    rfl
  ne_close := ne_of_isDigit h (by decide)

theorem bytes_ofNat (n : Nat) (rest : List Char) :
    bytes ((Value.integer (.ofNat n)).scalarText.toList ++ rest)
      = (Nat.toDigits 10 n).map ascii ++ bytes rest := by
  rw [← bytes_toDigits, ← Nat.toList_repr]
  rfl

theorem bytes_negSucc (n : Nat) (rest : List Char) :
    bytes ((Value.integer (.negSucc n)).scalarText.toList ++ rest)
      = ascii '-' :: ((Nat.toDigits 10 (n + 1)).map ascii ++ bytes rest) := by
  have htext : (Value.integer (.negSucc n)).scalarText.toList = '-' :: Nat.toDigits 10 (n + 1) := by
    rw [← Nat.toList_repr]
    exact String.toList_append
  rw [htext, List.cons_append, bytes_cons_of_lt (by decide), bytes_toDigits]

theorem scalarAt_ofNat {n : Nat} (hfits : n ≤ maxSignificand) {rest : List Char}
    (hends : Ends (bytes rest)) :
    ScalarAt (bytes ((Value.integer (.ofNat n)).scalarText.toList ++ rest)) (.integer (.ofNat n))
      (bytes rest) := by
  obtain ⟨shorter, hread⟩ := reads_readNumber false hfits hends
  rw [bytes_ofNat]
  cases hdigits : Nat.toDigits 10 n with
  | nil => exact absurd hdigits Nat.toDigits_ne_nil
  | cons c digits =>
    have hc : isDigit (ascii c) = true := isDigit_ascii
      (Nat.isDigit_of_mem_toDigits (by decide) (by decide) (hdigits ▸ List.mem_cons_self))
    revert shorter hread
    rw [hdigits, List.map_cons, List.cons_append]
    intro shorter hread
    refine ⟨_, _, rfl, opens_of_isDigit hc, ne_of_isDigit hc (by decide),
      ne_of_isDigit hc (by decide), Nat.le_of_lt_succ shorter, ?_⟩
    rw [readScalar, if_neg (ne_of_isDigit hc (by decide)), if_neg (ne_of_isDigit hc (by decide)),
      if_neg (ne_of_isDigit hc (by decide)), if_neg (ne_of_isDigit hc (by decide)),
      if_neg (ne_of_isDigit hc (by decide)), if_pos hc, hread]
    rfl

theorem scalarAt_negSucc {n : Nat} (hfits : n < 9223372036854775808) {rest : List Char}
    (hends : Ends (bytes rest)) :
    ScalarAt (bytes ((Value.integer (.negSucc n)).scalarText.toList ++ rest))
      (.integer (.negSucc n)) (bytes rest) := by
  have hvalue : wholeValue true (n + 1) = .integer (.negSucc n) := by
    rw [wholeValue, if_neg (by decide), if_neg (by omega)]
    rfl
  have hfits : n + 1 ≤ maxSignificand := by
    rw [maxSignificand]
    omega
  obtain ⟨shorter, hread⟩ := reads_readNumber true hfits hends
  refine ⟨_, _, bytes_negSucc n rest, ⟨by decide, by decide⟩, by decide, by decide,
    Nat.le_of_lt shorter, ?_⟩
  rw [readScalar, if_neg (by decide), if_neg (by decide), if_neg (by decide), if_neg (by decide),
    if_pos rfl, hread, hvalue]
  rfl

/-- **A whole number that fits 64 bits stands where it was written.** -/
theorem scalarAt_integer {n : Int} (hlow : -9223372036854775808 ≤ n) (hhigh : n ≤ maxSignificand)
    {rest : List Char} (hends : Ends (bytes rest)) :
    ScalarAt (bytes ((Value.integer n).scalarText.toList ++ rest)) (.integer n) (bytes rest) := by
  cases n with
  | ofNat n => exact scalarAt_ofNat (Int.ofNat_le.1 hhigh) hends
  | negSucc n => exact scalarAt_negSucc (by omega) hends

/-! ## Doubles -/

/-- A number stands where it was written, with a minus if it is negative: its first byte tells that
it is one, and then its digits are read. -/
theorem gives_readScalar {chars rest : List Char} {negative : Bool} {outcome : Option Float}
    (hascii : ∀ c ∈ chars, c.toNat < 128)
    (hfirst : ∃ c others, c.isDigit = true ∧ chars = c :: others)
    (hread : GivesRead (readNumber negative (chars.map ascii ++ bytes rest)) outcome
      (bytes rest)) :
    ∃ b text, bytes ((if negative then ['-'] else []) ++ chars ++ rest) = b :: text ∧
      Opens b ∧ b ≠ ascii '[' ∧ b ≠ ascii '\x7b' ∧ Gives (readScalar b text) outcome
        (bytes rest) := by
  cases negative with
  | true =>
    have hbytes : bytes ((if true = true then ['-'] else []) ++ chars ++ rest)
        = ascii '-' :: (chars.map ascii ++ bytes rest) := by
      rw [if_pos rfl, List.singleton_append, List.cons_append, bytes_cons_of_lt (by decide),
        bytes_append, bytes_of_lt hascii]
    refine ⟨_, _, hbytes, ⟨by decide, by decide⟩, by decide, by decide, ?_⟩
    rw [readScalar, if_neg (by decide), if_neg (by decide), if_neg (by decide), if_neg (by decide),
      if_pos rfl]
    exact hread.map _
  | false =>
    have hbytes : bytes ((if false = true then ['-'] else []) ++ chars ++ rest)
        = chars.map ascii ++ bytes rest := by
      rw [if_neg Bool.false_ne_true, List.nil_append, bytes_append, bytes_of_lt hascii]
    obtain ⟨c, others, hdigit, rfl⟩ := hfirst
    have hc : isDigit (ascii c) = true := isDigit_ascii hdigit
    rw [List.map_cons, List.cons_append] at hbytes hread
    refine ⟨_, _, hbytes, opens_of_isDigit hc, ne_of_isDigit hc (by decide),
      ne_of_isDigit hc (by decide), ?_⟩
    rw [readScalar, if_neg (ne_of_isDigit hc (by decide)), if_neg (ne_of_isDigit hc (by decide)),
      if_neg (ne_of_isDigit hc (by decide)), if_neg (ne_of_isDigit hc (by decide)),
      if_neg (ne_of_isDigit hc (by decide)), if_pos hc]
    exact hread.map _

/-- A double stands at a text, up to another one; or if there is none, then no scalar does that is
more than a null. -/
def DoubleAt (text : List UInt8) (outcome : Option Float) (after : List UInt8) : Prop :=
  ∃ b rest, text = b :: rest ∧ Opens b ∧ b ≠ ascii '[' ∧ b ≠ ascii '\x7b' ∧
    match outcome with
    | some x => ∃ le, readScalar b rest = .ok (.float x, ⟨after, le⟩)
    | none => ∀ read, readScalar b rest = .ok read → read.1 = .null

/-- Where something that is not a finite number was written, there is a null. -/
theorem doubleAt_of_null {x : Float} {rest : List Char} (htext : floatText x = "null") :
    DoubleAt (bytes ((floatText x).toList ++ rest)) none (bytes rest) := by
  obtain ⟨b, text, hcons, hopens, hlist, hobject, le, hread⟩ := scalarAt_null rest
  refine ⟨b, text, ?_, hopens, hlist, hobject, ?_⟩
  · rw [htext]
    exact hcons
  · intro read hother
    obtain rfl := Except.ok.inj (hread.symm.trans hother)
    rfl

/-- **Where a double was written, what its text is read as stands.** -/
theorem doubleAt_floatText (x : Float) {rest : List Char} (hends : Ends (bytes rest)) :
    DoubleAt (bytes ((floatText x).toList ++ rest)) (reread? x) (bytes rest) := by
  cases hparts : parts x with
  | nan =>
    have hnone : reread? x = none := by rw [reread?, hparts]
    rw [hnone]
    exact doubleAt_of_null (by rw [floatText, hparts])
  | infinite negative =>
    have hnone : reread? x = none := by rw [reread?, hparts]
    rw [hnone]
    exact doubleAt_of_null (by rw [floatText, hparts])
  | finite negative mantissa exponent =>
    obtain ⟨layout, hlegible, htext, hreread⟩ := exists_layout hparts
    obtain ⟨b, text, hcons, hopens, hlist, hobject, hgives⟩ :=
      gives_readScalar hlegible.lt_of_mem_chars hlegible.chars_eq_cons
        (hlegible.gives_readNumber negative hends)
    rw [htext, hreread]
    refine ⟨b, text, hcons, hopens, hlist, hobject, ?_⟩
    cases hscaled : scaledOnce negative layout.significand layout.exponent with
    | some y => rwa [hscaled] at hgives
    | none =>
      rw [hscaled] at hgives
      obtain ⟨fault, hfault⟩ := hgives
      intro read hread
      cases hfault.symm.trans hread

end BlockScript.Json
