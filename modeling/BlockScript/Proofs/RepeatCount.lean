import BlockScript.Proofs.Text.Trim
import BlockScript.RepeatCount
import BlockScript.Script.Form

/-!
# Normalized counts

An integer that is no number of iterations is turned into the usual number of them.  A text means
the integer that it begins with, and so does an atom of a script, whether it was taken for an
integer or for a word.

## What is here

* `RepeatCount.Normalizes` — the count that an integer stands for.
* `RepeatCount.ofText_eq_ofInt` and `RepeatCount.ofText_eq_standard` — the count of a text.
* `Script.Atom.count_ofText` — **the count of an atom is the count of its text**.
-/

set_option autoImplicit false
namespace BlockScript

namespace RepeatCount

/-- A count is an integer that is within the bounds, or else it is four. -/
def Normalizes (n : Int) (count : RepeatCount) : Prop :=
  (count.val : Int) = if 1 ≤ n ∧ n ≤ 4294967295 then n else 4

theorem normalizes_ofInt (n : Int) : Normalizes n (ofInt n) := by
  rw [Normalizes, val_ofInt]
  split
  · omega
  · rfl

theorem Normalizes.eq_ofInt {n : Int} {count : RepeatCount} (h : Normalizes n count) :
    count = ofInt n := by
  ext
  exact Int.ofNat.inj (h.trans (normalizes_ofInt n).symm)

theorem ofInt_eq_standard {n : Int} (h : ¬ (1 ≤ n ∧ n ≤ 4294967295)) : ofInt n = standard :=
  dif_neg h

/-! ## Texts -/

/-- The count of a text is that of the integer that it begins with. -/
theorem ofText_eq_ofInt {text : String} {middle : List Char} {n : Int}
    (htrims : Text.Trims text.toList middle) (hbegins : Text.BeginsWith middle n) :
    ofText text = ofInt n := by
  rw [ofText, ← htrims.eq_trim, Text.integer?_leadingInteger_eq_some_iff.2 hbegins]

/-- The count of a text that begins with no integer is the usual one. -/
theorem ofText_eq_standard {text : String} {middle : List Char}
    (htrims : Text.Trims text.toList middle) (hnone : ∀ n, ¬ Text.BeginsWith middle n) :
    ofText text = standard := by
  have hinteger : Text.integer? (Text.leadingInteger middle) = none := by
    rw [Option.eq_none_iff_forall_not_mem]
    intro n hn
    exact hnone n (Text.integer?_leadingInteger_eq_some_iff.1 hn)
  rw [ofText, ← htrims.eq_trim, hinteger]

end RepeatCount

namespace Text

theorem isWhiteSpace_eq_false_of_isDigit {c : Char} (h : c.isDigit = true) :
    isWhiteSpace c = false := by
  have hlow : 48 ≤ c.toNat := (Char.isDigit_iff_toNat.1 h).1
  have hhigh : c.toNat ≤ 57 := (Char.isDigit_iff_toNat.1 h).2
  simp only [isWhiteSpace, whiteSpaceRanges, List.any_cons, List.any_nil, Bool.or_eq_false_iff,
    Bool.and_eq_false_iff, decide_eq_false_iff_not, and_true]
  omega

/-- There is no white space in an integer. -/
theorem IsInteger.isWhiteSpace_eq_false {text : List Char} {n : Int} (h : IsInteger text n) :
    ∀ c ∈ text, isWhiteSpace c = false := by
  cases h with
  | unsigned h =>
    intro c hc
    exact isWhiteSpace_eq_false_of_isDigit (h.isDigit c hc)
  | plus h | minus h =>
    rw [List.forall_mem_cons]
    exact ⟨by decide, fun c hc => isWhiteSpace_eq_false_of_isDigit (h.isDigit c hc)⟩

/-- Nothing is trimmed of an integer. -/
theorem IsInteger.trims {text : List Char} {n : Int} (h : IsInteger text n) : Trims text text where
  around := ⟨[], [], by simp, nofun, nofun⟩
  head c hc := h.isWhiteSpace_eq_false c (List.mem_of_mem_head? hc)
  last c hc := h.isWhiteSpace_eq_false c (List.mem_of_mem_getLast? hc)

/-- Nothing follows an integer that is a whole text. -/
theorem IsInteger.beginsWith {text : List Char} {n : Int} (h : IsInteger text n) :
    BeginsWith text n :=
  ⟨text, [], (List.append_nil text).symm, h, nofun⟩

end Text

/-- An integer as a text has the count of the integer. -/
theorem RepeatCount.ofText_of_isInteger {text : String} {n : Int}
    (h : Text.IsInteger text.toList n) : ofText text = ofInt n :=
  ofText_eq_ofInt h.trims h.beginsWith

/-! ## Atoms -/

/-- **The count of an atom is the count of its text.**  Whether the atom is taken for an integer
makes no difference. -/
theorem Script.Atom.count_ofText (text : List Char) :
    (Atom.ofText text).count = RepeatCount.ofText (String.ofList text) := by
  unfold Atom.ofText
  split
  · next n hinteger =>
    have hinteger : Text.IsInteger (String.ofList text).toList n := by
      rw [String.toList_ofList]
      exact Text.integer?_eq_some_iff.1 hinteger
    split
    · rw [Atom.count, RepeatCount.ofText_of_isInteger hinteger]
    · rfl
  · rfl

end BlockScript
