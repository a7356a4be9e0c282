import BlockScript.Text.Blank
import BlockScript.Text.Integer

/-!
# Repeat counts

How often a loop runs its body. Editors hand over numbers, texts or nothing at all; every one of
them is normalized to a count of 32 bits that is not zero.

## What is here

* `RepeatCount` — a count with its bounds; its default is four.
* `RepeatCount.ofInt` — an integer within the bounds stands for itself, any other for the default.
* `RepeatCount.ofFloat` — the same for a number that need not be whole.
* `RepeatCount.ofText` — the count of an editor's text, by the integer the text begins with.
-/

set_option autoImplicit false
namespace BlockScript

/-- The number of iterations of a loop: at least one, and at most the largest number of 32 bits. -/
structure RepeatCount where
  /-- The number itself. -/
  val : Nat
  pos : 1 ≤ val
  le_maximum : val ≤ 4294967295
  deriving DecidableEq, Repr

namespace RepeatCount

/-- The count of a loop that is given nothing usable. -/
def standard : RepeatCount := ⟨4, by decide, by decide⟩

instance : Inhabited RepeatCount := ⟨standard⟩

/-- An integer within the bounds is its own count; any other gives the standard count. -/
def ofInt (n : Int) : RepeatCount :=
  if h : 1 ≤ n ∧ n ≤ 4294967295 then ⟨n.toNat, by omega, by omega⟩ else standard

/-- The count of an editor's text: white space around it is ignored, and what follows the integer
it begins with is ignored too. A text that begins with no integer gives the standard count. -/
def ofText (text : String) : RepeatCount :=
  match Text.integer? (Text.leadingInteger (Text.trim text.toList)) with
  | some n => ofInt n
  | none => standard

/-- The count of a number that need not be whole: its fraction is dropped. What is negative or no
number at all is taken as zero, and what is beyond 64 bits as the largest number of 64 bits. -/
def ofFloat (x : Float) : RepeatCount := ofInt x.toUInt64.toNat

theorem val_ofInt (n : Int) :
    (ofInt n).val = if 1 ≤ n ∧ n ≤ 4294967295 then n.toNat else 4 := by
  unfold ofInt
  split <;> rfl

@[ext] theorem ext {a b : RepeatCount} (h : a.val = b.val) : a = b := by
  cases a; cases b; cases h; rfl

/-- The number of a count is its own count. -/
theorem ofInt_val (count : RepeatCount) : ofInt count.val = count := by
  have hbounds : 1 ≤ (count.val : Int) ∧ (count.val : Int) ≤ 4294967295 := by
    have := count.pos
    have := count.le_maximum
    omega
  ext
  rw [val_ofInt, if_pos hbounds, Int.toNat_natCast]

end RepeatCount
end BlockScript
