import BlockScript.Number.Binary

/-!
# The length of a hypotenuse

The distance between two points is the square root of a sum of two squares. It is computed here
as one operation: the two legs are whole numbers times powers of two, so the sum of their squares
is exact, and the root is rounded once, to the nearest double. Nothing can overflow or vanish on
the way.

## What is here

* `Number.rootScaled` — the double nearest to the square root of a scaled whole number.
* `Number.hypotenuse` — the double nearest to the length of the hypotenuse over two legs.
-/

set_option autoImplicit false
namespace BlockScript.Number

/-- The double nearest to `sqrt square * 2 ^ exponent`, for an exponent of at least -1074. -/
def rootScaled (square : Nat) (exponent : Int) : Float :=
  if square = 0 then ofScaled 0 (-1074) else
    -- The power of two of the last place of the result.
    let last : Int := max (-1074) ((square.log2 / 2 : Nat) + exponent - 52)
    let num := square * Nat.pow 4 (exponent - last).toNat
    let den := Nat.pow 4 (last - exponent).toNat
    let root := (num / den).sqrt
    -- The square of the point half a place above `root`, four times over.
    let middle := (2 * root + 1) * (2 * root + 1) * den
    let up := middle < 4 * num ∨ (middle = 4 * num ∧ root % 2 = 1)
    ofScaled (if up then root + 1 else root) last

/-- The length of the hypotenuse over two legs: infinite if a leg is infinite, otherwise not a
number if a leg is not one, otherwise the double nearest to the exact length. -/
def hypotenuse (x y : Float) : Float :=
  match parts x, parts y with
  | .infinite _, _ => ofScaled 0 973
  | _, .infinite _ => ofScaled 0 973
  | .nan, _ => x
  | _, .nan => y
  | .finite _ a p, .finite _ b q =>
    let least := min p q
    let a' := a * Nat.pow 2 (p - least).toNat
    let b' := b * Nat.pow 2 (q - least).toNat
    rootScaled (a' * a' + b' * b') least

end BlockScript.Number
