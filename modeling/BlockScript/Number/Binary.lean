/-!
# Doubles as exact numbers

A finite double is a whole number times a power of two. Rules that must be exact to the last digit
(the length of a hypotenuse, the shortest decimal, a fixed number of places) take a double apart
into these two numbers and work with natural numbers only.

## What is here

* `Number.Parts` and `Number.parts` — what a double holds.
* `Number.ofScaled` — the double `k * 2 ^ e`, for a `k` of at most 53 bits.
* `Number.roundDiv` — a quotient rounded to the nearest whole number, a half to the even one.
-/

set_option autoImplicit false
namespace BlockScript.Number

/-- What a double holds. -/
inductive Parts where
  | nan
  | infinite (negative : Bool)
  /-- The number `mantissa * 2 ^ exponent`, with its sign. -/
  | finite (negative : Bool) (mantissa : Nat) (exponent : Int)
  deriving DecidableEq, Repr

/-- Takes a double apart: one bit of sign, 11 bits of exponent, 52 bits of mantissa. -/
def parts (x : Float) : Parts :=
  let bits := x.toBits.toNat
  let negative := decide (Nat.pow 2 63 ≤ bits)
  let biased : Nat := bits / Nat.pow 2 52 % 2048
  let fraction : Nat := bits % Nat.pow 2 52
  if biased = 2047 then
    if fraction = 0 then .infinite negative else .nan
  else if biased = 0 then .finite negative fraction (-1074)
  else .finite negative (Nat.pow 2 52 + fraction) (biased - 1075 : Int)

/-- The double `mantissa * 2 ^ exponent`, for a mantissa of at most `2 ^ 53` that is below
`2 ^ 52` only if the exponent is the least one, -1074. What is too large is infinite: a carry out of
the mantissa moves into the exponent by itself. -/
def ofScaled (mantissa : Nat) (exponent : Int) : Float :=
  let bits := (exponent + 1074).toNat * Nat.pow 2 52 + mantissa
  Float.ofBits (UInt64.ofNat (min bits (2047 * Nat.pow 2 52)))

/-- The whole number nearest to `num / den`; of two equally near ones the even one. -/
def roundDiv (num den : Nat) : Nat :=
  let quotient := num / den
  let twice := 2 * (num % den)
  if twice < den then quotient
  else if den < twice then quotient + 1
  else if quotient % 2 = 0 then quotient
  else quotient + 1

end BlockScript.Number
