import BlockScript.Number.Binary

/-!
# The shortest decimal of a double

Among the decimals that are nearer to a double than to any other double, the shortest one is
chosen, and among the shortest the one nearest to it. The search is direct: for 1, 2, … digits it
looks at the two neighbours of the number on the grid of decimals with that many digits.

## What is here

* `Number.Decimal` — whole digits times a power of ten.
* `Number.Reach` — a positive number and the decimals that stand for it, in whole numbers.
* `Number.onGrid?` — the nearest decimal of a grid that stands for the number, if one does.
* `Number.shortest` — the shortest decimal of a positive double.
-/

set_option autoImplicit false
namespace BlockScript.Number

/-- The number `digits * 10 ^ exponent`. -/
structure Decimal where
  digits : Nat
  exponent : Int
  deriving DecidableEq, Repr

/-- A positive number with the interval of numbers for which it stands. All of them are given as
numerators over one denominator. -/
structure Reach where
  low : Nat
  value : Nat
  high : Nat
  denominator : Nat
  /-- Whether the ends belong to the interval. -/
  closed : Bool

/-- The reach of the double `mantissa * 2 ^ exponent`: half of the way to the next double on each
side. Below a power of two the doubles are twice as dense. The ends round to the double whose
mantissa is even. -/
def Reach.ofScaled (mantissa : Nat) (exponent : Int) : Reach :=
  let unit := Nat.pow 2 (exponent - 2).toNat
  let below := if mantissa = Nat.pow 2 52 ∧ -1074 < exponent then 1 else 2
  { low := (4 * mantissa - below) * unit
    value := 4 * mantissa * unit
    high := (4 * mantissa + 2) * unit
    denominator := Nat.pow 2 (2 - exponent).toNat
    closed := mantissa % 2 = 0 }

/-- Whether `digits * step`, over the denominator and the scale of the reach, is in it. -/
def Reach.holds (reach : Reach) (point scale : Nat) : Bool :=
  if reach.closed then reach.low * scale ≤ point && point ≤ reach.high * scale
  else reach.low * scale < point && point < reach.high * scale

/-- Of the multiples of `10 ^ exponent` that stand for the number, one of its two neighbours: the
nearer one, and of two equally near ones the even one. -/
def onGrid? (reach : Reach) (exponent : Int) : Option Nat :=
  let scale := Nat.pow 10 (-exponent).toNat
  let step := reach.denominator * Nat.pow 10 exponent.toNat
  let value := reach.value * scale
  let below := value / step
  let fitsBelow := reach.holds (below * step) scale
  let fitsAbove := reach.holds ((below + 1) * step) scale
  if fitsBelow && fitsAbove then some (roundDiv value step)
  else if fitsBelow then some below
  else if fitsAbove then some (below + 1)
  else none

/-- The number of decimal digits of a whole number. -/
def digitCount (n : Nat) : Nat := (Nat.toDigits 10 n).length

/-- The power of ten of the first digit of `num / den`, for positive numbers. -/
def leadingPower (num den : Nat) : Int :=
  let guess : Int := (digitCount num : Int) - digitCount den
  if den * Nat.pow 10 guess.toNat ≤ num * Nat.pow 10 (-guess).toNat then guess else guess - 1

/-- The first grid, from `digits` digits on and with `tries` more to go, on which a decimal stands
for the number whose first digit has the given power of ten. -/
def searchGrids (reach : Reach) (first : Int) (digits : Nat) : Nat → Decimal
  | 0 => ⟨reach.value / reach.denominator, 0⟩
  | tries + 1 =>
    let exponent := first - digits + 1
    match onGrid? reach exponent with
    | some found =>
      -- A number just below a power of ten can be written as that power.
      if found % 10 = 0 then ⟨found / 10, exponent + 1⟩ else ⟨found, exponent⟩
    | none => searchGrids reach first (digits + 1) tries

/-- The shortest decimal of the double `mantissa * 2 ^ exponent`, which is not zero. Seventeen
digits always suffice. -/
def shortest (mantissa : Nat) (exponent : Int) : Decimal :=
  let reach := Reach.ofScaled mantissa exponent
  searchGrids reach (leadingPower reach.value reach.denominator) 1 17

end BlockScript.Number
