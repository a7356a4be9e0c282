/-!
# Decimals read by one scaling

A decimal is turned into a double by two roundings: its digits become a double, and this is
multiplied or divided once by the double nearest to a power of ten. The result can differ in its
last bits from the double nearest to the decimal.

## What is here

* `Number.powerOfTen` — the double nearest to a power of ten.
* `Number.scaled?` — digits times a power of ten, or nothing if that is too large.
-/

set_option autoImplicit false
namespace BlockScript.Number

/-- The double nearest to `10 ^ exponent`. -/
def powerOfTen (exponent : Nat) : Float := Float.ofScientific 1 false exponent

/-- Divides by `10 ^ exponent`, at most 308 powers at a time. -/
def shrink (x : Float) (exponent : Nat) : Float :=
  if 308 < exponent then
    if x == 0 then x else shrink (x / powerOfTen 308) (exponent - 308)
  else x / powerOfTen exponent
termination_by exponent
decreasing_by omega

/-- The double that `digits * 10 ^ exponent` is read as; nothing if it is too large for one. -/
def scaled? (digits : Nat) (exponent : Int) : Option Float :=
  let x := Float.ofNat digits
  match exponent with
  | .ofNat power =>
    if 308 < power then if x == 0 then some x else none
    else
      let y := x * powerOfTen power
      if y.isInf then none else some y
  | .negSucc power => some (shrink x (power + 1))

end BlockScript.Number
