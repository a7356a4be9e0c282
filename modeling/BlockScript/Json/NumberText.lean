import BlockScript.Number.Shortest

/-!
# How documents write numbers

A double is written with the fewest digits that stand for it and for no other double.

## What is here

* `Json.PointStyle` and `Json.pointStyle` — which numbers are written without an exponent.
* `Json.decimalText` — a decimal in that style.
* `Json.floatText` — a double; what is not a finite number is written `null`.
-/

set_option autoImplicit false
namespace BlockScript.Json

open Number

/-- The numbers that are written without an exponent, by the power of ten of their first digit. -/
structure PointStyle where
  least : Int
  greatest : Int

/-- Documents write an exponent below `0.00001` and from `1e+16` on. -/
def pointStyle : PointStyle := ⟨-5, 15⟩

/-- So many zeros. -/
def zeros (n : Nat) : String := String.ofList (List.replicate n '0')

/-- A decimal without an exponent, and with at least one digit on each side of the point. -/
def plainText (digits : List Char) (exponent : Int) : String :=
  let first := exponent + digits.length - 1
  if 0 ≤ exponent then String.ofList digits ++ zeros exponent.toNat ++ ".0"
  else if 0 ≤ first then
    let whole := (first + 1).toNat
    String.ofList (digits.take whole) ++ "." ++ String.ofList (digits.drop whole)
  else "0." ++ zeros (-first - 1).toNat ++ String.ofList digits

/-- A decimal with one digit before the point and a signed exponent. -/
def exponentText (digits : List Char) (exponent : Int) : String :=
  let first := exponent + digits.length - 1
  let fraction := digits.drop 1
  String.ofList (digits.take 1)
    ++ (if fraction.isEmpty then "" else "." ++ String.ofList fraction)
    ++ "e" ++ (if first < 0 then "-" else "+") ++ toString first.natAbs

/-- A positive decimal as documents write it. -/
def decimalText (decimal : Decimal) : String :=
  let digits := Nat.toDigits 10 decimal.digits
  let first := decimal.exponent + digits.length - 1
  if pointStyle.least ≤ first ∧ first ≤ pointStyle.greatest then
    plainText digits decimal.exponent
  else exponentText digits decimal.exponent

/-- A double as documents write it. -/
def floatText (x : Float) : String :=
  match parts x with
  | .nan => "null"
  | .infinite _ => "null"
  | .finite negative mantissa exponent =>
    let text := if mantissa = 0 then "0.0" else decimalText (shortest mantissa exponent)
    if negative then "-" ++ text else text

end BlockScript.Json
