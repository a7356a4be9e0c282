import BlockScript.Number.Binary

/-!
# Numbers with a fixed number of places

## What is here

* `Number.fixed` — a double with a given number of digits after the point. The exact value is
  rounded, a half goes to the even neighbour, and every digit before the point is written out.
-/

set_option autoImplicit false
namespace BlockScript.Number

/-- A whole number of units in the last place, with the point set before the last `places` digits,
of which there is at least one. -/
def placePoint (units places : Nat) : String :=
  let digits := toString (units % Nat.pow 10 places)
  let zeros := String.ofList (List.replicate (places - digits.length) '0')
  toString (units / Nat.pow 10 places) ++ "." ++ zeros ++ digits

/-- A double with `places` digits after the point. A number that rounds to zero keeps its sign. -/
def fixed (places : Nat) (x : Float) : String :=
  match parts x with
  | .nan => "NaN"
  | .infinite negative => if negative then "-inf" else "inf"
  | .finite negative mantissa exponent =>
    let num := mantissa * Nat.pow 2 exponent.toNat * Nat.pow 10 places
    let text := placePoint (roundDiv num (Nat.pow 2 (-exponent).toNat)) places
    if negative then "-" ++ text else text

end BlockScript.Number
