import GuidedChart.Decimal.Double
import GuidedChart.Decimal.Integer

/-!
# Doubles with a fixed number of places

The exact value of a double, rounded to a number of decimal places with ties to the even
neighbour. The sign is kept even where everything is rounded away, and on a zero.
-/

namespace GuidedChart.Decimal

/-- The quotient rounded to the nearest natural number, a tie to the even one. -/
def roundDiv (num den : Nat) : Nat :=
  let q := num / den
  let r := num % den
  if 2 * r < den then q
  else if den < 2 * r then q + 1
  else if q % 2 = 0 then q else q + 1

/-- `significand · 2 ^ exponent` in units of the last of `places` decimal places. -/
def scaled (places significand : Nat) (exponent : Int) : Nat :=
  if 0 ≤ exponent then significand * Nat.pow 2 exponent.toNat * Nat.pow 10 places
  else roundDiv (significand * Nat.pow 10 places) (Nat.pow 2 (-exponent).toNat)

def pointed (places units : Nat) : String :=
  let unit := Nat.pow 10 places
  let digits := Nat.toDigits 10 (units % unit)
  natText (units / unit) ++ "." ++
    String.ofList (List.replicate (places - digits.length) '0' ++ digits)

def places (count : Nat) (x : Float) : String :=
  match doubleParts x with
  | .notNumber => "NaN"
  | .infinite negative => if negative then "-inf" else "inf"
  | .finite negative significand exponent =>
    (if negative then "-" else "") ++ pointed count (scaled count significand exponent)

end GuidedChart.Decimal
