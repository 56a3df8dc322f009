/-!
# The parts of a double

A double is read off its bits: a sign and a natural number scaled by a power of two, or one of the
values that are no number. The rank puts the numbers among the doubles in their order, so that
comparisons and everything sorted by them are statements on words.
-/

namespace GuidedChart.Decimal

/-- A double taken apart. A finite one is `± significand · 2 ^ exponent`. -/
inductive DoubleParts where
  | finite (negative : Bool) (significand : Nat) (exponent : Int)
  | infinite (negative : Bool)
  | notNumber
deriving DecidableEq, Repr

/-- The parts of a double, from its sign bit, its eleven bits of exponent and its fifty-two bits of
fraction. -/
def doubleParts (x : Float) : DoubleParts :=
  let bits := x.toBits.toNat
  let negative := bits / 0x8000000000000000 == 1
  let biased := bits / 0x10000000000000 % 0x800
  let fraction := bits % 0x10000000000000
  if biased = 2047 then
    if fraction = 0 then .infinite negative else .notNumber
  else if biased = 0 then .finite negative fraction (-1074)
  else .finite negative (0x10000000000000 + fraction) ((biased : Int) - 1075)

/-- The magnitude of a double, as a number that grows with it: its bits without the sign. -/
def magnitude (x : Float) : UInt64 :=
  x.toBits &&& 0x7FFFFFFFFFFFFFFF

def isNumber (x : Float) : Bool :=
  magnitude x ≤ 0x7FF0000000000000

/-- The place of a number in the order of the doubles, both zeros at the same one. -/
def rank (x : Float) : UInt64 :=
  if x.toBits < 0x8000000000000000 then 0x8000000000000000 + magnitude x
  else 0x8000000000000000 - magnitude x

/-- Is the first double greater than the second? Never, when one of them is no number. -/
def exceeds (x y : Float) : Bool :=
  isNumber x && isNumber y && rank y < rank x

end GuidedChart.Decimal
