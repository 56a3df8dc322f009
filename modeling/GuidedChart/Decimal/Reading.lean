import GuidedChart.Decimal.Integer

/-!
# Reading a double

A decimal number has an optional sign, digits with at most one point among them, and an optional
exponent; infinities and the value that is no number are written as words in letters of any case.
The double nearest to the number is read.
-/

namespace GuidedChart.Decimal

/-- The double nearest to `significand · 10 ^ exponent`. Exponents beyond every double are cut
short before the power of ten is formed. -/
def nearest (significand : Nat) (exponent : Int) : Float :=
  let length : Int := (Nat.toDigits 10 significand).length
  if significand = 0 || length + exponent < -400 then 0.0
  else if 400 < length + exponent then Float.ofBits 0x7FF0000000000000
  else if exponent < 0 then Float.ofScientific significand true (-exponent).toNat
  else Float.ofScientific significand false exponent.toNat

def readMagnitude? (cs : List Char) : Option Float :=
  let whole := cs.takeWhile Char.isDigit
  let afterWhole := cs.dropWhile Char.isDigit
  let (part, afterPart) := match afterWhole with
    | '.' :: rest => (rest.takeWhile Char.isDigit, rest.dropWhile Char.isDigit)
    | rest => ([], rest)
  if whole.isEmpty && part.isEmpty then none
  else
    let significand := Nat.ofDigitChars 10 (whole ++ part) 0
    match afterPart with
    | [] => some (nearest significand (-(part.length : Int)))
    | e :: rest =>
      if e = 'e' || e = 'E' then
        (readInt? rest).map fun exponent => nearest significand (exponent - part.length)
      else none

/-- A word that stands for a value beyond the numbers. -/
def readSpecial? (cs : List Char) : Option Float :=
  let word := String.ofList (cs.map Char.toLower)
  if word = "inf" || word = "infinity" then some (Float.ofBits 0x7FF0000000000000)
  else if word = "nan" then some (Float.ofBits 0x7FF8000000000000)
  else none

/-- A double, with or without a sign in front. -/
def readDouble? (cs : List Char) : Option Float :=
  let unsigned (cs : List Char) := (readMagnitude? cs).or (readSpecial? cs)
  match cs with
  | '-' :: rest => (unsigned rest).map (- ·)
  | '+' :: rest => unsigned rest
  | cs => unsigned cs

end GuidedChart.Decimal
