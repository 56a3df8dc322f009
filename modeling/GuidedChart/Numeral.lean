import GuidedChart.Decimal.Integer

/-!
# Numerals

Numbers as they occur in utterances: in decimal digits, with a minus sign for the negative ones,
or as one of the English words from zero to twenty.
-/

namespace GuidedChart

open Decimal (readWord?)

/-- The number words, each at the place of its number. -/
def numberWords : List String :=
  ["zero", "one", "two", "three", "four", "five", "six", "seven", "eight", "nine", "ten",
    "eleven", "twelve", "thirteen", "fourteen", "fifteen", "sixteen", "seventeen", "eighteen",
    "nineteen", "twenty"]

/-- Is the text written in digits, with at most a minus sign before them? -/
def isNumeral : List Char → Bool
  | '-' :: ds => !ds.isEmpty && ds.all Char.isDigit
  | ds => !ds.isEmpty && ds.all Char.isDigit

/-- The number a phrase stands for. Digits stand for their number only if it fits in a word of 64
bits. -/
def numeral? (phrase : String) : Option Int :=
  if isNumeral phrase.toList then readWord? phrase.toList
  else (numberWords.idxOf? phrase).map fun n : Nat => (n : Int)

end GuidedChart
