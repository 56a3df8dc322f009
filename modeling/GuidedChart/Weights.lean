import GuidedChart.Decimal.Reading
import GuidedChart.Error
import GuidedChart.Text.Blank

/-!
# Weights of features

A linear model gives every feature a weight, zero unless a file of weights says otherwise. The file
has one feature on a line, then a tab, then the weight; blank lines and lines that start with a
number sign are passed over. Of several lines for one feature the last one counts.
-/

namespace GuidedChart

/-- The features that were given a weight, each once. -/
abbrev Weights := List (String × Float)

namespace Weights

def weight (weights : Weights) (feature : String) : Float :=
  (weights.lookup feature).getD 0.0

def set (weights : Weights) (feature : String) (value : Float) : Weights :=
  match weights with
  | [] => [(feature, value)]
  | (other, weight) :: rest =>
    if other = feature then (feature, value) :: rest else (other, weight) :: set rest feature value

/-- What stands before the last tab and what stands behind it. -/
def splitLastTab? (cs : List Char) : Option (List Char × List Char) :=
  let isText := fun c : Char => c ≠ '\t'
  match cs.reverse.dropWhile isText with
  | _ :: before => some (before.reverse, (cs.reverse.takeWhile isText).reverse)
  | [] => none

/-- The weights with what one line says, given the number of the line. -/
def readLine (weights : Weights) (number : Nat) (line : List Char) : Except ConfigError Weights :=
  let line := Text.trimRight line
  if line.isEmpty || line.head? = some '#' then .ok weights
  else
    match splitLastTab? line with
    | none => .error (.noWeight number)
    | some (feature, weight) =>
      match Decimal.readDouble? (Text.trim weight) with
      | none => .error (.notANumber number)
      | some value => .ok (weights.set (String.ofList feature) value)

def readLines (weights : Weights) (number : Nat) : List (List Char) → Except ConfigError Weights
  | [] => .ok weights
  | line :: lines => do (← weights.readLine number line).readLines (number + 1) lines

def ofText (text : String) : Except ConfigError Weights :=
  readLines [] 1 (Text.lines text.toList)

end Weights

end GuidedChart
