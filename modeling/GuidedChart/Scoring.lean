import GuidedChart.Decimal.Double
import GuidedChart.Decimal.Places
import GuidedChart.Derivation
import GuidedChart.Weights

/-!
# Scores

A scorer ranks derivations; a linear model scores a derivation by the scores of its children and
the weight of its rule. The best derivations of a list are found by a stable sort: of two equal
scores the earlier one comes first.
-/

namespace GuidedChart

/-- A ranking of derivations whose children are scored already. -/
abbrev Scorer := Derivation → Float

/-- The sum of the scores of the children, from left to right, and of the weight of the rule. The
empty sum is a negative zero, which leaves every weight as it is. -/
def Weights.scorer (weights : Weights) : Scorer := fun d =>
  d.children.foldl (fun sum child => sum + child.score) (-0.0) + weights.weight d.feature

namespace Derivation

def outranks (d e : Derivation) : Bool :=
  Decimal.exceeds d.score e.score

/-- A derivation put into a sorted list, before the first one that does not outrank it. -/
def insertRanked (d : Derivation) : List Derivation → List Derivation
  | [] => [d]
  | e :: es => if e.outranks d then e :: insertRanked d es else d :: e :: es

/-- The derivations from the greatest score to the least, equal scores in their order. -/
def ranked : List Derivation → List Derivation
  | [] => []
  | d :: ds => insertRanked d (ranked ds)

/-- The earliest of the derivations that no other one outranks on the way. -/
def best? : List Derivation → Option Derivation
  | [] => none
  | d :: ds => some (ds.foldl (fun best d => if d.outranks best then d else best) d)

def text (d : Derivation) : String :=
  d.categoryName ++ " " ++ d.span.text ++ ": " ++ d.formula.text ++ " = " ++ d.outcomeText ++
    " [score " ++ Decimal.places 3 d.score ++ "]"

end Derivation

end GuidedChart
