import GuidedChart.Execution
import GuidedChart.Rule

/-!
# Derivations

A derivation is a formula together with how it was built: the rule, the children the rule was
applied to, and the span on which that happened. The tokens a derivation stands on are its anchors;
they are worked out once, when the derivation is made, because children are shared by many parents.
-/

namespace GuidedChart

/-- A formula and how it was built. -/
structure Derivation where
  rule : Rule
  span : Span
  formula : Formula
  children : List Derivation
  /-- The token positions the derivation stands on, in increasing order. -/
  anchors : List Nat
  /-- What became of executing the formula, once it was executed. -/
  outcome : Option Outcome
  score : Float

namespace Derivation

/-- A list of positions in increasing order with one position more. -/
def insertPosition (p : Nat) : List Nat → List Nat
  | [] => [p]
  | q :: qs =>
    if p < q then p :: q :: qs
    else if p = q then q :: qs
    else q :: insertPosition p qs

def anchorsOfAll : List Derivation → List Nat
  | [] => []
  | d :: ds => d.anchors.foldr insertPosition (anchorsOfAll ds)

/-- The token positions of a derivation on a span: the span itself if it is anchored, and otherwise
all that the children stand on. -/
def anchorsOn (span : Span) (children : List Derivation) : List Nat :=
  match span with
  | .anchored start stop => List.range' start (stop - start)
  | .floating _ => anchorsOfAll children

/-- A formula built by a rule over children, not yet executed. -/
def ofFormula (rule : Rule) (span : Span) (children : List Derivation) (formula : Formula) :
    Derivation where
  rule := rule
  span := span
  formula := formula
  children := children
  anchors := anchorsOn span children
  outcome := none
  score := 0.0

def overlap (d e : Derivation) : Nat :=
  (d.anchors.filter (e.anchors.contains ·)).length

def categoryName (d : Derivation) : String :=
  d.rule.lhs.name

def value? (d : Derivation) : Option Value :=
  d.outcome.bind Outcome.value?

def isError (d : Derivation) : Bool :=
  match d.outcome with
  | some (.error _) => true
  | _ => false

def outcomeText (d : Derivation) : String :=
  match d.outcome with
  | none => "?"
  | some (.ok v) => v.text
  | some (.error e) => "error: " ++ e.message

def feature (d : Derivation) : String :=
  "rule=" ++ d.rule.text

end Derivation

end GuidedChart
