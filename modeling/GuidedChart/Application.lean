import GuidedChart.Derivation
import GuidedChart.Utterance

/-!
# Applications of rules

A rule applied to children on a span. Its semantic function offers formulas, and each of them
becomes a candidate.
-/

namespace GuidedChart

/-- A rule, the children it is applied to, and where. -/
structure Application where
  rule : Rule
  span : Span
  children : List Derivation

namespace Application

/-- Does the span lie within the tokens? A floating span lies nowhere, and so nowhere else. -/
def isWithin (application : Application) (tokens : List String) : Bool :=
  match application.span with
  | .anchored start stop => start ≤ stop && stop ≤ tokens.length
  | .floating _ => true

def phrase? (application : Application) (tokens : List String) : Option String :=
  match application.span with
  | .anchored start stop => GuidedChart.phrase? tokens start stop
  | .floating _ => none

def isDefined (application : Application) (tokens : List String) : Bool :=
  !application.rule.semantics.readsPhrase || application.isWithin tokens

/-- The derivation of one formula, not yet executed. -/
def derive (application : Application) (formula : Formula) : Derivation :=
  .ofFormula application.rule application.span application.children formula

/-- The candidates of the application, in the order in which they are offered. -/
def candidates (application : Application) (tokens : List String) : List Derivation :=
  (application.rule.semantics.formulas (application.phrase? tokens)
    (application.children.map (·.formula))).map application.derive

end Application

end GuidedChart
