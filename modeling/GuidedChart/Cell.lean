import GuidedChart.Coded
import GuidedChart.Decimal.Integer

/-!
# Cells

The coordinates of a chart. An anchored cell holds what a category can mean over a span of tokens;
a floating cell holds what it can mean at a depth of construction, wherever the tokens behind it
stand. Every anchored cell comes before every floating one.
-/

namespace GuidedChart

open Decimal (natText)

/-- The number of a category in its grammar. -/
abbrev CategoryId := Nat

/-- Where a derivation stands: on the tokens from `start` up to but not including `stop`, or at a
floating depth. -/
inductive Span where
  | anchored (start stop : Nat)
  | floating (depth : Nat)
deriving DecidableEq, Repr

namespace Span

def isAnchored : Span → Bool
  | .anchored _ _ => true
  | .floating _ => false

def text : Span → String
  | .anchored start stop => natText start ++ ".." ++ natText stop
  | .floating depth => "@" ++ natText depth

end Span

/-- A coordinate of the chart. -/
inductive Cell where
  | anchored (category : CategoryId) (start stop : Nat)
  | floating (category : CategoryId) (depth : Nat)
deriving DecidableEq, Repr, Inhabited

namespace Cell

def code : Cell → List Nat
  | .anchored category start stop => [0, category, start, stop]
  | .floating category depth => [1, category, depth]

instance : Coded Cell where
  code := code
  code_injective {c d} h := by
    cases c <;> cases d <;> simp_all [code]

def category : Cell → CategoryId
  | .anchored category _ _ => category
  | .floating category _ => category

/-- The span of every derivation that is made for the cell. -/
def span : Cell → Span
  | .anchored _ start stop => .anchored start stop
  | .floating _ depth => .floating depth

def isAnchored (cell : Cell) : Bool :=
  cell.span.isAnchored

/-- The order of cells: anchored ones first, by category, start and stop; then floating ones, by
category and depth. -/
def compare : Cell → Cell → Ordering
  | .anchored c s e, .anchored c' s' e' =>
    (Ord.compare c c').then ((Ord.compare s s').then (Ord.compare e e'))
  | .anchored _ _ _, .floating _ _ => .lt
  | .floating _ _, .anchored _ _ _ => .gt
  | .floating c d, .floating c' d' => (Ord.compare c c').then (Ord.compare d d')

instance : Ord Cell := ⟨compare⟩

def textWith (category : String) (cell : Cell) : String :=
  category ++ ":" ++ cell.span.text

def text (cell : Cell) : String :=
  cell.textWith ("#" ++ natText cell.category)

end Cell

end GuidedChart
