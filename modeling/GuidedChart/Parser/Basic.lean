import GuidedChart.Config.Basic
import GuidedChart.Grammar.DepthBounds
import GuidedChart.Scoring

/-!
# Parsers

A parser is a grammar with options that were checked against each other, the strategies they name
and a scorer. Nothing in it changes from one request to the next.
-/

namespace GuidedChart

structure Parser where
  grammar : Grammar
  config : Config
  pruner : Pruner
  scorer : Scorer

namespace Parser

/-- The parser of a grammar, if the options are in order. -/
def ofConfig (grammar : Grammar) (config : Config) (scorer : Scorer) : Except Error Parser := do
  let pruner ← config.pruner.mapError Error.config
  return { grammar, config, pruner, scorer }

theorem eq_of_ofConfig {grammar : Grammar} {config : Config} {scorer : Scorer} {parser : Parser}
    (h : ofConfig grammar config scorer = .ok parser) :
    parser.grammar = grammar ∧ parser.config = config ∧ config.pruner = .ok parser.pruner := by
  unfold ofConfig at h
  cases hp : config.pruner with
  | error e =>
    rw [hp] at h
    cases h
  | ok pruner =>
    rw [hp] at h
    cases h
    exact ⟨rfl, rfl, rfl⟩

/-- The deepest useful floating level of each category. -/
def depthBounds (parser : Parser) : DepthBounds :=
  parser.grammar.depthBounds parser.config.maxDepth

/-- Is an anchored cell of this category also offered to the floating rules? Root cells are not:
nothing is built on a complete parse in this way. -/
def lifts (parser : Parser) (category : CategoryId) : Bool :=
  category ≠ parser.grammar.root && parser.grammar.isFloatingChild category

end Parser

end GuidedChart
