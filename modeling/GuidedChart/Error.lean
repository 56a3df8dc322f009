import GuidedChart.Cell
import GuidedChart.Text.Quoted

/-!
# Errors

What makes a whole request fail: a grammar that cannot be read or used, options that do not fit
together, a provenance graph that runs in a circle, a worker that broke down. A formula that fails
to execute is no error in this sense. Each error is kept as its cause; the wording is in the
`message` functions.
-/

namespace GuidedChart

open Decimal (natText)

/-- What can be wrong with a grammar. -/
inductive GrammarError where
  | notACategory (rule : String)
  | tooManySymbols (rule : String)
  | tokenInFloating (rule : String)
  | nothingToConsume (rule : String)
  /-- A rule belongs to no phase of the construction. -/
  | unsupportedShape (rule : String)
  | emptyRuleset
  | noRootRule
  /-- Unary anchored rules that cannot be put into an order, by their signatures. -/
  | promotionCycle (signatures : List String)
  /-- The text does not go on as a rule does. -/
  | expected (what context : String)
  | unterminated (category : String)
deriving DecidableEq

namespace GrammarError

def message : GrammarError → String
  | .notACategory rule => "rule left-hand side must be a category: " ++ rule
  | .tooManySymbols rule => "rules can have at most two right-hand side symbols: " ++ rule
  | .tokenInFloating rule => "floating rules can't consume tokens: " ++ rule
  | .nothingToConsume rule => "anchored rules must consume at least one symbol: " ++ rule
  | .unsupportedShape rule => "unsupported rule shape: " ++ rule
  | .emptyRuleset => "empty ruleset"
  | .noRootRule => "no rules for root category $ROOT"
  | .promotionCycle signatures =>
    "cycle in unary rules: " ++ String.intercalate ", " signatures
  | .expected what context => "expected " ++ what ++ " at '" ++ context ++ "'"
  | .unterminated category => "rule for " ++ category ++ " is missing a terminating ';'"

end GrammarError

/-- What can be wrong with an option, a semantic function or a file of weights. -/
inductive ConfigError where
  | constantArguments (args : List String)
  | noAlternatives
  /-- A semantic function was given arguments and takes none. -/
  | takesNoArguments (function : String) (args : List String)
  | callArguments (args : List String)
  | unknownFunction (name : String)
  | notPositive (option : String)
  | unknownStrategy (name : String)
  | inactiveStrategy (name : String)
  | noWeight (line : Nat)
  | notANumber (line : Nat)
deriving DecidableEq

namespace ConfigError

def message : ConfigError → String
  | .constantArguments args => "const takes one argument, got " ++ Text.quoteAll args
  | .noAlternatives => "choice needs at least one alternative"
  | .takesNoArguments function args =>
    function ++ " takes no arguments, got " ++ Text.quoteAll args
  | .callArguments args => "call takes one function name, got " ++ Text.quoteAll args
  | .unknownFunction name => "unknown semantic function " ++ name
  | .notPositive option => option ++ " must be positive"
  | .unknownStrategy name => "unknown pruning strategy " ++ name
  | .inactiveStrategy name =>
    "first pass pruner " ++ name ++ " is not one of the active strategies"
  | .noWeight line => "params line " ++ natText line ++ ": expected feature<TAB>weight"
  | .notANumber line => "params line " ++ natText line ++ ": invalid float literal"

end ConfigError

/-- What makes a request fail. -/
inductive Error where
  | grammar (cause : GrammarError)
  | config (cause : ConfigError)
  /-- The entry of this cell and meaning was built from itself. -/
  | provenanceCycle (cell : Cell) (meaning : Nat)
  | workerBrokeDown (pass : String)
deriving DecidableEq

namespace Error

def message : Error → String
  | .grammar cause => "grammar error: " ++ cause.message
  | .config cause => "config error: " ++ cause.message
  | .provenanceCycle cell meaning =>
    "cycle in provenance graph at " ++ cell.text ++ " (denotation #" ++ natText meaning ++ ")"
  | .workerBrokeDown pass => "parsing worker for the " ++ pass ++ " pass panicked"

end Error

end GuidedChart
