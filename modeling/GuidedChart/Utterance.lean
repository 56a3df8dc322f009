import GuidedChart.Text.Blank
import GuidedChart.Text.Lowercase
import GuidedChart.Value.Basic

/-!
# Utterances

The tokens of an utterance are its words in lower case. An example is an utterance together with
the value it is meant to denote, where that is known.
-/

namespace GuidedChart

/-- The words of an utterance, in lower case. -/
def tokenize (utterance : String) : List String :=
  (Text.words utterance.toList).map fun word => String.ofList (Text.lower word)

/-- The tokens from `start` up to but not including `stop`, joined by single spaces. There is no
such phrase if the bounds are out of order or go beyond the tokens. -/
def phrase? (tokens : List String) (start stop : Nat) : Option String :=
  if start ≤ stop ∧ stop ≤ tokens.length then
    some (String.intercalate " " ((tokens.take stop).drop start))
  else none

/-- An utterance to parse. -/
structure Example where
  tokens : List String
  target : Option Value

def Example.ofText (utterance : String) (target : Option Value) : Example :=
  ⟨tokenize utterance, target⟩

end GuidedChart
