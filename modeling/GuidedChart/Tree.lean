import GuidedChart.Derivation
import GuidedChart.Text.Blank

/-!
# Syntax trees

The printable view of a derivation. Branches are applications of rules, leaves are the tokens that
anchored rules consumed. A tree takes one line for each branch, indented below its parent; a
branch over a single leaf keeps it on its line.
-/

namespace GuidedChart

open Decimal (natText)

/-- A branch with its label and span, or a token with its position. -/
inductive Tree where
  | leaf (word : String) (position : Nat)
  | branch (label : String) (span : Span) (children : List Tree)

namespace Tree

def isLeaf : Tree → Bool
  | .leaf _ _ => true
  | .branch _ _ _ => false

def leafText (word : String) (position : Nat) : String :=
  natText position ++ ": " ++ Text.quote word

/-- Each line of a text on a line of its own, two places further in. -/
def indent (text : String) : String :=
  String.join ((Text.lines text.toList).map fun line => "\n  " ++ String.ofList line)

mutual

def text : Tree → String
  | .leaf word position => leafText word position
  | .branch label span children =>
    "(" ++ span.text ++ ": " ++ label ++
      match children with
      | [.leaf word position] => " (" ++ leafText word position ++ "))"
      | children => indentAll children ++ ")"

def indentAll : List Tree → String
  | [] => ""
  | t :: ts => indent (text t) ++ indentAll ts

end

end Tree

namespace Derivation

/-- Where a token of a rule stands: the first symbol at the start of the span, any other one at its
last token. On a floating span there is no telling, and on a span that stops at zero there is no
last token. -/
def tokenPosition? (span : Span) (isFirst : Bool) : Option Nat :=
  match span with
  | .anchored start stop =>
    if isFirst then some start
    else if stop = 0 then none
    else some (stop - 1)
  | .floating _ => some 0

/-- The trees below a rule: a leaf for each token, and for each category the tree of the next child
as long as there is one. -/
def subtrees? (span : Span) (isFirst : Bool) :
    List Symbol → List (Option Tree) → Option (List Tree)
  | [], _ => some []
  | .terminal word :: symbols, trees => do
    let position ← tokenPosition? span isFirst
    return .leaf word position :: (← subtrees? span false symbols trees)
  | .nonterminal _ :: symbols, [] => subtrees? span false symbols []
  | .nonterminal _ :: symbols, tree :: trees => do
    return (← tree) :: (← subtrees? span false symbols trees)

mutual

/-- The syntax tree of a derivation, if all its tokens have a position. -/
def tree? : Derivation → Option Tree
  | ⟨rule, span, formula, children, anchors, outcome, score⟩ => do
    let label := rule.lhs.name ++ " " ++ formula.text ++ " = " ++
      outcomeText ⟨rule, span, formula, [], anchors, outcome, score⟩
    return .branch label span (← subtrees? span true rule.rhs (trees children))

def trees : List Derivation → List (Option Tree)
  | [] => []
  | d :: ds => tree? d :: trees ds

end

end Derivation

end GuidedChart
