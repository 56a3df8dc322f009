import GuidedChart.Semantics

/-!
# Rules

A rule makes a category out of at most two symbols and says what that means. An anchored rule
stands on the tokens its symbols stand on; a floating rule is placed by the depth of its
construction and consumes no token of its own. The shape of a rule decides in which phase of a
construction it applies.
-/

namespace GuidedChart

/-- The number of a rule in its grammar, in the order in which rules were added. -/
abbrev RuleId := Nat

structure Category where
  name : String
  id : CategoryId
deriving DecidableEq, Inhabited

/-- A symbol on the right-hand side of a rule: a token that must stand there, or a category that a
child fills. -/
inductive Symbol where
  | terminal (token : String)
  | nonterminal (category : Category)
deriving DecidableEq

namespace Symbol

def text : Symbol → String
  | .terminal token => token
  | .nonterminal category => category.name

def category? : Symbol → Option CategoryId
  | .terminal _ => none
  | .nonterminal category => some category.id

end Symbol

structure Rule where
  id : RuleId
  lhs : Category
  rhs : List Symbol
  floating : Bool
  semantics : Semantics
deriving DecidableEq

/-- The phases of a construction. -/
inductive Phase where
  /-- An anchored rule over one token. -/
  | lexical (token : String)
  /-- An anchored rule over two symbols. -/
  | binary
  /-- An anchored rule over one category. -/
  | promotion
  | floatingNullary
  | floatingUnary
  | floatingBinary
deriving DecidableEq

namespace Rule

def isAnchored (rule : Rule) : Bool :=
  !rule.floating

/-- The categories on the right-hand side, from left to right. -/
def childCategories (rule : Rule) : List CategoryId :=
  rule.rhs.filterMap Symbol.category?

/-- The rule without its semantics: the category and what it is made of. -/
def signature (rule : Rule) : String :=
  rule.lhs.name ++ " ->" ++ String.join (rule.rhs.map fun symbol => " " ++ symbol.text)

/-- The rule as it is written in a grammar, without the semicolon. -/
def text (rule : Rule) : String :=
  (if rule.floating then "floating " else "") ++ rule.signature ++ " => " ++ rule.semantics.text

/-- The phase in which the rule applies, if its shape belongs to one. -/
def phase? (rule : Rule) : Option Phase :=
  match rule.floating, rule.rhs with
  | false, [.terminal token] => some (.lexical token)
  | false, [.nonterminal _] => some .promotion
  | false, [_, _] => some .binary
  | true, [] => some .floatingNullary
  | true, [_] => some .floatingUnary
  | true, [_, _] => some .floatingBinary
  | _, _ => none

end Rule

end GuidedChart
