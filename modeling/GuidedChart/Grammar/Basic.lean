import GuidedChart.Rule

/-!
# Grammars

A grammar is a list of rules with dense ids over a list of categories with dense ids. The phases of
a construction read the rules through indexes, which are the rules of one shape in the order of
their ids; only the promotions are kept in an order of their own, producers before consumers.
-/

namespace GuidedChart

/-- The category every complete parse ends up in. -/
def rootName : String :=
  "$ROOT"

/-- Rules and categories, ready for a construction. -/
structure Grammar where
  /-- The names of the categories, each at the place of its id. -/
  categories : List String
  /-- The rules, each at the place of its id. -/
  rules : List Rule
  /-- The anchored rules over one category, in the order in which they apply to a span. -/
  promotions : List Rule

namespace Grammar

def category? (grammar : Grammar) (name : String) : Option CategoryId :=
  grammar.categories.idxOf? name

def categoryName? (grammar : Grammar) (id : CategoryId) : Option String :=
  grammar.categories[id]?

def root (grammar : Grammar) : CategoryId :=
  grammar.categories.idxOf rootName

def rulesOf (grammar : Grammar) (phase : Phase) : List Rule :=
  grammar.rules.filter (·.phase? = some phase)

/-- Is the category read by a floating rule? What is found for it on tokens is then made available
to the floating rules too. -/
def isFloatingChild (grammar : Grammar) (category : CategoryId) : Bool :=
  grammar.rules.any fun rule => rule.floating && rule.childCategories.contains category

/-- A grammar as it is printed: the root and the categories in comments, then the rules. -/
def text (grammar : Grammar) : String :=
  "//** root: " ++ rootName ++ "\n//** categories:" ++
    String.join (grammar.categories.map (" " ++ ·)) ++ "\n" ++
    String.join (grammar.rules.map fun rule => rule.text ++ ";\n")

end Grammar

end GuidedChart
