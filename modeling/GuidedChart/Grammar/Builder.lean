import GuidedChart.Grammar.Basic
import GuidedChart.Grammar.Promotions

/-!
# Building a grammar

Categories and rules are added one by one and get their ids in that order. A rule whose shape has
no phase is refused when it is added; what can only be seen on the whole set of rules is checked at
the end.
-/

namespace GuidedChart

/-- A grammar in the making. -/
structure GrammarBuilder where
  categories : List String
  rules : List Rule

namespace GrammarBuilder

def empty : GrammarBuilder :=
  ⟨[], []⟩

/-- The id of a category, which is added if it is new. -/
def intern (builder : GrammarBuilder) (name : String) : GrammarBuilder × CategoryId :=
  match builder.categories.idxOf? name with
  | some id => (builder, id)
  | none =>
    ({ builder with categories := builder.categories ++ [name] }, builder.categories.length)

/-- Is it the name of a category, and not a token? -/
def isCategoryName (name : String) : Bool :=
  name.toList.head? = some '$'

def symbol (builder : GrammarBuilder) (name : String) : GrammarBuilder × Symbol :=
  if isCategoryName name then
    let (builder, id) := builder.intern name
    (builder, .nonterminal ⟨name, id⟩)
  else (builder, .terminal name)

def symbols (builder : GrammarBuilder) : List String → GrammarBuilder × List Symbol
  | [] => (builder, [])
  | name :: names =>
    let (builder, first) := builder.symbol name
    let (builder, rest) := builder.symbols names
    (builder, first :: rest)

/-- Why a rule of this shape is refused, if it is. -/
def refusal? (lhs : String) (rhs : List String) (floating : Bool) : Option GrammarError :=
  let rule := lhs ++ " -> " ++ String.intercalate " " rhs
  if !isCategoryName lhs then some (.notACategory rule)
  else if 2 < rhs.length then some (.tooManySymbols rule)
  else if floating && rhs.any (!isCategoryName ·) then some (.tokenInFloating rule)
  else if !floating && rhs.isEmpty then some (.nothingToConsume rule)
  else none

/-- The grammar with one rule more, and the id of that rule. A refused rule leaves no trace. -/
def addRule (builder : GrammarBuilder) (lhs : String) (rhs : List String) (floating : Bool)
    (semantics : Semantics) : Except GrammarError (GrammarBuilder × RuleId) :=
  match refusal? lhs rhs floating with
  | some error => .error error
  | none =>
    let (builder, lhsId) := builder.intern lhs
    let (builder, symbols) := builder.symbols rhs
    let id := builder.rules.length
    let rule : Rule := ⟨id, ⟨lhs, lhsId⟩, symbols, floating, semantics⟩
    .ok ({ builder with rules := builder.rules ++ [rule] }, id)

/-! ### Building in place -/

/-- Work on a builder in place. What has been changed when the work breaks off stays changed. -/
abbrev Filling := ExceptT GrammarError (StateM GrammarBuilder)

def change {α : Type} (f : GrammarBuilder → GrammarBuilder × α) : Filling α :=
  modifyGet fun builder => ((f builder).2, (f builder).1)

/-- A rule is entered into the builder, after the categories it names. -/
def enterRule (lhs : String) (rhs : List String) (floating : Bool) (semantics : Semantics) :
    Filling RuleId := do
  if let some error := refusal? lhs rhs floating then throw error
  let lhsId ← change (·.intern lhs)
  let symbols ← change (·.symbols rhs)
  change fun builder =>
    let id := builder.rules.length
    let rule : Rule := ⟨id, ⟨lhs, lhsId⟩, symbols, floating, semantics⟩
    ({ builder with rules := builder.rules ++ [rule] }, id)

/-- What a builder may be asked to take in. -/
inductive Addition where
  | category (name : String)
  | rule (lhs : String) (rhs : List String) (floating : Bool) (semantics : Semantics)

inductive Receipt where
  | category (id : CategoryId)
  | rule (id : RuleId)
  | refused (cause : GrammarError)
deriving DecidableEq

/-- The builder after an addition was asked for, and what is answered. -/
def add (builder : GrammarBuilder) : Addition → GrammarBuilder × Receipt
  | .category name =>
    let (builder, id) := builder.intern name
    (builder, .category id)
  | .rule lhs rhs floating semantics =>
    match (enterRule lhs rhs floating semantics).run.run builder with
    | (.ok id, builder) => (builder, .rule id)
    | (.error cause, builder) => (builder, .refused cause)

def addAll (builder : GrammarBuilder) : List Addition → GrammarBuilder × List Receipt
  | [] => (builder, [])
  | addition :: additions =>
    let (builder, receipt) := builder.add addition
    let (builder, receipts) := builder.addAll additions
    (builder, receipt :: receipts)

/-- The finished grammar. There has to be a rule, a rule for the root, a phase for every rule and
an order of the promotions. -/
def build (builder : GrammarBuilder) : Except GrammarError Grammar :=
  if builder.rules.isEmpty then .error .emptyRuleset
  else if !builder.rules.any (·.lhs.name = rootName) then .error .noRootRule
  else
    match builder.rules.find? (·.phase? = none) with
    | some rule => .error (.unsupportedShape rule.text)
    | none =>
      match orderPromotions (builder.rules.filter (·.phase? = some .promotion)) with
      | .ok promotions => .ok ⟨builder.categories, builder.rules, promotions⟩
      | .error stuck => .error (.promotionCycle (stuck.map Rule.signature))

end GrammarBuilder

end GuidedChart
