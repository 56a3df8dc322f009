import GuidedChart.Error
import GuidedChart.Formula
import GuidedChart.Numeral

/-!
# Semantic functions

The meaning of a rule: which formulas it offers, given the phrase it stands on and the formulas of
its children. Rules name their semantic function, with arguments; a registry says which names there
are.
-/

namespace GuidedChart

/-- What a rule does with the formulas of its children. -/
inductive Semantics where
  | constant (formula : Formula)
  | choice (alternatives : List Formula)
  | identity
  | call (name : String)
  /-- The number that the phrase of the rule stands for. -/
  | number
deriving DecidableEq

namespace Semantics

def text : Semantics → String
  | .constant formula => "const " ++ formula.text
  | .choice alternatives => "choice" ++ Formula.textAll alternatives
  | .identity => "identity"
  | .call name => "call " ++ name
  | .number => "number"

/-- The formulas offered, in order, for the phrase (absent for a floating rule) and the formulas of
the children. -/
def formulas (sem : Semantics) (phrase : Option String) (children : List Formula) :
    List Formula :=
  match sem with
  | .constant formula => [formula]
  | .choice alternatives => alternatives
  | .identity => children.head?.toList
  | .call name => [.call name children]
  | .number => ((phrase.bind numeral?).map fun n => Formula.value (.number n)).toList

/-- Does the semantic function look at the phrase it stands on? -/
def readsPhrase : Semantics → Bool
  | .number => true
  | _ => false

end Semantics

/-- The semantic functions that grammars may name. A function is built from the arguments written
after its name. -/
abbrev Registry := List (String × (List String → Except ConfigError Semantics))

namespace Registry

def atom (text : String) : Formula :=
  .value (Value.ofAtom text)

def plain (name : String) (sem : Semantics) : List String → Except ConfigError Semantics
  | [] => .ok sem
  | args => .error (.takesNoArguments name args)

def standard : Registry :=
  [("const", fun
      | [arg] => .ok (.constant (atom arg))
      | args => .error (.constantArguments args)),
    ("choice", fun
      | [] => .error .noAlternatives
      | args => .ok (.choice (args.map atom))),
    ("identity", plain "identity" .identity),
    ("call", fun
      | [arg] => .ok (.call arg)
      | args => .error (.callArguments args)),
    ("number", plain "number" .number)]

def resolve (registry : Registry) (name : String) (args : List String) :
    Except ConfigError Semantics :=
  match registry.lookup name with
  | some build => build args
  | none => .error (.unknownFunction name)

end Registry

end GuidedChart
