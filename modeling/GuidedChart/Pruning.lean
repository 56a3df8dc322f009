import GuidedChart.Error
import GuidedChart.Execution

/-!
# Pruning

Strategies that keep a derivation out of the chart, by its formula and what became of its
execution. The first strategy looks at the value alone, so it treats alike all derivations of one
meaning; the second looks at the formula.
-/

namespace GuidedChart

/-- A reason to discard a derivation. -/
inductive Strategy where
  /-- It denotes the empty list. -/
  | emptyValue
  /-- It applies a function to two equal arguments. -/
  | duplicateArguments
deriving DecidableEq, Repr

namespace Strategy

def name : Strategy → String
  | .emptyValue => "emptyDenotation"
  | .duplicateArguments => "duplicateArguments"

def ofName? (name : String) : Option Strategy :=
  [emptyValue, duplicateArguments].find? (·.name = name)

theorem ofName?_name (strategy : Strategy) : ofName? strategy.name = some strategy := by
  cases strategy <;> decide

/-- Do two places of a list hold the same formula? -/
def hasDuplicate : List Formula → Bool
  | [] => false
  | f :: fs => fs.contains f || hasDuplicate fs

/-- Is a derivation with this formula and outcome discarded? -/
def discards (strategy : Strategy) (formula : Formula) (outcome : Option Outcome) : Bool :=
  match strategy with
  | .emptyValue => ((outcome.bind Outcome.value?).map Value.isEmptyList).getD false
  | .duplicateArguments => hasDuplicate formula.args

end Strategy

/-- The active strategies, in the order in which they were named. -/
abbrev Pruner := List Strategy

namespace Pruner

def ofNames : List String → Except ConfigError Pruner
  | [] => .ok []
  | name :: names =>
    match Strategy.ofName? name with
    | some strategy => (ofNames names).map (strategy :: ·)
    | none => .error (.unknownStrategy name)

theorem name_mem_of_ofNames {names : List String} {pruner : Pruner}
    (h : ofNames names = .ok pruner) {s : Strategy} (hs : s ∈ pruner) : s.name ∈ names := by
  induction names generalizing pruner with
  | nil =>
    cases h
    cases hs
  | cons name names ih =>
    unfold ofNames at h
    split at h
    · rename_i t ht
      cases hr : ofNames names with
      | error e =>
        rw [hr] at h
        cases h
      | ok rest =>
        rw [hr] at h
        cases h
        rcases List.mem_cons.1 hs with rfl | hs
        · exact List.mem_cons.2 (Or.inl (of_decide_eq_true (List.find?_some ht :)))
        · exact List.mem_cons_of_mem _ (ih hr hs)
    · cases h

def has (pruner : Pruner) (name : String) : Bool :=
  pruner.any (·.name = name)

/-- The active strategies, or those of them that are named. -/
def restrict (pruner : Pruner) (only : Option (List String)) : Pruner :=
  match only with
  | some names => pruner.filter fun strategy => names.contains strategy.name
  | none => pruner

def discards (pruner : Pruner) (formula : Formula) (outcome : Option Outcome) : Bool :=
  pruner.any (·.discards formula outcome)

end Pruner

end GuidedChart
