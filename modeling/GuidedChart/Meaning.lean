import GuidedChart.Execution
import GuidedChart.Numbering
import GuidedChart.Rule
import GuidedChart.Value.Code

/-!
# Meanings

What the entries of a chart are told apart by. A formula with a value means that value. All
failures of one rule over children of the same meanings are one meaning, whatever the formulas were
and whatever went wrong. Meanings are numbered in the order in which they are first seen, and a
number never changes what it stands for (`key?_intern_of_lt`).
-/

namespace GuidedChart

open Decimal (natText)

/-- The number of a meaning in its table. -/
abbrev MeaningId := Nat

/-- What a derivation means. -/
inductive Meaning where
  | value (v : Value)
  /-- The failure of a rule over children of these meanings. -/
  | failure (rule : RuleId) (first second : Option MeaningId)
deriving DecidableEq

namespace Meaning

/-- The meaning of an outcome that a rule had over children of these meanings. -/
def ofOutcome (outcome : Outcome) (rule : RuleId) (first second : Option MeaningId) : Meaning :=
  match outcome with
  | .ok v => .value v
  | .error _ => .failure rule first second

def isFailure : Meaning → Bool
  | .value _ => false
  | .failure _ _ _ => true

def value? : Meaning → Option Value
  | .value v => some v
  | .failure _ _ _ => none

def code : Meaning → List Nat
  | .value v => 0 :: v.code
  | .failure rule first second => [1, rule, Coded.ofOption first, Coded.ofOption second]

instance : Coded Meaning where
  code := code
  code_injective {m n} h := by
    cases m <;> cases n <;> simp only [code, List.cons.injEq, true_and, reduceCtorEq] at h
    · exact congrArg _ (Coded.code_injective h)
    · exact absurd h.1 (by decide)
    · exact absurd h.1 (by decide)
    · rw [h.1, Coded.ofOption_inj.1 h.2.1, Coded.ofOption_inj.1 h.2.2.1]

def text : Meaning → String
  | .value v => v.text
  | .failure rule first second =>
    "error(rule " ++ natText rule ++
      String.join ((first.toList ++ second.toList).map fun id => ", #" ++ natText id) ++ ")"

end Meaning

/-- The meanings seen so far, each with its number. -/
structure MeaningTable where
  keys : Numbering Meaning

namespace MeaningTable

def empty : MeaningTable :=
  ⟨.empty⟩

def size (table : MeaningTable) : Nat :=
  table.keys.size

def key? (table : MeaningTable) (id : MeaningId) : Option Meaning :=
  table.keys.item? id

def id? (table : MeaningTable) (meaning : Meaning) : Option MeaningId :=
  table.keys.number? meaning

/-- The number of a meaning, which gets the next one if it is new. -/
def intern (table : MeaningTable) (meaning : Meaning) : MeaningTable × MeaningId :=
  match h : table.keys.number? meaning with
  | some id => (table, id)
  | none =>
    let id := table.size
    (⟨table.keys.push meaning h⟩, id)

def isFailure (table : MeaningTable) (id : MeaningId) : Bool :=
  match table.key? id with
  | some meaning => meaning.isFailure
  | none => false

/-- A number goes on standing for what it stood for. -/
theorem key?_intern_of_lt (table : MeaningTable) (meaning : Meaning) {id : MeaningId}
    (h : id < table.size) : (table.intern meaning).1.key? id = table.key? id := by
  unfold intern
  split
  · rfl
  · simp only [key?, Numbering.item?_eq_getElem?_toList, Numbering.toList_push]
    exact List.getElem?_append_left (by rwa [Numbering.length_toList])

theorem key?_intern (table : MeaningTable) (meaning : Meaning) :
    (table.intern meaning).1.key? (table.intern meaning).2 = some meaning := by
  unfold intern
  split
  · rename_i id h
    rw [key?, Numbering.item?_eq_getElem?_toList]
    exact Numbering.number?_eq_some_iff.1 h
  · rename_i h
    rw [key?, Numbering.item?_eq_getElem?_toList]
    exact Numbering.number?_eq_some_iff.1 (Numbering.number?_push_self _ _ h)

end MeaningTable

end GuidedChart
