/-!
# Codes

Items of many kinds are told apart by codes, which are lists of natural numbers. Lists of natural
numbers have a decidable order that evaluates by plain computation, so whatever is looked up by
codes can be looked up in a search tree, in programs and in proofs alike. Nothing is said of what a
code looks like, only that no two items have the same one.
-/

namespace GuidedChart

/-- Items that are told apart by lists of natural numbers. -/
class Coded (α : Type) where
  code : α → List Nat
  code_injective : ∀ {a b : α}, code a = code b → a = b

namespace Coded

instance : Coded Nat where
  code n := [n]
  code_injective := List.head_eq_of_cons_eq

def ofOption : Option Nat → Nat
  | none => 0
  | some n => n + 1

theorem ofOption_inj {a b : Option Nat} : ofOption a = ofOption b ↔ a = b := by
  cases a <;> cases b <;> simp [ofOption]

end Coded

end GuidedChart
