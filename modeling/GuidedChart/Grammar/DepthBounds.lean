import GuidedChart.Grammar.Basic

/-!
# Depth bounds

A floating cell is of use only if a floating root cell can still be reached from it within the
depth of the construction. Every floating rule leads one level up at least, so the deepest useful
cell of a category lies as many levels below the root as the shortest chain of floating rules from
the root to the category has rules. The bounds are found by relaxing along all rules until nothing
changes any more, and at most as many times as there are categories, since a shortest chain visits
no category twice.
-/

namespace GuidedChart

/-- The deepest useful level of each category, at the place of its id; a category from which no
floating root is reached has none. -/
abbrev DepthBounds := Array (Option Nat)

namespace DepthBounds

def bound? (bounds : DepthBounds) (category : CategoryId) : Option Nat :=
  bounds[category]?.join

/-- The bounds in which the category reaches at least to this depth. -/
def raise (bounds : DepthBounds) (category : CategoryId) (depth : Nat) : DepthBounds :=
  bounds.modify category fun
    | some bound => some (max bound depth)
    | none => some depth

/-- The children of a rule are useful down to the level below its own. -/
def relax (bounds : DepthBounds) (rule : Rule) : DepthBounds :=
  match bounds.bound? rule.lhs.id with
  | some (depth + 1) => rule.childCategories.foldl (·.raise · depth) bounds
  | _ => bounds

/-- At most so many rounds of relaxing along all the rules. A round that changes nothing is the
last one. -/
def relaxAll (rules : List Rule) : Nat → DepthBounds → DepthBounds
  | 0, bounds => bounds
  | n + 1, bounds =>
    let relaxed := rules.foldl relax bounds
    if relaxed = bounds then bounds else relaxAll rules n relaxed

theorem relaxAll_succ (rules : List Rule) (n : Nat) (bounds : DepthBounds) :
    relaxAll rules (n + 1) bounds = relaxAll rules n (rules.foldl relax bounds) := by
  by_cases h : rules.foldl relax bounds = bounds
  · rw [h, relaxAll, if_pos h]
    cases n with
    | zero => rfl
    | succ n => rw [relaxAll, if_pos h]
  · rw [relaxAll, if_neg h]

/-- Is a rule for this category worth applying at this depth? -/
def admits (bounds : DepthBounds) (category : CategoryId) (depth : Nat) : Bool :=
  match bounds.bound? category with
  | some bound => depth ≤ bound
  | none => false

end DepthBounds

namespace Grammar

def depthBounds (grammar : Grammar) (maxDepth : Nat) : DepthBounds :=
  let unbounded := Array.replicate grammar.categories.length none
  let start := DepthBounds.raise unbounded grammar.root maxDepth
  DepthBounds.relaxAll (grammar.rulesOf .floatingUnary ++ grammar.rulesOf .floatingBinary)
    grammar.categories.length start

end Grammar

end GuidedChart
