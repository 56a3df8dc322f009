import GuidedChart.Rule

/-!
# The order of promotions

A promotion is an anchored rule over one category. Promotions apply to a span one after the other,
each once, so a rule that produces a category has to come before every rule that reads it. The
order is found by counting, for each promotion, the producers of its category that have no place
yet: a promotion whose count is zero may take the next place, and counts down the readers of its
own category. Promotions that never get a place are those behind a cycle.
-/

namespace GuidedChart

def Rule.reads (rule : Rule) (category : CategoryId) : Bool :=
  rule.childCategories.head? = some category

/-- Promotions on their way into an order. -/
structure PromotionOrder where
  placed : List Rule
  /-- The promotions that may take the next places, first come first served. -/
  ready : List Rule
  /-- Every promotion with the number of producers of its category that have no place yet. -/
  missing : List (Rule × Nat)

namespace PromotionOrder

/-- The number of rules that produce the category a promotion reads. -/
def producers (rules : List Rule) (rule : Rule) : Nat :=
  rules.countP fun producer => rule.reads producer.lhs.id

/-- No promotion has a place; those without a producer are ready. -/
def start (rules : List Rule) : PromotionOrder where
  placed := []
  ready := rules.filter (producers rules · = 0)
  missing := rules.map fun rule => (rule, producers rules rule)

/-- The first ready promotion takes its place. The readers of the category it produces miss one
producer less, and those that miss none any more are ready. -/
def step (order : PromotionOrder) : PromotionOrder :=
  match order.ready with
  | [] => order
  | rule :: ready =>
    let missing := order.missing.map fun (reader, count) =>
      if reader.reads rule.lhs.id then (reader, count - 1) else (reader, count)
    let released := missing.filterMap fun (reader, count) =>
      if reader.reads rule.lhs.id ∧ count = 0 then some reader else none
    { placed := order.placed ++ [rule], ready := ready ++ released, missing }

def run : Nat → PromotionOrder → PromotionOrder
  | 0, order => order
  | n + 1, order => run n order.step

end PromotionOrder

/-- The promotions that can be put into an order, in that order. Each step gives one of them its
place, so there are at most as many steps as promotions. -/
def placePromotions (rules : List Rule) : List Rule :=
  ((PromotionOrder.start rules).run rules.length).placed

/-- The promotions with producers before consumers, or else those that have no place in any such
order. -/
def orderPromotions (rules : List Rule) : Except (List Rule) (List Rule) :=
  let placed := placePromotions rules
  if placed.length = rules.length then .ok placed
  else .error (rules.filter fun rule => !placed.contains rule)

end GuidedChart
