import GuidedChart.Grammar.Promotions
import Mathlib.Data.List.Nodup
import Mathlib.Data.List.Perm.Subperm

/-!
# The order of promotions is topological

Counting missing producers puts every promotion behind all promotions that produce the category it
reads (`promotionsOrdered_of_orderPromotions`). The invariant (`PromotionOrder.Counts`) says what
the counters count, and that a promotion is ready only when all its producers have their places.
-/

namespace GuidedChart

namespace PromotionOrder

theorem producers_append (placed others : List Rule) (rule : Rule) :
    producers (placed ++ others) rule = producers placed rule + producers others rule :=
  List.countP_append

theorem producers_singleton (producer rule : Rule) :
    producers [producer] rule = if rule.reads producer.lhs.id then 1 else 0 :=
  List.countP_singleton

/-- A producer that is not among some of the rules is one more. -/
theorem producers_lt {rules some : List Rule} (hn : some.Nodup) (hs : some ⊆ rules)
    {producer rule : Rule} (hp : producer ∈ rules) (hnot : producer ∉ some)
    (hr : rule.reads producer.lhs.id = true) : producers some rule < producers rules rule := by
  have hsub : (some ++ [producer]).Subperm rules := by
    refine List.subperm_of_subset ?_ ?_
    · rw [List.nodup_append]
      refine ⟨hn, List.nodup_singleton _, ?_⟩
      rintro a ha b hb rfl
      exact hnot (List.mem_singleton.1 hb ▸ ha)
    · intro a ha
      rcases List.mem_append.1 ha with ha | ha
      · exact hs ha
      · exact List.mem_singleton.1 ha ▸ hp
  have hle : producers (some ++ [producer]) rule ≤ producers rules rule := hsub.countP_le _
  rw [producers_append, producers_singleton, if_pos hr] at hle
  exact hle

/-! ## The invariant -/

/-- What is true of an order in the making. -/
structure Counts (rules : List Rule) (order : PromotionOrder) : Prop where
  nodup : (order.placed ++ order.ready).Nodup
  subset : order.placed ++ order.ready ⊆ rules
  /-- A counter says how many producers have no place yet. -/
  missing : order.missing = rules.map fun rule =>
    (rule, producers rules rule - producers order.placed rule)
  /-- The producers of a promotion that is ready have their places. -/
  ready : ∀ rule ∈ order.placed ++ order.ready,
    producers rules rule ≤ producers order.placed rule
  /-- The producers of a promotion with a place have places before it. -/
  placed : ∀ before rule after, order.placed = before ++ rule :: after →
    producers rules rule ≤ producers before rule

theorem counts_start {rules : List Rule} (hn : rules.Nodup) : (start rules).Counts rules where
  nodup := hn.filter _
  subset := List.filter_subset_self _
  missing := rfl
  ready rule hr := by
    have hz := of_decide_eq_true (List.mem_filter.1 hr).2
    rw [hz]
    exact Nat.zero_le _
  placed before rule after h := by
    cases before <;> cases h

namespace Counts

variable {rules : List Rule} {order : PromotionOrder}

/-- The promotions that miss no producer any more once a rule takes its place. -/
def released (rules placed : List Rule) (rule : Rule) : List Rule :=
  rules.filter fun reader => reader.reads rule.lhs.id ∧
    producers rules reader - producers (placed ++ [rule]) reader = 0

theorem step_eq (h : order.Counts rules) {rule : Rule} {ready : List Rule}
    (hr : order.ready = rule :: ready) :
    order.step =
      { placed := order.placed ++ [rule]
        ready := ready ++ released rules order.placed rule
        missing := rules.map fun reader =>
          (reader, producers rules reader - producers (order.placed ++ [rule]) reader) } := by
  obtain ⟨placed, front, missing⟩ := order
  obtain rfl : front = rule :: ready := hr
  have hmissing : (PromotionOrder.step ⟨placed, rule :: ready, missing⟩).missing =
      rules.map fun reader =>
        (reader, producers rules reader - producers (placed ++ [rule]) reader) := by
    change List.map _ missing = _
    rw [show missing = _ from h.missing, List.map_map]
    refine List.map_congr_left fun reader _ => ?_
    simp only [Function.comp_apply, producers_append, producers_singleton]
    split
    · rw [Nat.sub_sub]
    · rfl
  have hready : (PromotionOrder.step ⟨placed, rule :: ready, missing⟩).ready =
      ready ++ released rules placed rule := by
    change ready ++ List.filterMap _
      (PromotionOrder.step ⟨placed, rule :: ready, missing⟩).missing = _
    rw [hmissing, List.filterMap_map, released, ← List.filterMap_eq_filter]
    refine congrArg (ready ++ ·) (List.filterMap_congr fun reader _ => ?_)
    simp [Option.guard]
  rw [← hmissing, ← hready]
  rfl

theorem step (hn : rules.Nodup) (h : order.Counts rules) : order.step.Counts rules := by
  cases hr : order.ready with
  | nil =>
    have hstep : order.step = order := by
      rw [PromotionOrder.step, hr]
    rwa [hstep]
  | cons rule ready =>
    have hnodup := h.nodup
    have hsubset := h.subset
    have hready := h.ready
    rw [hr, List.append_cons] at hnodup hsubset hready
    have hplaced : order.placed ++ [rule] ⊆ rules :=
      fun r hm => hsubset (List.mem_append_left _ hm)
    have hmono : ∀ r, producers order.placed r ≤ producers (order.placed ++ [rule]) r := by
      intro r
      rw [producers_append]
      exact Nat.le_add_right _ _
    have hrule : rule ∈ rules := hplaced (List.mem_append_right _ (List.mem_singleton_self rule))
    have hnot : rule ∉ order.placed := fun hm =>
      (List.nodup_append.1 (List.nodup_append.1 hnodup).1).2.2 rule hm rule
        (List.mem_singleton_self rule) rfl
    rw [h.step_eq hr]
    refine ⟨?_, ?_, rfl, ?_, ?_⟩
    · rw [← List.append_assoc, List.nodup_append]
      refine ⟨hnodup, hn.filter _, ?_⟩
      -- what is released has been missing the rule until now, unlike what was ready before
      rintro r hold s hs rfl
      have hlt := producers_lt (List.nodup_append.1 (List.nodup_append.1 hnodup).1).1
        (fun q hq => hplaced (List.mem_append_left _ hq)) hrule hnot
        (of_decide_eq_true (List.mem_filter.1 hs).2).1
      exact absurd (hready r hold) (Nat.not_le_of_lt hlt)
    · rw [← List.append_assoc]
      exact List.append_subset.2 ⟨hsubset, List.filter_subset_self _⟩
    · intro r hm
      rw [← List.append_assoc, List.mem_append] at hm
      rcases hm with hm | hm
      · exact Nat.le_trans (hready r hm) (hmono r)
      · exact Nat.le_of_sub_eq_zero (of_decide_eq_true (List.mem_filter.1 hm).2).2
    · intro before r after he
      rcases List.eq_nil_or_concat after with rfl | ⟨after, last, rfl⟩
      · obtain ⟨rfl, hlast⟩ := List.append_inj' he rfl
        rw [List.singleton_inj] at hlast
        subst hlast
        exact hready rule (List.mem_append_left _ (List.mem_append_right _
          (List.mem_singleton_self rule)))
      · rw [List.concat_eq_append, ← List.cons_append, ← List.append_assoc] at he
        exact h.placed before r after (List.append_inj' he rfl).1

theorem run (hn : rules.Nodup) (h : order.Counts rules) (n : Nat) :
    (order.run n).Counts rules := by
  induction n generalizing order with
  | zero => exact h
  | succ n ih => exact ih (h.step hn)

end Counts

end PromotionOrder

/-- Does no promotion read what itself or a later one produces? -/
def PromotionsOrdered (promotions : List Rule) : Prop :=
  ∀ before rule after, promotions = before ++ rule :: after →
    ∀ producer ∈ rule :: after, rule.reads producer.lhs.id = false

theorem counts_of_orderPromotions {rules promotions : List Rule} (hn : rules.Nodup)
    (h : orderPromotions rules = .ok promotions) :
    ∃ order : PromotionOrder, order.Counts rules ∧ order.placed = promotions ∧
      promotions.length = rules.length := by
  refine ⟨_, (PromotionOrder.counts_start hn).run hn rules.length, ?_⟩
  simp only [orderPromotions] at h
  split at h
  · rename_i hlength
    cases h
    exact ⟨rfl, hlength⟩
  · cases h

/-- All promotions have a place, and each has one. -/
theorem perm_of_orderPromotions {rules promotions : List Rule} (hn : rules.Nodup)
    (h : orderPromotions rules = .ok promotions) : promotions.Perm rules := by
  obtain ⟨order, hcounts, rfl, hlength⟩ := counts_of_orderPromotions hn h
  have hsub : order.placed.Subperm rules :=
    List.subperm_of_subset (List.nodup_append.1 hcounts.nodup).1
      fun r hm => hcounts.subset (List.mem_append_left _ hm)
  exact hsub.perm_of_length_le (Nat.le_of_eq hlength.symm)

/-- Producers come before readers. -/
theorem promotionsOrdered_of_orderPromotions {rules promotions : List Rule} (hn : rules.Nodup)
    (h : orderPromotions rules = .ok promotions) :
    promotions ⊆ rules ∧ PromotionsOrdered promotions := by
  have hperm := perm_of_orderPromotions hn h
  obtain ⟨order, hcounts, rfl, -⟩ := counts_of_orderPromotions hn h
  have hsubset := hperm.subset
  refine ⟨hsubset, fun before rule after he producer hp => ?_⟩
  have hnodup := hperm.nodup_iff.2 hn
  rw [he] at hnodup hsubset
  obtain ⟨hbefore, -, hdisjoint⟩ := List.nodup_append.1 hnodup
  rw [← Bool.not_eq_true]
  intro hreads
  have hlt := PromotionOrder.producers_lt hbefore
    (fun q hq => hsubset (List.mem_append_left _ hq)) (hsubset (List.mem_append_right _ hp))
    (fun hm => hdisjoint producer hm producer hp rfl) hreads
  exact absurd (hcounts.placed before rule after he) (Nat.not_le_of_lt hlt)

end GuidedChart
