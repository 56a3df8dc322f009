import GuidedChart.Proofs.Grammar.Accepted
import Mathlib.Data.Fintype.Card
import Mathlib.Data.Set.Finite.Basic
import Mathlib.Logic.Relation
import Mathlib.Order.WellFounded

/-!
# Promotions in cycles

A promotion leads from the category it reads to the category it produces. Promotions can be put
into an order just when these steps lead around in no cycle, and otherwise it is those behind a
cycle that are stuck (`GrammarBuilder.promotions_topological`).

A promotion behind a cycle waits for a producer that is behind the cycle too, so none of them is
ever ready (`PromotionOrder.Counts.not_behindCycle`). As for the others, a promotion is ready as
soon as its producers have their places (`PromotionOrder.Prompt`), so one that is stuck waits for
another one that is stuck, and going back from one to the next ends in a cycle
(`exists_cycle_of_finite`).
-/

namespace GuidedChart

open Relation (ReflTransGen TransGen)

/-- Where every member of a finite set is led to from another one, each is led to from a cycle. -/
theorem exists_cycle_of_finite {α : Type} {r : α → α → Prop} {members : Set α}
    (hfinite : members.Finite) (hpred : ∀ b ∈ members, ∃ a ∈ members, r a b) {b : α}
    (hb : b ∈ members) : ∃ a, TransGen r a a ∧ ReflTransGen r a b := by
  by_contra hno
  -- without a cycle, leading on is a well-founded order of what leads to the member
  let before := {a // a ∈ members ∧ ReflTransGen r a b}
  let leads : before → before → Prop := fun a c => TransGen r a.1 c.1
  have : Finite before := (hfinite.subset fun _ ha => ha.1).to_subtype
  have : IsTrans before leads := ⟨fun _ _ _ => TransGen.trans⟩
  have : Std.Irrefl leads := ⟨fun a ha => hno ⟨a.1, ha, a.2.2⟩⟩
  have hwf : WellFounded leads := Finite.wellFounded_of_trans_of_irrefl leads
  obtain ⟨⟨first, hfirst, hreach⟩, -, hmin⟩ := hwf.has_min Set.univ ⟨⟨b, hb, .refl⟩, trivial⟩
  obtain ⟨earlier, hearlier, hstep⟩ := hpred first hfirst
  exact hmin ⟨earlier, hearlier, hreach.head hstep⟩ trivial (TransGen.single hstep)

/-- Does some rule make the second category out of the first one? -/
def Promotes (rules : List Rule) (source target : CategoryId) : Prop :=
  ∃ rule ∈ rules, rule.reads source = true ∧ rule.lhs.id = target

namespace Rule

/-- Does the rule read a category that is on a cycle, or that one on a cycle is promoted to? -/
def BehindCycle (rules : List Rule) (rule : Rule) : Prop :=
  ∃ source, rule.reads source = true ∧
    ∃ category, TransGen (Promotes rules) category category ∧
      ReflTransGen (Promotes rules) category source

variable {rules : List Rule} {rule : Rule}

/-- Behind a cycle a rule reads what another one behind the cycle produces. -/
theorem BehindCycle.exists_producer (h : rule.BehindCycle rules) :
    ∃ producer ∈ rules, rule.reads producer.lhs.id = true ∧ producer.BehindCycle rules := by
  obtain ⟨source, hreads, category, hcycle, hreach⟩ := h
  -- the last step to what the rule reads, which is a step of the cycle if there is no other
  have hlast : ∃ before, ReflTransGen (Promotes rules) category before ∧
      Promotes rules before source := by
    rcases hreach.cases_tail with rfl | hlast
    · exact TransGen.tail'_iff.1 hcycle
    · exact hlast
  obtain ⟨before, hbefore, producer, hp, hproducer, rfl⟩ := hlast
  exact ⟨producer, hp, hreads, before, hproducer, category, hcycle, hbefore⟩

end Rule

namespace PromotionOrder

variable {rules : List Rule} {order : PromotionOrder}

namespace Counts

/-- The producers of a promotion with a place have places before it. -/
theorem mem_before (h : order.Counts rules) {before after : List Rule} {rule producer : Rule}
    (hplaced : order.placed = before ++ rule :: after) (hp : producer ∈ rules)
    (hreads : rule.reads producer.lhs.id = true) : producer ∈ before := by
  have hnodup := (List.nodup_append.1 h.nodup).1
  have hsubset : order.placed ⊆ rules := fun r hr => h.subset (List.mem_append_left _ hr)
  rw [hplaced] at hnodup hsubset
  by_contra hnot
  have hlt := producers_lt (List.nodup_append.1 hnodup).1
    (fun r hr => hsubset (List.mem_append_left _ hr)) hp hnot hreads
  exact absurd (h.placed before rule after hplaced) (Nat.not_le_of_lt hlt)

/-- No promotion behind a cycle has a place: its producer behind the cycle would have one before
it. -/
theorem not_behindCycle (h : order.Counts rules) {before after : List Rule} {rule : Rule}
    (hplaced : order.placed = before ++ rule :: after) : ¬ rule.BehindCycle rules := by
  induction hn : before.length using Nat.strong_induction_on generalizing before rule after with
  | h n ih =>
    intro hbehind
    obtain ⟨producer, hp, hreads, hproducer⟩ := hbehind.exists_producer
    obtain ⟨earlier, later, rfl⟩ := List.append_of_mem (h.mem_before hplaced hp hreads)
    rw [List.append_assoc, List.cons_append] at hplaced
    refine ih earlier.length ?_ hplaced rfl hproducer
    rw [← hn, List.length_append, List.length_cons]
    omega

/-- A counter that is counted down is not at zero: the rule that takes its place now is a producer
that had none. -/
theorem pos_of_reads (h : order.Counts rules) {rule : Rule} {ready : List Rule}
    (hready : order.ready = rule :: ready) {entry : Rule × Nat} (he : entry ∈ order.missing)
    (hreads : entry.1.reads rule.lhs.id = true) : 0 < entry.2 := by
  have hnodup := List.nodup_append.1 h.nodup
  have hrule : rule ∈ order.ready := by rw [hready]; exact List.mem_cons_self
  rw [h.missing] at he
  obtain ⟨reader, -, rfl⟩ := List.mem_map.1 he
  have hlt := producers_lt hnodup.1 (fun r hr => h.subset (List.mem_append_left _ hr))
    (h.subset (List.mem_append_right _ hrule)) (fun hr => hnodup.2.2 rule hr rule hrule rfl) hreads
  exact Nat.sub_pos_of_lt hlt

end Counts

/-! ## Nothing waits for nothing -/

/-- A promotion whose producers all have places has a place itself, or is ready. -/
def Prompt (rules : List Rule) (order : PromotionOrder) : Prop :=
  ∀ rule ∈ rules, producers rules rule ≤ producers order.placed rule →
    rule ∈ order.placed ++ order.ready

theorem prompt_start (rules : List Rule) : (start rules).Prompt rules := fun _ hrule hle =>
  List.mem_filter.2 ⟨hrule, decide_eq_true (Nat.le_zero.1 hle)⟩

theorem Prompt.step (h : order.Prompt rules) (hc : order.Counts rules) :
    order.step.Prompt rules := by
  cases hr : order.ready with
  | nil =>
    have hstep : order.step = order := by rw [PromotionOrder.step, hr]
    rwa [hstep]
  | cons rule ready =>
    rw [hc.step_eq hr]
    intro reader hreader hle
    change producers rules reader ≤ producers (order.placed ++ [rule]) reader at hle
    change reader ∈ (order.placed ++ [rule]) ++ (ready ++ Counts.released rules order.placed rule)
    rw [← List.append_assoc, List.mem_append]
    by_cases hreads : reader.reads rule.lhs.id = true
    · -- the rule was the last producer to be waited for
      exact Or.inr (List.mem_filter.2
        ⟨hreader, decide_eq_true ⟨hreads, Nat.sub_eq_zero_of_le hle⟩⟩)
    · rw [producers_append, producers_singleton, if_neg hreads] at hle
      have hold := h reader hreader hle
      rw [hr, List.append_cons] at hold
      exact Or.inl hold

theorem Prompt.run (hn : rules.Nodup) (h : order.Prompt rules) (hc : order.Counts rules)
    (n : Nat) : (order.run n).Prompt rules := by
  induction n generalizing order with
  | zero => exact h
  | succ n ih => exact ih (h.step hc) (hc.step hn)

theorem run_of_ready_eq_nil (h : order.ready = []) (n : Nat) : order.run n = order := by
  induction n with
  | zero => rfl
  | succ n ih =>
    have hstep : order.step = order := by rw [step, h]
    rw [run, hstep, ih]

/-- Each step gives one promotion its place, as long as one is ready. -/
theorem ready_run_eq_nil_or (order : PromotionOrder) (n : Nat) :
    (order.run n).ready = [] ∨ (order.run n).placed.length = order.placed.length + n := by
  induction n generalizing order with
  | zero => exact Or.inr rfl
  | succ n ih =>
    cases hr : order.ready with
    | nil => exact Or.inl (by rw [run_of_ready_eq_nil hr, hr])
    | cons rule ready =>
      have hlength : order.step.placed.length = order.placed.length + 1 := by
        rw [step, hr]
        exact List.length_append
      refine (ih order.step).imp id fun h => ?_
      rw [run, h, hlength, Nat.add_assoc, Nat.add_comm 1 n]

/-- There are at most as many steps as promotions. -/
theorem ready_run_length (hn : rules.Nodup) : ((start rules).run rules.length).ready = [] := by
  rcases ready_run_eq_nil_or (start rules) rules.length with h | h
  · exact h
  · have hcounts := (counts_start hn).run hn rules.length
    have hle := (List.subperm_of_subset hcounts.nodup hcounts.subset).length_le
    rw [List.length_append, h] at hle
    exact List.eq_nil_of_length_eq_zero (by omega)

end PromotionOrder

/-! ## Stuck promotions -/

section Stuck

variable {rules : List Rule} {rule : Rule}

/-- A promotion without a place waits for one that has none either. -/
theorem exists_producer_of_not_mem_placePromotions (hn : rules.Nodup) (hrule : rule ∈ rules)
    (hnot : rule ∉ placePromotions rules) :
    ∃ producer ∈ rules, producer ∉ placePromotions rules ∧
      rule.reads producer.lhs.id = true := by
  have hcounts := PromotionOrder.counts_start hn
  have hprompt := (PromotionOrder.prompt_start rules).run hn hcounts rules.length rule hrule
  rw [PromotionOrder.ready_run_length hn, List.append_nil] at hprompt
  by_contra hall
  refine hnot (hprompt ?_)
  rw [PromotionOrder.producers, PromotionOrder.producers, List.countP_eq_length_filter,
    List.countP_eq_length_filter]
  refine (List.subperm_of_subset (hn.filter _) fun producer hp => ?_).length_le
  obtain ⟨hp, hreads⟩ := List.mem_filter.1 hp
  refine List.mem_filter.2 ⟨?_, hreads⟩
  by_contra hplaced
  exact hall ⟨producer, hp, hplaced, hreads⟩

/-- A promotion has a place just when it is not behind a cycle. -/
theorem mem_placePromotions_iff (hn : rules.Nodup) :
    rule ∈ placePromotions rules ↔ rule ∈ rules ∧ ¬ rule.BehindCycle rules := by
  have hcounts := (PromotionOrder.counts_start hn).run hn rules.length
  refine ⟨fun hplaced => ?_, fun ⟨hrule, hfree⟩ => ?_⟩
  · obtain ⟨before, after, he⟩ := List.append_of_mem hplaced
    exact ⟨hcounts.subset (List.mem_append_left _ hplaced), hcounts.not_behindCycle he⟩
  · by_contra hnot
    -- the categories that promotions without a place read, each promoted from another one
    let waiting := {category | ∃ r ∈ rules, r ∉ placePromotions rules ∧ r.reads category = true}
    have hfinite : waiting.Finite := by
      refine (List.finite_toSet (rules.filterMap (·.childCategories.head?))).subset ?_
      rintro category ⟨r, hr, -, hreads⟩
      exact List.mem_filterMap.2 ⟨r, hr, of_decide_eq_true hreads⟩
    have hpred : ∀ target ∈ waiting, ∃ source ∈ waiting, Promotes rules source target := by
      rintro target ⟨r, hr, hstuck, hreads⟩
      obtain ⟨producer, hp, hpstuck, hproduced⟩ :=
        exists_producer_of_not_mem_placePromotions hn hr hstuck
      obtain ⟨next, hnext, hnstuck, hread⟩ :=
        exists_producer_of_not_mem_placePromotions hn hp hpstuck
      refine ⟨next.lhs.id, ⟨producer, hp, hpstuck, hread⟩, producer, hp, hread, ?_⟩
      have hsame := (of_decide_eq_true hproduced).symm.trans (of_decide_eq_true hreads)
      exact Option.some.inj hsame
    obtain ⟨producer, -, -, hreads⟩ := exists_producer_of_not_mem_placePromotions hn hrule hnot
    exact hfree ⟨producer.lhs.id, hreads,
      exists_cycle_of_finite hfinite hpred ⟨rule, hrule, hnot, hreads⟩⟩

/-- All promotions have places just when no category is promoted to itself. -/
theorem length_placePromotions_eq_iff (hn : rules.Nodup) :
    (placePromotions rules).length = rules.length ↔
      ∀ category, ¬ TransGen (Promotes rules) category category := by
  have hcounts := (PromotionOrder.counts_start hn).run hn rules.length
  have hsubset : placePromotions rules ⊆ rules := fun r hr =>
    ((mem_placePromotions_iff hn).1 hr).1
  have hnodup : (placePromotions rules).Nodup := (List.nodup_append.1 hcounts.nodup).1
  constructor
  · intro hlength category hcycle
    obtain ⟨_, ⟨rule, hrule, hreads, -⟩, -⟩ := TransGen.head'_iff.1 hcycle
    have hperm := (List.subperm_of_subset hnodup hsubset).perm_of_length_le hlength.ge
    have hfree := ((mem_placePromotions_iff hn).1 (hperm.symm.subset hrule)).2
    exact hfree ⟨category, hreads, category, hcycle, .refl⟩
  · intro hacyclic
    refine Nat.le_antisymm (List.subperm_of_subset hnodup hsubset).length_le
      (List.subperm_of_subset hn fun rule hrule => ?_).length_le
    refine (mem_placePromotions_iff hn).2 ⟨hrule, ?_⟩
    rintro ⟨-, -, category, hcycle, -⟩
    exact hacyclic category hcycle

end Stuck

namespace GrammarBuilder

/-- The anchored rules over one category. -/
def promotions (builder : GrammarBuilder) : List Rule :=
  builder.rules.filter (·.phase? = some .promotion)

/-- The promotions of a builder have an order just when no category is promoted to itself. The order
is one of all of them, with producers before readers. Where there is none, it is those behind a
cycle that are named, in the order of the builder. On the way no counter is counted down below
zero. -/
theorem promotions_topological {builder : GrammarBuilder} (h : builder.Made) :
    ((∃ order, orderPromotions builder.promotions = .ok order) ↔
      ∀ category, ¬ TransGen (Promotes builder.promotions) category category) ∧
    (∀ order, orderPromotions builder.promotions = .ok order →
      order.Perm builder.promotions ∧ PromotionsOrdered order) ∧
    (∀ stuck, orderPromotions builder.promotions = .error stuck →
      stuck.Sublist builder.promotions ∧
        ∀ rule, rule ∈ stuck ↔
          rule ∈ builder.promotions ∧ rule.BehindCycle builder.promotions) ∧
    ∀ (n : Nat) (rule : Rule) (ready : List Rule),
      ((PromotionOrder.start builder.promotions).run n).ready = rule :: ready →
      ∀ entry ∈ ((PromotionOrder.start builder.promotions).run n).missing,
        entry.1.reads rule.lhs.id = true → 0 < entry.2 := by
  have hn : builder.promotions.Nodup := h.dense.nodup_rules.filter _
  refine ⟨?_, fun order horder => ?_, fun stuck hstuck => ?_, fun n rule ready hready => ?_⟩
  · rw [← length_placePromotions_eq_iff hn]
    simp only [orderPromotions]
    split
    · rename_i hlength
      exact iff_of_true ⟨_, rfl⟩ hlength
    · rename_i hlength
      refine iff_of_false ?_ hlength
      rintro ⟨order, he⟩
      cases he
  · exact ⟨perm_of_orderPromotions hn horder, (promotionsOrdered_of_orderPromotions hn horder).2⟩
  · simp only [orderPromotions] at hstuck
    split at hstuck
    · cases hstuck
    · cases hstuck
      refine ⟨List.filter_sublist, fun rule => ?_⟩
      rw [List.mem_filter, Bool.not_eq_true', List.contains_eq_mem, decide_eq_false_iff_not,
        mem_placePromotions_iff hn]
      exact and_congr_right fun hrule => by simp [hrule]
  · intro entry hentry hreads
    exact ((PromotionOrder.counts_start hn).run hn n).pos_of_reads hready hentry hreads

/-! ### An example -/

/-- Two promotions in a cycle, another one out of the cycle, given twice, and one into it. -/
def circular : GrammarBuilder where
  categories := ["$A", "$B", "$ROOT", "$C"]
  rules :=
    [⟨0, ⟨"$A", 0⟩, [.nonterminal ⟨"$B", 1⟩], false, .identity⟩,
      ⟨1, ⟨"$B", 1⟩, [.nonterminal ⟨"$A", 0⟩], false, .identity⟩,
      ⟨2, ⟨"$ROOT", 2⟩, [.nonterminal ⟨"$A", 0⟩], false, .identity⟩,
      ⟨3, ⟨"$ROOT", 2⟩, [.nonterminal ⟨"$A", 0⟩], false, .identity⟩,
      ⟨4, ⟨"$A", 0⟩, [.nonterminal ⟨"$C", 3⟩], false, .identity⟩]

theorem made_circular : circular.Made := by
  have hfirst : empty.addRule "$A" ["$B"] false .identity =
      .ok (⟨["$A", "$B"], circular.rules.take 1⟩, 0) := rfl
  have hback : addRule ⟨["$A", "$B"], circular.rules.take 1⟩ "$B" ["$A"] false .identity =
      .ok (⟨["$A", "$B"], circular.rules.take 2⟩, 1) := rfl
  have hout : addRule ⟨["$A", "$B"], circular.rules.take 2⟩ "$ROOT" ["$A"] false .identity =
      .ok (⟨["$A", "$B", "$ROOT"], circular.rules.take 3⟩, 2) := rfl
  have hagain : addRule ⟨["$A", "$B", "$ROOT"], circular.rules.take 3⟩ "$ROOT" ["$A"] false
      .identity = .ok (⟨["$A", "$B", "$ROOT"], circular.rules.take 4⟩, 3) := rfl
  have hinto : addRule ⟨["$A", "$B", "$ROOT"], circular.rules.take 4⟩ "$A" ["$C"] false .identity =
      .ok (circular, 4) := rfl
  exact .addRule (.addRule (.addRule (.addRule (.addRule .empty hfirst) hback) hout) hagain) hinto

/-- All promotions are stuck but the one into the cycle. -/
theorem promotions_topological_circular :
    circular.Made ∧
    (∃ category, TransGen (Promotes circular.promotions) category category) ∧
    ∀ rule, rule ∈ circular.rules.take 4 ↔
      rule ∈ circular.promotions ∧ rule.BehindCycle circular.promotions := by
  have hstuck : orderPromotions circular.promotions = .error (circular.rules.take 4) := rfl
  obtain ⟨hok, -, herror, -⟩ := promotions_topological made_circular
  refine ⟨made_circular, ?_, (herror _ hstuck).2⟩
  by_contra hacyclic
  obtain ⟨order, horder⟩ := hok.2 fun category hcycle => hacyclic ⟨category, hcycle⟩
  rw [hstuck] at horder
  cases horder

end GrammarBuilder

end GuidedChart
