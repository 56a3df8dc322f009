import GuidedChart.Proofs.Grammar.Additions
import GuidedChart.Proofs.Grammar.Cycles
import GuidedChart.Proofs.Grammar.Distances

/-!
# Rules by phase

What a builder lets in as a rule has at most two symbols, and one at least unless it floats, so it
has one of the six shapes that there are phases for (`Made.exists_phase`). A builder therefore fails
only for want of a rule, for want of a rule for the root, or because of a cycle of promotions, and
the indexes of a grammar that is built share out its rules, each rule to one index
(`build_phased`).
-/

namespace GuidedChart

open Relation (TransGen)

/-! ## Shapes -/

/-- Has the rule the shape that the phase is for? -/
def Phase.Fits : Phase → Rule → Prop
  | .lexical token, rule => rule.floating = false ∧ rule.rhs = [.terminal token]
  | .binary, rule => rule.floating = false ∧ ∃ left right, rule.rhs = [left, right]
  | .promotion, rule => rule.floating = false ∧ ∃ category, rule.rhs = [.nonterminal category]
  | .floatingNullary, rule => rule.floating = true ∧ rule.rhs = []
  | .floatingUnary, rule => rule.floating = true ∧ ∃ symbol, rule.rhs = [symbol]
  | .floatingBinary, rule => rule.floating = true ∧ ∃ left right, rule.rhs = [left, right]

namespace Rule

variable {rule : Rule} {phase : Phase}

theorem phase?_eq_some_iff : rule.phase? = some phase ↔ phase.Fits rule := by
  constructor
  · intro h
    have hshape := shape_of_phase? h
    cases phase <;> exact hshape
  · intro h
    cases phase with
    | lexical token => simp [phase?, h.1, h.2]
    | promotion =>
      obtain ⟨hf, category, hrhs⟩ := h
      simp [phase?, hf, hrhs]
    | binary | floatingBinary =>
      obtain ⟨hf, left, right, hrhs⟩ := h
      simp [phase?, hf, hrhs]
    | floatingNullary => simp [phase?, h.1, h.2]
    | floatingUnary =>
      obtain ⟨hf, symbol, hrhs⟩ := h
      simp [phase?, hf, hrhs]

theorem exists_phase_of_length (hlength : rule.rhs.length ≤ 2)
    (hanchored : rule.floating = false → rule.rhs ≠ []) : ∃ phase, rule.phase? = some phase := by
  obtain ⟨id, lhs, rhs, floating, semantics⟩ := rule
  match floating, rhs with
  | false, [] => exact absurd rfl (hanchored rfl)
  | false, [.terminal token] => exact ⟨.lexical token, rfl⟩
  | false, [.nonterminal _] => exact ⟨.promotion, rfl⟩
  | false, [_, _] => exact ⟨.binary, by simp [phase?]⟩
  | true, [] => exact ⟨.floatingNullary, rfl⟩
  | true, [_] => exact ⟨.floatingUnary, rfl⟩
  | true, [_, _] => exact ⟨.floatingBinary, rfl⟩
  | _, _ :: _ :: _ :: _ => simp at hlength

end Rule

namespace GrammarBuilder

variable {builder : GrammarBuilder}

/-! ## What is entered -/

/-- The rule that is asked for, as it is spelled. -/
def Addition.spelled? : Addition → Option (String × List (Bool × String) × Bool × Semantics)
  | .category _ => none
  | .rule lhs rhs floating semantics =>
    some (lhs, rhs.map fun name => (isCategoryName name, name), floating, semantics)

def Receipt.rule? : Receipt → Option RuleId
  | .rule id => some id
  | _ => none

theorem spelled_symbol (builder : GrammarBuilder) (name : String) :
    (builder.symbol name).2.spelled = (isCategoryName name, name) := by
  unfold symbol
  split
  · rename_i hname
    rw [hname]
    rfl
  · rename_i hname
    rw [Bool.not_eq_true] at hname
    rw [hname]
    rfl

theorem spelled_symbols (builder : GrammarBuilder) (names : List String) :
    (builder.symbols names).2.map Symbol.spelled =
      names.map fun name => (isCategoryName name, name) := by
  induction names generalizing builder with
  | nil => rfl
  | cons name names ih => rw [symbols, List.map_cons, List.map_cons, spelled_symbol, ih]

/-- A rule that is let in goes to the end of the rules, with the next id and spelled as it was
asked for. -/
theorem exists_entered_of_addRule {next : GrammarBuilder} {lhs : String} {rhs : List String}
    {floating : Bool} {semantics : Semantics} {id : RuleId}
    (h : builder.addRule lhs rhs floating semantics = .ok (next, id)) :
    refusal? lhs rhs floating = none ∧ ∃ rule : Rule, next.rules = builder.rules ++ [rule] ∧
      rule.id = id ∧ (Addition.rule lhs rhs floating semantics).spelled? = some rule.spelled := by
  unfold addRule at h
  split at h
  · cases h
  · rename_i hnone
    simp only [Except.ok.injEq, Prod.mk.injEq, rules_symbols, rules_intern] at h
    obtain ⟨rfl, rfl⟩ := h
    exact ⟨hnone, _, rfl, rfl, by rw [Addition.spelled?, Rule.spelled, spelled_symbols]⟩

/-- Every rule that is let in has a phase. -/
theorem Made.exists_phase (h : builder.Made) {rule : Rule} (hr : rule ∈ builder.rules) :
    ∃ phase, rule.phase? = some phase := by
  induction h with
  | empty => cases hr
  | intern name _ ih => exact ih (rules_intern _ name ▸ hr)
  | @addRule builder next lhs rhs floating semantics id _ hadd ih =>
    obtain ⟨hnone, entered, hrules, -, hspelled⟩ := exists_entered_of_addRule hadd
    rw [hrules, List.mem_append, List.mem_singleton] at hr
    rcases hr with hr | rfl
    · exact ih hr
    · obtain ⟨-, hlength, -, hanchored⟩ := refusal?_eq_none_iff.1 hnone
      simp only [Addition.spelled?, Rule.spelled, Option.some.injEq, Prod.mk.injEq] at hspelled
      obtain ⟨-, hrhs, rfl, -⟩ := hspelled
      have hsame : rhs.length = rule.rhs.length := by simpa using congrArg List.length hrhs
      refine Rule.exists_phase_of_length (hsame ▸ hlength) fun hf hnil => hanchored hf ?_
      rw [hnil, List.length_nil] at hsame
      exact List.eq_nil_of_length_eq_zero hsame

theorem Made.add (h : builder.Made) (addition : Addition) : (builder.add addition).1.Made := by
  cases addition with
  | category name => exact h.intern name
  | rule lhs rhs floating semantics =>
    rw [add_rule]
    cases hadd : builder.addRule lhs rhs floating semantics with
    | error => exact h
    | ok entered => exact h.addRule hadd

theorem Made.addAll (h : builder.Made) (additions : List Addition) :
    (builder.addAll additions).1.Made := by
  induction additions generalizing builder with
  | nil => exact h
  | cons addition additions ih => exact ih (h.add addition)

/-- What one addition does to the rules. -/
theorem exists_rules_add (builder : GrammarBuilder) (addition : Addition) :
    ∃ rules : List Rule, (builder.add addition).1.rules = builder.rules ++ rules ∧
      rules.map Rule.id = (builder.add addition).2.rule?.toList ∧
      rules.map Rule.spelled =
        if (builder.add addition).2.isRefusal then [] else addition.spelled?.toList := by
  cases addition with
  | category name => exact ⟨[], by simp [add, rules_intern], rfl, rfl⟩
  | rule lhs rhs floating semantics =>
    rw [add_rule]
    cases hadd : builder.addRule lhs rhs floating semantics with
    | error => exact ⟨[], by simp, rfl, rfl⟩
    | ok entered =>
      obtain ⟨-, rule, hrules, hid, hspelled⟩ := exists_entered_of_addRule hadd
      exact ⟨[rule], hrules, by simp [hid, Receipt.rule?], by simp [hspelled, Receipt.isRefusal]⟩

/-- The rules are those that were let in, in the order in which they were asked for, with the ids
that were answered. -/
theorem exists_rules_addAll (builder : GrammarBuilder) (additions : List Addition) :
    ∃ rules : List Rule, (builder.addAll additions).1.rules = builder.rules ++ rules ∧
      rules.map Rule.id = (builder.addAll additions).2.filterMap Receipt.rule? ∧
      rules.map Rule.spelled = (builder.accepted additions).filterMap Addition.spelled? := by
  induction additions generalizing builder with
  | nil => exact ⟨[], by simp [addAll, accepted]⟩
  | cons addition additions ih =>
    obtain ⟨first, hfirst, hid, hspelled⟩ := builder.exists_rules_add addition
    obtain ⟨rest, hrest, hids, hspellings⟩ := ih (builder.add addition).1
    refine ⟨first ++ rest, ?_, ?_, ?_⟩
    · rw [addAll, hrest, hfirst, List.append_assoc]
    · rw [List.map_append, hid, hids, addAll, List.filterMap_cons]
      cases (builder.add addition).2.rule? <;> rfl
    · rw [List.map_append, hspelled, hspellings, accepted_cons]
      split
      · rename_i hrefused
        cases hreceipt : (builder.add addition).2 with
        | refused cause => rw [add_of_refused hreceipt, List.nil_append]
        | category | rule => rw [hreceipt] at hrefused; cases hrefused
      · rw [List.filterMap_cons]
        cases addition.spelled? <;> rfl

/-! ## Building -/

/-- An anchored rule makes the second category out of the first one alone. -/
def UnaryStep (builder : GrammarBuilder) (source target : CategoryId) : Prop :=
  ∃ rule ∈ builder.rules, rule.floating = false ∧
    (∃ name, rule.rhs = [.nonterminal ⟨name, source⟩]) ∧ rule.lhs.id = target

theorem unaryStep_eq_promotes (builder : GrammarBuilder) :
    builder.UnaryStep = Promotes builder.promotions := by
  funext source target
  refine propext (exists_congr fun rule => ?_)
  rw [promotions, List.mem_filter, decide_eq_true_iff, Rule.phase?_eq_some_iff, and_assoc]
  refine and_congr_right fun _ => ?_
  constructor
  · rintro ⟨hf, ⟨name, hrhs⟩, hlhs⟩
    exact ⟨⟨hf, _, hrhs⟩, by simp [Rule.reads, Rule.childCategories, hrhs, Symbol.category?], hlhs⟩
  · rintro ⟨⟨hf, category, hrhs⟩, hreads, hlhs⟩
    simp only [Rule.reads, Rule.childCategories, hrhs, List.filterMap_cons, Symbol.category?,
      List.head?_cons, Option.some.injEq, decide_eq_true_eq] at hreads
    exact ⟨hf, ⟨category.name, by rw [hrhs, ← hreads]⟩, hlhs⟩

theorem exists_orderPromotions_iff {rules : List Rule} (hn : rules.Nodup) :
    (∃ order, orderPromotions rules = .ok order) ↔
      ∀ category, ¬ TransGen (Promotes rules) category category := by
  rw [← length_placePromotions_eq_iff hn, orderPromotions]
  split <;> simp [*]

/-- No rule stands in the way for its shape. -/
theorem Made.build_eq (h : builder.Made) :
    builder.build =
      if builder.rules.isEmpty then .error .emptyRuleset
      else if !builder.rules.any (·.lhs.name = rootName) then .error .noRootRule
      else
        match orderPromotions builder.promotions with
        | .ok promotions => .ok ⟨builder.categories, builder.rules, promotions⟩
        | .error stuck => .error (.promotionCycle (stuck.map Rule.signature)) := by
  have hphases : builder.rules.find? (·.phase? = none) = none := by
    refine List.find?_eq_none.2 fun rule hr => ?_
    obtain ⟨phase, hphase⟩ := h.exists_phase hr
    simp [hphase]
  unfold build
  rw [hphases]
  rfl

theorem Made.exists_build_iff (h : builder.Made) :
    (∃ grammar, builder.build = .ok grammar) ↔
      builder.rules ≠ [] ∧ (∃ rule ∈ builder.rules, rule.lhs.name = rootName) ∧
        ∀ category, ¬ TransGen builder.UnaryStep category category := by
  have hn : builder.promotions.Nodup := h.dense.nodup_rules.filter _
  rw [unaryStep_eq_promotes, ← exists_orderPromotions_iff hn, h.build_eq]
  split
  · rename_i hempty
    simp [List.isEmpty_iff.1 hempty]
  · rename_i hsome
    split
    · rename_i hroot
      simp only [Bool.not_eq_true', List.any_eq_false, decide_eq_true_eq] at hroot
      refine iff_of_false nofun ?_
      rintro ⟨-, ⟨rule, hr, hname⟩, -⟩
      exact hroot rule hr hname
    · rename_i hroot
      simp only [Bool.not_eq_true', Bool.not_eq_false, List.any_eq_true, decide_eq_true_eq] at hroot
      have hne : builder.rules ≠ [] := fun hnil => hsome (List.isEmpty_iff.2 hnil)
      cases orderPromotions builder.promotions with
      | ok order => exact iff_of_true ⟨_, rfl⟩ ⟨hne, hroot, order, rfl⟩
      | error stuck => simp

theorem Made.build_ne_unsupportedShape (h : builder.Made) (rule : String) :
    builder.build ≠ .error (.unsupportedShape rule) := by
  rw [h.build_eq]
  split
  · exact nofun
  · split
    · exact nofun
    · split <;> exact nofun

end GrammarBuilder

namespace Grammar

variable {grammar : Grammar} {rule : Rule} {phase : Phase}

/-! ## Indexes -/

/-- The rules that a phase goes through, in that order. -/
def index (grammar : Grammar) : Phase → List Rule
  | .promotion => grammar.promotions
  | phase => grammar.rulesOf phase

theorem Accepted.mem_index (h : grammar.Accepted) :
    rule ∈ grammar.index phase ↔ rule ∈ grammar.rules ∧ phase.Fits rule := by
  rw [← Rule.phase?_eq_some_iff, ← mem_rulesOf]
  cases phase with
  | promotion => exact h.promotions_perm.mem_iff
  | _ => rfl

theorem Accepted.nodup_index (h : grammar.Accepted) (phase : Phase) :
    (grammar.index phase).Nodup := by
  have hn : (grammar.rulesOf phase).Nodup := h.nodup_rules.filter _
  cases phase with
  | promotion => exact h.promotions_perm.nodup_iff.2 hn
  | _ => exact hn

theorem Accepted.map_id_rules (h : grammar.Accepted) :
    grammar.rules.map Rule.id = List.range grammar.rules.length := by
  obtain ⟨builder, hdense, hrules, -⟩ := h.exists_builder
  rw [hrules]
  refine List.ext_getElem (by simp) fun i hi _ => ?_
  rw [List.getElem_map, List.getElem_range]
  exact hdense i _ (List.getElem?_eq_getElem _)

/-- Only the promotions are in an order of their own. -/
theorem Accepted.index_pairwise (h : grammar.Accepted) (hp : phase ≠ .promotion) :
    (grammar.index phase).Pairwise (·.id < ·.id) := by
  have hrules : grammar.rules.Pairwise (·.id < ·.id) := by
    rw [← List.pairwise_map (R := (· < ·)), h.map_id_rules]
    exact List.pairwise_lt_range
  cases phase with
  | promotion => exact absurd rfl hp
  | _ => exact hrules.filter _

theorem isFloatingChild_iff {category : CategoryId} :
    grammar.isFloatingChild category = true ↔
      ∃ rule ∈ grammar.rules, rule.floating = true ∧
        ∃ named : Category, .nonterminal named ∈ rule.rhs ∧ named.id = category := by
  simp only [isFloatingChild, List.any_eq_true, Bool.and_eq_true, List.contains_iff_mem]
  refine exists_congr fun rule => and_congr_right fun _ => and_congr_right fun _ => ?_
  refine ⟨exists_mem_rhs_of_mem_childCategories, ?_⟩
  rintro ⟨named, hmem, rfl⟩
  exact List.mem_filterMap.2 ⟨_, hmem, rfl⟩

/-- The rules of a grammar and its categories are numbered through, and its indexes share out the
rules. -/
structure Phased (grammar : Grammar) : Prop where
  ids : grammar.rules.map Rule.id = List.range grammar.rules.length
  names : ∀ name id, grammar.category? name = some id ↔ grammar.categoryName? id = some name
  /-- The rules use the ids of the categories they name. -/
  lhs : ∀ rule ∈ grammar.rules, grammar.categoryName? rule.lhs.id = some rule.lhs.name
  rhs : ∀ rule ∈ grammar.rules, ∀ category, .nonterminal category ∈ rule.rhs →
    grammar.categoryName? category.id = some category.name
  mem_index : ∀ phase rule, rule ∈ grammar.index phase ↔ rule ∈ grammar.rules ∧ phase.Fits rule
  existsUnique_index : ∀ rule ∈ grammar.rules, ∃! phase, rule ∈ grammar.index phase
  nodup_index : ∀ phase, (grammar.index phase).Nodup
  index_pairwise : ∀ phase, phase ≠ .promotion → (grammar.index phase).Pairwise (·.id < ·.id)
  isFloatingChild : ∀ category, grammar.isFloatingChild category = true ↔
    ∃ rule ∈ grammar.rules, rule.floating = true ∧
      ∃ named : Category, .nonterminal named ∈ rule.rhs ∧ named.id = category

theorem Accepted.phased (h : grammar.Accepted) : grammar.Phased where
  ids := h.map_id_rules
  names _ _ := h.category?_eq_some_iff
  lhs _ hr := h.getElem?_lhs hr
  rhs _ hr _ hc := h.getElem?_of_mem_rhs hr hc
  mem_index _ _ := h.mem_index
  existsUnique_index rule hr := by
    obtain ⟨phase, hphase⟩ := h.exists_phase hr
    refine ⟨phase, h.mem_index.2 ⟨hr, Rule.phase?_eq_some_iff.1 hphase⟩, fun other hother => ?_⟩
    have hfits := Rule.phase?_eq_some_iff.2 (h.mem_index.1 hother).2
    exact Option.some.inj (hfits.symm.trans hphase)
  nodup_index := h.nodup_index
  index_pairwise _ := h.index_pairwise
  isFloatingChild _ := isFloatingChild_iff

end Grammar

namespace GrammarBuilder

/-- The builder that additions lead to from nothing. -/
def filled (additions : List Addition) : GrammarBuilder :=
  (empty.addAll additions).1

/-- However a builder was filled, no rule of it has an unsupported shape. It builds a grammar just
when it has a rule and one for the root and no category is promoted to itself. The rules of the
grammar are those that were let in, in that order and with the ids that were answered, and its
indexes share them out by their shapes, each rule to one index. -/
theorem build_phased (additions : List Addition) :
    (∀ rule, (filled additions).build ≠ .error (.unsupportedShape rule)) ∧
    ((∃ grammar, (filled additions).build = .ok grammar) ↔
      (filled additions).rules ≠ [] ∧
      (∃ rule ∈ (filled additions).rules, rule.lhs.name = rootName) ∧
      ∀ category, ¬ TransGen (filled additions).UnaryStep category category) ∧
    ∀ grammar, (filled additions).build = .ok grammar →
      grammar.rules.map Rule.spelled = (empty.accepted additions).filterMap Addition.spelled? ∧
      grammar.rules.map Rule.id = (empty.addAll additions).2.filterMap Receipt.rule? ∧
      grammar.Phased := by
  have hmade : (filled additions).Made := Made.empty.addAll additions
  refine ⟨hmade.build_ne_unsupportedShape, hmade.exists_build_iff, fun grammar hbuild => ?_⟩
  obtain ⟨rules, hrules, hids, hspellings⟩ := empty.exists_rules_addAll additions
  have hsame : grammar.rules = rules := by
    obtain ⟨-, -, promotions, -, rfl⟩ := cases_of_build hbuild
    exact hrules
  rw [hsame]
  exact ⟨hspellings, hids, Grammar.Accepted.phased ⟨_, hmade, hbuild⟩⟩

/-- The rules of `Grammar.terms`, with two that are refused among them. -/
def termAdditions : List Addition :=
  [.rule "$Num" ["three"] false (.constant (.value (.number 3))),
    .rule "$Sum" ["$Num", "plus", "$Num"] false (.call "+"),
    .rule "$Term" ["$Num"] false .identity, .category "$Num",
    .rule "$Term" ["minus", "$Term"] false (.call "-"),
    .rule "$Term" ["$Term", "$Term"] false (.call "+"),
    .rule "$Term" [] true (.constant (.value (.number 2))),
    .rule "$Term" ["two"] true (.constant (.value (.number 2))),
    .rule "$Term" ["$Term"] true (.call "-"),
    .rule "$Term" ["$Term", "$Term"] true (.call "*"),
    .rule "$ROOT" ["$Term"] true .identity]

theorem build_phased_terms :
    (filled termAdditions).build = .ok .terms ∧
      (empty.addAll termAdditions).2.filterMap Receipt.rule? = [0, 1, 2, 3, 4, 5, 6, 7] ∧
      Grammar.terms.Phased := by
  have hbuild : (filled termAdditions).build = .ok .terms := rfl
  obtain ⟨-, hids, hphased⟩ := (build_phased termAdditions).2.2 .terms hbuild
  exact ⟨hbuild, hids.symm, hphased⟩

end GrammarBuilder

end GuidedChart
