import GuidedChart.Parser.Basic
import GuidedChart.Utterance
import GuidedChart.Grammar.Builder
import GuidedChart.Proofs.Grammar.Promotions

/-!
# Accepted grammars

A grammar is accepted if a builder that was filled category by category and rule by rule finishes
it. Such a grammar has dense rule ids, so an id names one rule (`Accepted.eq_of_id_eq`), every rule
has a phase (`Accepted.exists_phase`), and its promotions are the rules of their phase with
producers before readers.
-/

namespace GuidedChart

namespace GrammarBuilder

/-- Builders that can be come to. -/
inductive Made : GrammarBuilder → Prop
  | empty : Made .empty
  | intern {builder : GrammarBuilder} (name : String) :
    Made builder → Made (builder.intern name).1
  | addRule {builder next : GrammarBuilder} {lhs : String} {rhs : List String} {floating : Bool}
    {semantics : Semantics} {id : RuleId} : Made builder →
    builder.addRule lhs rhs floating semantics = .ok (next, id) → Made next

/-- Is the id of each rule its place? -/
def Dense (builder : GrammarBuilder) : Prop :=
  ∀ (i : Nat) (rule : Rule), builder.rules[i]? = some rule → rule.id = i

theorem rules_intern (builder : GrammarBuilder) (name : String) :
    (builder.intern name).1.rules = builder.rules := by
  unfold intern
  split <;> rfl

theorem rules_symbol (builder : GrammarBuilder) (name : String) :
    (builder.symbol name).1.rules = builder.rules := by
  unfold symbol
  split
  · exact builder.rules_intern name
  · rfl

theorem rules_symbols (builder : GrammarBuilder) (names : List String) :
    (builder.symbols names).1.rules = builder.rules := by
  induction names generalizing builder with
  | nil => rfl
  | cons name names ih =>
    rw [symbols]
    exact (ih _).trans (builder.rules_symbol name)

theorem rules_addRule {builder next : GrammarBuilder} {lhs : String} {rhs : List String}
    {floating : Bool} {semantics : Semantics} {id : RuleId}
    (h : builder.addRule lhs rhs floating semantics = .ok (next, id)) :
    ∃ rule : Rule, rule.id = builder.rules.length ∧ next.rules = builder.rules ++ [rule] := by
  unfold addRule at h
  split at h
  · cases h
  · simp only [Except.ok.injEq, Prod.mk.injEq, rules_symbols, rules_intern] at h
    obtain ⟨rfl, -⟩ := h
    exact ⟨_, rfl, rfl⟩

theorem Made.dense {builder : GrammarBuilder} (h : builder.Made) : builder.Dense := by
  induction h with
  | empty => exact fun i rule hi => nomatch hi
  | @intern builder name _ ih =>
    rw [Dense, rules_intern]
    exact ih
  | @addRule builder _ _ _ _ _ _ _ hadd ih =>
    obtain ⟨rule, hid, hrules⟩ := rules_addRule hadd
    intro i r hi
    rw [hrules] at hi
    rcases Nat.lt_or_ge i builder.rules.length with hlt | hge
    · rw [List.getElem?_append_left hlt] at hi
      exact ih i r hi
    · rw [List.getElem?_append_right hge, List.getElem?_singleton] at hi
      split at hi
      · have hlast : builder.rules.length = i := by omega
        cases hi
        exact hid.trans hlast
      · cases hi

theorem Dense.nodup_rules {builder : GrammarBuilder} (h : builder.Dense) :
    builder.rules.Nodup := by
  rw [List.nodup_iff_getElem?_ne_getElem?]
  intro i j hij hj he
  have hi := List.getElem?_eq_getElem (Nat.lt_trans hij hj)
  have hsame : i = j := (h i _ hi).symm.trans (h j _ (he.symm.trans hi))
  exact Nat.ne_of_lt hij hsame

/-- What a builder has that builds a grammar, and what the grammar is. -/
theorem cases_of_build {builder : GrammarBuilder} {grammar : Grammar}
    (h : builder.build = .ok grammar) :
    (∃ rule ∈ builder.rules, rule.lhs.name = rootName) ∧
      (∀ rule ∈ builder.rules, rule.phase? ≠ none) ∧
      ∃ promotions, orderPromotions (builder.rules.filter (·.phase? = some .promotion)) =
        .ok promotions ∧ grammar = ⟨builder.categories, builder.rules, promotions⟩ := by
  unfold build at h
  split at h
  · cases h
  · split at h
    · cases h
    · rename_i hroot
      split at h
      · cases h
      · rename_i hphases
        split at h
        · rename_i promotions hordered
          cases h
          rw [Bool.not_eq_true', Bool.not_eq_false, List.any_eq_true] at hroot
          obtain ⟨rule, hr, hname⟩ := hroot
          refine ⟨⟨rule, hr, of_decide_eq_true hname⟩, fun rule hr hnone => ?_, promotions,
            hordered, rfl⟩
          exact List.find?_eq_none.1 hphases rule hr (decide_eq_true hnone)
        · cases h

end GrammarBuilder

/-- The shape of the rules of a phase. -/
theorem Rule.shape_of_phase? {rule : Rule} {phase : Phase} (h : rule.phase? = some phase) :
    match phase with
    | .lexical token => rule.floating = false ∧ rule.rhs = [.terminal token]
    | .promotion => rule.floating = false ∧ ∃ category, rule.rhs = [.nonterminal category]
    | .binary => rule.floating = false ∧ ∃ left right, rule.rhs = [left, right]
    | .floatingNullary => rule.floating = true ∧ rule.rhs = []
    | .floatingUnary => rule.floating = true ∧ ∃ symbol, rule.rhs = [symbol]
    | .floatingBinary => rule.floating = true ∧ ∃ left right, rule.rhs = [left, right] := by
  unfold Rule.phase? at h
  split at h <;> cases h <;> simp_all

namespace Grammar

theorem mem_rulesOf {grammar : Grammar} {phase : Phase} {rule : Rule} :
    rule ∈ grammar.rulesOf phase ↔ rule ∈ grammar.rules ∧ rule.phase? = some phase := by
  rw [rulesOf, List.mem_filter, decide_eq_true_iff]

/-- Grammars that a builder finishes. -/
def Accepted (grammar : Grammar) : Prop :=
  ∃ builder : GrammarBuilder, builder.Made ∧ builder.build = .ok grammar

theorem Accepted.exists_builder {grammar : Grammar} (h : grammar.Accepted) :
    ∃ builder : GrammarBuilder, builder.Dense ∧ grammar.rules = builder.rules ∧
      (∀ rule ∈ builder.rules, rule.phase? ≠ none) ∧
      orderPromotions (builder.rules.filter (·.phase? = some .promotion)) =
        .ok grammar.promotions := by
  obtain ⟨builder, hmade, hbuild⟩ := h
  obtain ⟨-, hphases, promotions, hordered, rfl⟩ := GrammarBuilder.cases_of_build hbuild
  exact ⟨builder, hmade.dense, rfl, hphases, hordered⟩

/-- An id names one rule. -/
theorem Accepted.eq_of_id_eq {grammar : Grammar} (h : grammar.Accepted) {r s : Rule}
    (hr : r ∈ grammar.rules) (hs : s ∈ grammar.rules) (hid : r.id = s.id) : r = s := by
  obtain ⟨builder, hdense, hrules, -, -⟩ := h.exists_builder
  rw [hrules] at hr hs
  obtain ⟨i, hi⟩ := List.mem_iff_getElem?.1 hr
  obtain ⟨j, hj⟩ := List.mem_iff_getElem?.1 hs
  have hij : i = j := (hdense i r hi).symm.trans (hid.trans (hdense j s hj))
  rw [hij, hj] at hi
  exact (Option.some.inj hi).symm

theorem Accepted.nodup_rules {grammar : Grammar} (h : grammar.Accepted) :
    grammar.rules.Nodup := by
  obtain ⟨builder, hdense, hrules, -, -⟩ := h.exists_builder
  rw [hrules]
  exact hdense.nodup_rules

/-- Every rule has a shape that belongs to a phase. -/
theorem Accepted.exists_phase {grammar : Grammar} (h : grammar.Accepted) {rule : Rule}
    (hr : rule ∈ grammar.rules) : ∃ phase, rule.phase? = some phase := by
  obtain ⟨builder, -, hrules, hphases, -⟩ := h.exists_builder
  exact Option.ne_none_iff_exists'.1 (hphases rule (hrules ▸ hr))

/-- The promotions are the rules of their phase, in some order. -/
theorem Accepted.promotions_perm {grammar : Grammar} (h : grammar.Accepted) :
    grammar.promotions.Perm (grammar.rulesOf .promotion) := by
  have hnodup := h.nodup_rules
  obtain ⟨builder, -, hrules, -, hordered⟩ := h.exists_builder
  rw [← hrules] at hordered
  exact perm_of_orderPromotions (hnodup.filter _) hordered

theorem Accepted.promotions {grammar : Grammar} (h : grammar.Accepted) :
    grammar.promotions ⊆ grammar.rules ∧ PromotionsOrdered grammar.promotions := by
  have hnodup := h.nodup_rules
  obtain ⟨builder, -, hrules, -, hordered⟩ := h.exists_builder
  rw [← hrules] at hordered
  obtain ⟨hsub, hord⟩ := promotionsOrdered_of_orderPromotions (hnodup.filter _) hordered
  exact ⟨fun r hr => List.mem_of_mem_filter (hsub hr), hord⟩

end Grammar

/-! ## Examples -/

/-- The sum and the product of a number with itself. -/
def Grammar.arithmetic : Grammar where
  categories := ["$Num", "$ROOT"]
  rules :=
    [⟨0, ⟨"$Num", 0⟩, [.terminal "three"], false, .constant (.value (.number 3))⟩,
      ⟨1, ⟨"$ROOT", 1⟩, [.nonterminal ⟨"$Num", 0⟩, .nonterminal ⟨"$Num", 0⟩], true, .call "+"⟩,
      ⟨2, ⟨"$ROOT", 1⟩, [.nonterminal ⟨"$Num", 0⟩, .nonterminal ⟨"$Num", 0⟩], true, .call "*"⟩]
  promotions := []

theorem Grammar.accepted_arithmetic : Grammar.arithmetic.Accepted := by
  have hconstant : GrammarBuilder.empty.addRule "$Num" ["three"] false
      (.constant (.value (.number 3))) = .ok (⟨["$Num"], arithmetic.rules.take 1⟩, 0) := rfl
  have hsum : GrammarBuilder.addRule ⟨["$Num"], arithmetic.rules.take 1⟩ "$ROOT" ["$Num", "$Num"]
      true (.call "+") = .ok (⟨["$Num", "$ROOT"], arithmetic.rules.take 2⟩, 1) := rfl
  have hproduct : GrammarBuilder.addRule ⟨["$Num", "$ROOT"], arithmetic.rules.take 2⟩ "$ROOT"
      ["$Num", "$Num"] true (.call "*") = .ok (⟨["$Num", "$ROOT"], arithmetic.rules⟩, 2) := rfl
  exact ⟨_, ((GrammarBuilder.Made.empty.addRule hconstant).addRule hsum).addRule hproduct, rfl⟩

/-- The parser for sums and products, without scores. -/
def Parser.arithmetic : Parser :=
  ⟨.arithmetic, { maxDepth := 1 }, [.emptyValue], fun _ => 0.0⟩

theorem Parser.ofConfig_arithmetic :
    Parser.ofConfig .arithmetic { maxDepth := 1 } (fun _ => 0.0) = .ok .arithmetic := rfl

def Example.six : Example := ⟨["three"], some (.number 6)⟩

/-- Terms with a rule in every phase: a number is a term, two terms in a row are a sum, and terms
are built from terms without an end. -/
def Grammar.terms : Grammar where
  categories := ["$Num", "$Term", "$ROOT"]
  rules :=
    [⟨0, ⟨"$Num", 0⟩, [.terminal "three"], false, .constant (.value (.number 3))⟩,
      ⟨1, ⟨"$Term", 1⟩, [.nonterminal ⟨"$Num", 0⟩], false, .identity⟩,
      ⟨2, ⟨"$Term", 1⟩, [.terminal "minus", .nonterminal ⟨"$Term", 1⟩], false, .call "-"⟩,
      ⟨3, ⟨"$Term", 1⟩, [.nonterminal ⟨"$Term", 1⟩, .nonterminal ⟨"$Term", 1⟩], false, .call "+"⟩,
      ⟨4, ⟨"$Term", 1⟩, [], true, .constant (.value (.number 2))⟩,
      ⟨5, ⟨"$Term", 1⟩, [.nonterminal ⟨"$Term", 1⟩], true, .call "-"⟩,
      ⟨6, ⟨"$Term", 1⟩, [.nonterminal ⟨"$Term", 1⟩, .nonterminal ⟨"$Term", 1⟩], true, .call "*"⟩,
      ⟨7, ⟨"$ROOT", 2⟩, [.nonterminal ⟨"$Term", 1⟩], true, .identity⟩]
  promotions := [⟨1, ⟨"$Term", 1⟩, [.nonterminal ⟨"$Num", 0⟩], false, .identity⟩]

theorem Grammar.accepted_terms : Grammar.terms.Accepted := by
  have hnumber : GrammarBuilder.empty.addRule "$Num" ["three"] false
      (.constant (.value (.number 3))) = .ok (⟨["$Num"], terms.rules.take 1⟩, 0) := rfl
  have hpromotion : GrammarBuilder.addRule ⟨["$Num"], terms.rules.take 1⟩ "$Term" ["$Num"] false
      .identity = .ok (⟨["$Num", "$Term"], terms.rules.take 2⟩, 1) := rfl
  have hminus : GrammarBuilder.addRule ⟨["$Num", "$Term"], terms.rules.take 2⟩ "$Term"
      ["minus", "$Term"] false (.call "-") =
        .ok (⟨["$Num", "$Term"], terms.rules.take 3⟩, 2) := rfl
  have hsum : GrammarBuilder.addRule ⟨["$Num", "$Term"], terms.rules.take 3⟩ "$Term"
      ["$Term", "$Term"] false (.call "+") =
        .ok (⟨["$Num", "$Term"], terms.rules.take 4⟩, 3) := rfl
  have hnullary : GrammarBuilder.addRule ⟨["$Num", "$Term"], terms.rules.take 4⟩ "$Term" [] true
      (.constant (.value (.number 2))) = .ok (⟨["$Num", "$Term"], terms.rules.take 5⟩, 4) := rfl
  have hunary : GrammarBuilder.addRule ⟨["$Num", "$Term"], terms.rules.take 5⟩ "$Term" ["$Term"]
      true (.call "-") = .ok (⟨["$Num", "$Term"], terms.rules.take 6⟩, 5) := rfl
  have hproduct : GrammarBuilder.addRule ⟨["$Num", "$Term"], terms.rules.take 6⟩ "$Term"
      ["$Term", "$Term"] true (.call "*") =
        .ok (⟨["$Num", "$Term"], terms.rules.take 7⟩, 6) := rfl
  have hroot : GrammarBuilder.addRule ⟨["$Num", "$Term"], terms.rules.take 7⟩ "$ROOT" ["$Term"]
      true .identity = .ok (⟨["$Num", "$Term", "$ROOT"], terms.rules⟩, 7) := rfl
  refine ⟨_, .addRule (.addRule (.addRule (.addRule (.addRule (.addRule (.addRule (.addRule .empty
    hnumber) hpromotion) hminus) hsum) hnullary) hunary) hproduct) hroot, rfl⟩

/-- The parser for terms, without scores. -/
def Parser.terms : Parser :=
  ⟨.terms, { maxDepth := 2 }, [.emptyValue], fun _ => 0.0⟩

/-- The negation of a number, followed by a number. -/
def Example.difference : Example := ⟨["minus", "three", "three"], some (.number 0)⟩

end GuidedChart
