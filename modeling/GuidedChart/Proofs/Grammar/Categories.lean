import GuidedChart.Proofs.Grammar.Accepted

/-!
# The categories of an accepted grammar

A builder gives out ids as it meets names, and never takes one back. So in a grammar that was
accepted the ids in the rules stand for the names beside them (`Accepted.getElem?_lhs`,
`Accepted.getElem?_of_mem_rhs`), and the root, which some rule is for, is one of the categories
(`Accepted.root_lt`).
-/

namespace GuidedChart

namespace GrammarBuilder

/-- Does the id of the category stand for its name? -/
def Knows (builder : GrammarBuilder) (category : Category) : Prop :=
  builder.categories[category.id]? = some category.name

theorem Knows.mono {builder later : GrammarBuilder} {category : Category}
    (h : builder.Knows category) (hl : builder.categories <+: later.categories) :
    later.Knows category := by
  obtain ⟨more, he⟩ := hl
  unfold Knows at h ⊢
  rw [← he, List.getElem?_append_left (List.getElem?_eq_some_iff.1 h).1, h]

theorem categories_prefix_intern (builder : GrammarBuilder) (name : String) :
    builder.categories <+: (builder.intern name).1.categories := by
  unfold intern
  split
  · exact List.prefix_refl _
  · exact List.prefix_append _ _

theorem knows_intern (builder : GrammarBuilder) (name : String) :
    (builder.intern name).1.Knows ⟨name, (builder.intern name).2⟩ := by
  unfold intern
  split
  · rename_i id hid
    obtain ⟨hlt, hname, -⟩ := List.idxOf?_eq_some_iff.1 hid
    exact List.getElem?_eq_some_iff.2 ⟨hlt, hname⟩
  · simp [Knows]

theorem categories_prefix_symbol (builder : GrammarBuilder) (name : String) :
    builder.categories <+: (builder.symbol name).1.categories := by
  unfold symbol
  split
  · exact builder.categories_prefix_intern name
  · exact List.prefix_refl _

theorem knows_symbol (builder : GrammarBuilder) (name : String) {category : Category}
    (h : (builder.symbol name).2 = .nonterminal category) :
    (builder.symbol name).1.Knows category := by
  unfold symbol at h ⊢
  split at h
  · rename_i hname
    obtain rfl := Symbol.nonterminal.inj h
    rw [if_pos hname]
    exact builder.knows_intern name
  · cases h

theorem categories_prefix_symbols (builder : GrammarBuilder) (names : List String) :
    builder.categories <+: (builder.symbols names).1.categories := by
  induction names generalizing builder with
  | nil => exact List.prefix_refl _
  | cons name names ih => exact (builder.categories_prefix_symbol name).trans (ih _)

theorem knows_symbols (builder : GrammarBuilder) (names : List String) {category : Category}
    (h : .nonterminal category ∈ (builder.symbols names).2) :
    (builder.symbols names).1.Knows category := by
  induction names generalizing builder with
  | nil => cases h
  | cons name names ih =>
    rcases List.mem_cons.1 h with h | h
    · exact (builder.knows_symbol name h.symm).mono (categories_prefix_symbols _ names)
    · exact ih _ h

/-- The categories of a rule that is added are known afterwards, and all others still are. -/
theorem exists_rule_of_addRule {builder next : GrammarBuilder} {lhs : String} {rhs : List String}
    {floating : Bool} {semantics : Semantics} {id : RuleId}
    (h : builder.addRule lhs rhs floating semantics = .ok (next, id)) :
    builder.categories <+: next.categories ∧ ∃ rule : Rule,
      next.rules = builder.rules ++ [rule] ∧ next.Knows rule.lhs ∧
        ∀ category, .nonterminal category ∈ rule.rhs → next.Knows category := by
  unfold addRule at h
  split at h
  · cases h
  · simp only [Except.ok.injEq, Prod.mk.injEq, rules_symbols, rules_intern] at h
    obtain ⟨rfl, -⟩ := h
    have hlhs := builder.categories_prefix_intern lhs
    have hrhs := (builder.intern lhs).1.categories_prefix_symbols rhs
    exact ⟨hlhs.trans hrhs, _, rfl, (builder.knows_intern lhs).mono hrhs,
      fun category hc => (builder.intern lhs).1.knows_symbols rhs hc⟩

theorem Made.knows {builder : GrammarBuilder} (h : builder.Made) :
    ∀ rule ∈ builder.rules, builder.Knows rule.lhs ∧
      ∀ category, .nonterminal category ∈ rule.rhs → builder.Knows category := by
  induction h with
  | empty => exact nofun
  | @intern builder name _ ih =>
    intro rule hr
    rw [rules_intern] at hr
    have hmore := builder.categories_prefix_intern name
    exact ⟨(ih rule hr).1.mono hmore, fun category hc => ((ih rule hr).2 category hc).mono hmore⟩
  | addRule _ hadd ih =>
    obtain ⟨hmore, rule, hrules, hknows⟩ := exists_rule_of_addRule hadd
    intro r hr
    rw [hrules, List.mem_append, List.mem_singleton] at hr
    rcases hr with hr | rfl
    · exact ⟨(ih r hr).1.mono hmore, fun category hc => ((ih r hr).2 category hc).mono hmore⟩
    · exact hknows

end GrammarBuilder

namespace Grammar

variable {grammar : Grammar} {rule : Rule}

theorem Accepted.exists_made (h : grammar.Accepted) :
    ∃ builder : GrammarBuilder, builder.Made ∧ grammar.categories = builder.categories ∧
      grammar.rules = builder.rules ∧ ∃ rule ∈ builder.rules, rule.lhs.name = rootName := by
  obtain ⟨builder, hmade, hbuild⟩ := h
  obtain ⟨hroot, -, promotions, -, rfl⟩ := GrammarBuilder.cases_of_build hbuild
  exact ⟨builder, hmade, rfl, rfl, hroot⟩

theorem Accepted.getElem?_lhs (h : grammar.Accepted) (hr : rule ∈ grammar.rules) :
    grammar.categories[rule.lhs.id]? = some rule.lhs.name := by
  obtain ⟨builder, hmade, hcategories, hrules, -⟩ := h.exists_made
  rw [hcategories]
  exact (hmade.knows rule (hrules ▸ hr)).1

theorem Accepted.getElem?_of_mem_rhs (h : grammar.Accepted) (hr : rule ∈ grammar.rules)
    {category : Category} (hc : .nonterminal category ∈ rule.rhs) :
    grammar.categories[category.id]? = some category.name := by
  obtain ⟨builder, hmade, hcategories, hrules, -⟩ := h.exists_made
  rw [hcategories]
  exact (hmade.knows rule (hrules ▸ hr)).2 category hc

theorem Accepted.lt_of_mem_childCategories (h : grammar.Accepted) (hr : rule ∈ grammar.rules)
    {category : CategoryId} (hc : category ∈ rule.childCategories) :
    category < grammar.categories.length := by
  obtain ⟨symbol, hs, hsymbol⟩ := List.mem_filterMap.1 hc
  cases symbol with
  | terminal token => cases hsymbol
  | nonterminal named =>
    obtain rfl := Option.some.inj hsymbol
    exact (List.getElem?_eq_some_iff.1 (h.getElem?_of_mem_rhs hr hs)).1

theorem Accepted.root_lt (h : grammar.Accepted) : grammar.root < grammar.categories.length := by
  obtain ⟨builder, hmade, hcategories, -, rule, hr, hname⟩ := h.exists_made
  have hmem := List.mem_of_getElem? (hmade.knows rule hr).1
  rw [hname, ← hcategories] at hmem
  exact List.idxOf_lt_length_iff.2 hmem

end Grammar

end GuidedChart
