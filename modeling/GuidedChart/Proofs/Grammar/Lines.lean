import GuidedChart.Proofs.Grammar.Printing

/-!
# Rules on one line

Whatever a grammar was read from, each of its rules is printed on one line
(`Grammar.not_mem_newline_text`). The words of a statement may hold tabs and carriage returns,
between quotes, but no line feed; a string that is printed has its line feeds escaped, and numbers
have none. What the functions of a registry of another make are printed as is asked of that
registry (`Registry.KeepsLines`); the standard functions keep to it.
-/

namespace GuidedChart

/-! ## Values -/

theorem Decimal.ne_newline_of_mem_toDigits {b n : Nat} (hb : 1 < b) :
    ∀ c ∈ Nat.toDigits b n, c ≠ '\n' := by
  induction n using Nat.strongRecOn with
  | ind n ih =>
    rcases Nat.lt_or_ge n b with hn | hn
    · rw [Nat.toDigits_of_lt_base hn, List.forall_mem_singleton]
      exact Nat.digitChar_ne '\n' rfl
    · rw [Nat.toDigits_of_base_le hb hn, List.forall_mem_append, List.forall_mem_singleton]
      have hlt : n / b < n := Nat.div_lt_self (by omega) hb
      exact ⟨ih _ hlt, Nat.digitChar_ne '\n' rfl⟩

theorem Text.not_mem_newline_escape (c : Char) : '\n' ∉ escape c := by
  by_cases hc : c = '\n'
  · rw [hc]
    decide
  · unfold escape
    split
    case h_7 =>
      split
      · simpa using Ne.symm hc
      · simpa using fun hmem => Decimal.ne_newline_of_mem_toDigits (by decide) _ hmem rfl
    all_goals decide

theorem Text.not_mem_newline_quote (s : String) : '\n' ∉ (quote s).toList := by
  simpa [quote] using fun c _ => not_mem_newline_escape c

theorem Value.not_mem_newline_text {atom : String} (h : '\n' ∉ atom.toList) :
    '\n' ∉ (ofAtom atom).text.toList := by
  rcases ofAtom_cases atom with ⟨n, -, hatom⟩ | ⟨b, hatom⟩ | ⟨s, -, hatom⟩ | hatom
  · rw [hatom, text]
    exact (isArg_intText n).not_mem_newline
  · rw [hatom]
    cases b <;> decide
  · rw [hatom, text]
    exact Text.not_mem_newline_quote s
  · rwa [hatom, text]

/-! ## Semantic functions -/

namespace Semantics

variable {sem : Semantics}

theorem not_mem_newline_text (h : ∀ arg ∈ sem.args, '\n' ∉ arg.toList) :
    '\n' ∉ sem.text.toList := by
  rw [toList_text, List.mem_append, not_or]
  exact ⟨sem.isFunction_function.not_mem_newline, Statement.not_mem_newline_spacedOut h⟩

end Semantics

/-- Is every function that is built from words of one line printed on one line? -/
def Registry.KeepsLines (registry : Registry) : Prop :=
  ∀ name args sem, registry.resolve name args = .ok sem → (∀ arg ∈ args, '\n' ∉ arg.toList) →
    '\n' ∉ sem.text.toList

theorem Registry.keepsLines_standard : Registry.standard.KeepsLines := by
  intro name words sem h hwords
  refine Semantics.not_mem_newline_text ?_
  rcases Semantics.cases_of_resolve h with ⟨arg, rfl, rfl⟩ | ⟨-, rfl⟩ | ⟨arg, rfl, rfl⟩ | rfl | rfl
  · rw [List.forall_mem_singleton] at hwords
    rw [Semantics.args, List.forall_mem_singleton]
    exact Value.not_mem_newline_text hwords
  · rw [Semantics.args, List.map_map, List.forall_mem_map]
    exact fun word hword => Value.not_mem_newline_text (hwords word hword)
  · exact hwords
  · exact List.forall_mem_nil _
  · exact List.forall_mem_nil _

/-! ## Rules -/

namespace Rule

variable {rule : Rule}

/-- A rule takes one line if its symbols and its function do. -/
theorem not_mem_newline_text (hlhs : '\n' ∉ rule.lhs.name.toList)
    (hrhs : ∀ symbol ∈ rule.rhs, '\n' ∉ symbol.text.toList)
    (hsem : '\n' ∉ rule.semantics.text.toList) : '\n' ∉ rule.text.toList := by
  cases hfloating : rule.floating <;>
    simpa [text, signature, hfloating, hlhs, hsem] using hrhs

end Rule

namespace Grammar

variable {registry : Registry} {grammar : Grammar} {source : String} {rule : Rule}

/-- Each rule of a grammar that was read says what some statement of the text said. -/
theorem exists_says_of_mem_rules (h : Grammar.read registry source = .ok grammar)
    (hrule : rule ∈ grammar.rules) :
    ∃ statement : Statement, statement.Scanned ∧
      GrammarBuilder.Says registry statement rule := by
  obtain ⟨statements, builder, hread, hfold, hbuild⟩ := read_eq_ok_iff.1 h
  obtain ⟨-, -, promotions, -, rfl⟩ := GrammarBuilder.cases_of_build hbuild
  obtain ⟨rules, hrules, hsays, -⟩ := GrammarBuilder.exists_rules_of_foldlM hfold
  rw [GrammarBuilder.empty, List.nil_append] at hrules
  obtain ⟨statement, hmem, hstatement⟩ := hsays rule (hrules ▸ hrule)
  exact ⟨statement, Statement.scanned_of_mem_readAll (by rw [hread]; exact hmem), hstatement⟩

/-- The rules of a grammar that was read are printed on one line each. -/
theorem not_mem_newline_text (hregistry : registry.KeepsLines)
    (h : Grammar.read registry source = .ok grammar) (hrule : rule ∈ grammar.rules) :
    '\n' ∉ rule.text.toList := by
  obtain ⟨statement, hscanned, hsaid⟩ := exists_says_of_mem_rules h hrule
  refine Rule.not_mem_newline_text ?_ ?_ ?_
  · rw [hsaid.lhs]
    exact hscanned.lhs.not_mem_newline
  · intro symbol hsymbol
    have hmem : symbol.text ∈ statement.rhs := hsaid.rhs ▸ List.mem_map_of_mem hsymbol
    exact (hscanned.rhs _ hmem).not_mem_newline
  · refine hregistry _ _ _ hsaid.resolve fun arg harg => ?_
    rcases hscanned.args arg harg with harg | harg
    · exact harg.not_mem_newline
    · exact harg.not_mem_newline

end Grammar

end GuidedChart
