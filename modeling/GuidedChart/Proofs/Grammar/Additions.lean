import GuidedChart.Grammar.Builder

/-!
# Additions to a builder

A builder is asked to take in categories and rules, and refuses some of the rules. The checks of a
rule come before its categories are interned, so a refusal leaves the builder as it was
(`add_of_refused`). Hence the refused rules might as well not have been asked for: all other
additions are answered the same, and the same grammar is built (`refusals_traceless`).
-/

namespace GuidedChart

namespace GrammarBuilder

variable {builder : GrammarBuilder} {lhs : String} {rhs : List String} {floating : Bool}
  {semantics : Semantics}

/-! ## One addition -/

/-- Entering a rule in place leads to the builder that `addRule` returns, or breaks off with
nothing changed. -/
theorem run_enterRule (builder : GrammarBuilder) (lhs : String) (rhs : List String)
    (floating : Bool) (semantics : Semantics) :
    (enterRule lhs rhs floating semantics).run.run builder =
      match builder.addRule lhs rhs floating semantics with
      | .ok (next, id) => (.ok id, next)
      | .error cause => (.error cause, builder) := by
  unfold enterRule addRule
  cases refusal? lhs rhs floating <;> rfl

theorem add_rule (builder : GrammarBuilder) (lhs : String) (rhs : List String) (floating : Bool)
    (semantics : Semantics) :
    builder.add (.rule lhs rhs floating semantics) =
      match builder.addRule lhs rhs floating semantics with
      | .ok (next, id) => (next, .rule id)
      | .error cause => (builder, .refused cause) := by
  rw [add, run_enterRule]
  cases builder.addRule lhs rhs floating semantics <;> rfl

theorem refusal?_eq_none_iff :
    refusal? lhs rhs floating = none ↔
      isCategoryName lhs = true ∧ rhs.length ≤ 2 ∧
        (floating = true → ∀ symbol ∈ rhs, isCategoryName symbol = true) ∧
        (floating = false → rhs ≠ []) := by
  cases floating <;> grind [refusal?]

/-- A rule is refused for its shape alone, whatever the builder. -/
theorem exists_refused_iff :
    (∃ cause, (builder.add (.rule lhs rhs floating semantics)).2 = .refused cause) ↔
      lhs.toList.head? ≠ some '$' ∨ 2 < rhs.length ∨
        (floating = true ∧ ∃ symbol ∈ rhs, symbol.toList.head? ≠ some '$') ∨
        (floating = false ∧ rhs = []) := by
  have hiff : (∃ cause, (builder.add (.rule lhs rhs floating semantics)).2 = .refused cause) ↔
      refusal? lhs rhs floating ≠ none := by
    rw [add_rule, addRule]
    cases refusal? lhs rhs floating <;> simp
  rw [hiff, Ne, refusal?_eq_none_iff]
  simp only [isCategoryName, decide_eq_true_eq]
  grind

/-- A refusal leaves the builder as it was. -/
theorem add_of_refused {addition : Addition} {cause : GrammarError}
    (h : (builder.add addition).2 = .refused cause) : (builder.add addition).1 = builder := by
  cases addition with
  | category name => cases h
  | rule lhs rhs floating semantics =>
    rw [add_rule] at h ⊢
    cases hadd : builder.addRule lhs rhs floating semantics with
    | error => rfl
    | ok => rw [hadd] at h; cases h

/-! ## Many additions -/

def Receipt.isRefusal : Receipt → Bool
  | .refused _ => true
  | _ => false

/-- The additions that are not refused when a builder is asked for all of them in turn. -/
def accepted (builder : GrammarBuilder) (additions : List Addition) : List Addition :=
  ((additions.zip (builder.addAll additions).2).filter fun (_, receipt) => !receipt.isRefusal).map
    Prod.fst

theorem accepted_cons (builder : GrammarBuilder) (addition : Addition)
    (additions : List Addition) :
    builder.accepted (addition :: additions) =
      if (builder.add addition).2.isRefusal then builder.accepted additions
      else addition :: (builder.add addition).1.accepted additions := by
  simp only [accepted, addAll, List.zip_cons_cons, List.filter_cons]
  cases hreceipt : (builder.add addition).2 with
  | refused cause => simp [Receipt.isRefusal, add_of_refused hreceipt]
  | category | rule => simp [Receipt.isRefusal]

/-- Without the refused additions the same builder is come to, and all others are answered the
same. -/
theorem addAll_accepted (builder : GrammarBuilder) (additions : List Addition) :
    builder.addAll (builder.accepted additions) =
      ((builder.addAll additions).1,
        (builder.addAll additions).2.filter fun receipt => !receipt.isRefusal) := by
  induction additions generalizing builder with
  | nil => rfl
  | cons addition additions ih =>
    rw [accepted_cons]
    cases hreceipt : (builder.add addition).2 with
    | refused cause =>
      simp [addAll, Receipt.isRefusal, hreceipt, add_of_refused hreceipt, ih]
    | category | rule => simp [addAll, Receipt.isRefusal, hreceipt, ih]

/-- A rule is refused just when its left-hand side is no category, when it has more than two
symbols, when it floats and has a token, or when it does not float and has no symbol. Refusals
leave no trace: without the refused rules all other additions are given the same ids, and the same
grammar is built, or it fails in the same way. -/
theorem refusals_traceless (builder : GrammarBuilder) :
    (∀ lhs rhs floating semantics,
      (∃ cause, (builder.add (.rule lhs rhs floating semantics)).2 = .refused cause) ↔
        lhs.toList.head? ≠ some '$' ∨ 2 < rhs.length ∨
          (floating = true ∧ ∃ symbol ∈ rhs, symbol.toList.head? ≠ some '$') ∨
          (floating = false ∧ rhs = [])) ∧
    ∀ additions : List Addition,
      (builder.addAll (builder.accepted additions)).2 =
        ((builder.addAll additions).2.filter fun receipt => !receipt.isRefusal) ∧
      (builder.addAll (builder.accepted additions)).1.build =
        (builder.addAll additions).1.build := by
  refine ⟨fun lhs rhs floating semantics => exists_refused_iff, fun additions => ?_⟩
  rw [addAll_accepted]
  exact ⟨rfl, rfl⟩

end GrammarBuilder

end GuidedChart
