import GuidedChart.Application
import GuidedChart.Pruning
import GuidedChart.Proofs.Sense

/-!
# Senses are congruences

What a rule makes of its children depends on their senses alone: an application over children of the
same senses offers as many candidates, and each of them has the same sense
(`Application.map_sense_candidates`). If the children have the same formulas too, so have the
candidates (`Application.exists_candidate_congr`). This is what allows a chart to keep one entry for
all derivations of one meaning.

Strategies that look at the value only cannot tell derivations of one sense apart
(`Pruner.discards_congr`).
-/

namespace GuidedChart

/-! ## Values of formulas -/

namespace Formula

@[simp]
theorem value?_value (v : Value) : (Formula.value v).value? = some v := by
  rw [value?, execute_value]
  rfl

theorem toOption_executeAll (fs : List Formula) :
    (executeAll fs).toOption = (fs.map value?).mapM id := by
  induction fs with
  | nil => rfl
  | cons f fs ih =>
    rw [executeAll, List.map_cons, List.mapM_cons, ← ih, value?]
    cases f.execute with
    | error e => rfl
    | ok v => cases executeAll fs <;> rfl

/-- The value of a function of this name on values that its arguments may have. -/
def callValue? (name : String) (args : List (Option Value)) : Option Value := do
  let values ← args.mapM id
  let builtin ← Builtin.ofName? name
  (builtin.apply values).value?

/-- An application has a value only if all its arguments do, and it depends on nothing else. -/
theorem value?_call (name : String) (args : List Formula) :
    (Formula.call name args).value? = callValue? name (args.map value?) := by
  rw [value?, execute_call, callValue?, ← toOption_executeAll]
  cases executeAll args with
  | error e => rfl
  | ok values =>
    cases Builtin.ofName? name <;> simp [Except.bind, Except.toOption, Outcome.value?]

end Formula

/-! ## Rules on senses -/

namespace Semantics

/-- What a semantic function makes of values that the children may have. -/
def values (sem : Semantics) (phrase : Option String) (children : List (Option Value)) :
    List (Option Value) :=
  match sem with
  | .constant formula => [formula.value?]
  | .choice alternatives => alternatives.map Formula.value?
  | .identity => children.head?.toList
  | .call name => [Formula.callValue? name children]
  | .number => ((phrase.bind numeral?).map fun n => some (.number n)).toList

/-- The values of the formulas offered are determined by the values of the formulas they are made
of. -/
theorem map_value?_formulas (sem : Semantics) (phrase : Option String) (children : List Formula) :
    (sem.formulas phrase children).map Formula.value? =
      sem.values phrase (children.map Formula.value?) := by
  cases sem with
  | constant formula => rfl
  | choice alternatives => rfl
  | identity => cases children <;> rfl
  | call name => simp only [formulas, values, List.map_cons, List.map_nil, Formula.value?_call]
  | number =>
    simp only [formulas, values]
    cases phrase.bind numeral? with
    | none => rfl
    | some n => simp

/-- Only a choice offers more than one formula. -/
theorem length_values_le {sem : Semantics} (h : ∀ alternatives, sem ≠ .choice alternatives)
    (phrase : Option String) (children : List (Option Value)) :
    (sem.values phrase children).length ≤ 1 := by
  cases sem with
  | constant formula => exact Nat.le_refl 1
  | choice alternatives => exact absurd rfl (h alternatives)
  | identity => cases children <;> simp [values]
  | call name => exact Nat.le_refl 1
  | number => cases h : phrase.bind numeral? <;> simp [values, h]

end Semantics

namespace Rule

/-- What a rule makes of children with these senses. -/
def senses (rule : Rule) (phrase : Option String) (children : List Sense) : List Sense :=
  (rule.semantics.values phrase (children.map Sense.value?)).map (.ofValue? rule.id children)

/-- A rule that leaves no choice makes one thing at most of its children. -/
theorem senses_unique {rule : Rule} (h : ∀ alternatives, rule.semantics ≠ .choice alternatives)
    {phrase : Option String} {children : List Sense} {s t : Sense}
    (hs : s ∈ rule.senses phrase children) (ht : t ∈ rule.senses phrase children) : s = t := by
  have hl : (rule.senses phrase children).length ≤ 1 := by
    rw [senses, List.length_map]
    exact Semantics.length_values_le h phrase _
  match hc : rule.senses phrase children with
  | [] => rw [hc] at hs; cases hs
  | [u] =>
    rw [hc, List.mem_singleton] at hs ht
    rw [hs, ht]
  | _ :: _ :: _ => rw [hc] at hl; simp at hl

end Rule

namespace Application

open GuidedChart.Derivation (sense)

variable {application : Application} {tokens : List String}

theorem exists_formula_of_mem {c : Derivation} (h : c ∈ application.candidates tokens) :
    ∃ formula, c = application.derive formula := by
  obtain ⟨formula, -, he⟩ := List.mem_map.1 h
  exact ⟨formula, he.symm⟩

theorem rule_of_mem {c : Derivation} (h : c ∈ application.candidates tokens) :
    c.rule = application.rule := by
  obtain ⟨formula, rfl⟩ := exists_formula_of_mem h
  rfl

theorem span_of_mem {c : Derivation} (h : c ∈ application.candidates tokens) :
    c.span = application.span := by
  obtain ⟨formula, rfl⟩ := exists_formula_of_mem h
  rfl

theorem children_of_mem {c : Derivation} (h : c ∈ application.candidates tokens) :
    c.children = application.children := by
  obtain ⟨formula, rfl⟩ := exists_formula_of_mem h
  rfl

theorem map_formula_candidates (application : Application) (tokens : List String) :
    (application.candidates tokens).map (·.formula) =
      application.rule.semantics.formulas (application.phrase? tokens)
        (application.children.map (·.formula)) := by
  rw [candidates, List.map_map]
  exact List.map_id'' (fun _ => rfl) _

/-- The senses of the candidates are determined by the rule, the phrase and the senses of the
children. -/
theorem map_sense_candidates (application : Application) (tokens : List String) :
    (application.candidates tokens).map sense =
      application.rule.senses (application.phrase? tokens) (application.children.map sense) := by
  have hv : (application.children.map sense).map Sense.value? =
      (application.children.map (·.formula)).map Formula.value? := by
    simp only [List.map_map, Function.comp_def, Derivation.value?_sense]
  have hs : ∀ c ∈ application.candidates tokens, c.sense =
      .ofValue? application.rule.id (application.children.map sense) c.formula.value? := by
    intro c hc
    rw [Derivation.sense_eq, rule_of_mem hc, children_of_mem hc]
  rw [List.map_congr_left hs, Rule.senses, hv, ← Semantics.map_value?_formulas,
    ← map_formula_candidates, List.map_map, List.map_map]
  rfl

/-- Over children of the same senses, each candidate has a counterpart of its sense; and of its
formula too, if the children have the same formulas. -/
theorem exists_candidate_congr {rule : Rule} {span : Span} {ds es : List Derivation}
    (hs : ds.map sense = es.map sense) {c : Derivation}
    (hc : c ∈ (⟨rule, span, ds⟩ : Application).candidates tokens) :
    ∃ c' ∈ (⟨rule, span, es⟩ : Application).candidates tokens, c'.sense = c.sense ∧
      (ds.map (·.formula) = es.map (·.formula) → c'.formula = c.formula) := by
  obtain ⟨i, hi⟩ := List.mem_iff_getElem?.1 hc
  have hsense : ((⟨rule, span, es⟩ : Application).candidates tokens).map sense =
      ((⟨rule, span, ds⟩ : Application).candidates tokens).map sense := by
    rw [map_sense_candidates, map_sense_candidates, hs]
    rfl
  have hat := congrArg (·[i]?) hsense
  simp only [List.getElem?_map, hi, Option.map_some, Option.map_eq_some_iff] at hat
  obtain ⟨c', hi', he⟩ := hat
  refine ⟨c', List.mem_of_getElem? hi', he, fun hf => ?_⟩
  have hformula : ((⟨rule, span, es⟩ : Application).candidates tokens).map (·.formula) =
      ((⟨rule, span, ds⟩ : Application).candidates tokens).map (·.formula) := by
    rw [map_formula_candidates, map_formula_candidates, hf]
    rfl
  have hat := congrArg (·[i]?) hformula
  simpa only [List.getElem?_map, hi, hi', Option.map_some, Option.some.injEq] using hat

end Application

/-! ## Strategies on senses -/

namespace Pruner

/-- Strategies that look at the value treat formulas of the same value alike. -/
theorem discards_congr {pruner : Pruner} (h : ∀ s ∈ pruner, s = .emptyValue) {f g : Formula}
    (hv : f.value? = g.value?) :
    pruner.discards f (some f.execute) = pruner.discards g (some g.execute) := by
  have hs : ∀ s ∈ pruner, s.discards f (some f.execute) = s.discards g (some g.execute) := by
    intro s hs
    rw [h s hs]
    change (f.value?.map Value.isEmptyList).getD false = (g.value?.map Value.isEmptyList).getD false
    rw [hv]
  rw [Bool.eq_iff_iff, discards, discards, List.any_eq_true, List.any_eq_true]
  exact exists_congr fun s => and_congr_right fun hm => by rw [hs s hm]

theorem discards_of_restrict {pruner : Pruner} {only : Option (List String)} {f : Formula}
    {outcome : Option Outcome} (h : (pruner.restrict only).discards f outcome = true) :
    pruner.discards f outcome = true := by
  cases only with
  | none => exact h
  | some names =>
    obtain ⟨s, hs, hd⟩ := List.any_eq_true.1 h
    exact List.any_eq_true.2 ⟨s, (List.mem_filter.1 hs).1, hd⟩

theorem eq_emptyValue_of_mem_restrict {pruner : Pruner} {names : List String}
    (h : ∀ name ∈ names, name = Strategy.emptyValue.name) {s : Strategy}
    (hs : s ∈ pruner.restrict (some names)) : s = .emptyValue := by
  have hn := h s.name (List.contains_iff_mem.1 (List.mem_filter.1 hs).2)
  cases s with
  | emptyValue => rfl
  | duplicateArguments => exact absurd hn (by decide)

end Pruner

end GuidedChart
