import GuidedChart.Proofs.Construction.Run

/-!
# Children of one meaning are interchangeable

A chart keeps one record for all derivations of a meaning, and a rule is applied to whichever of
them the record still holds. This is sound because nothing is lost by it: over children of the same
meanings a rule offers as many candidates, and each of them gets the same number
(`Task.intern_candidates_congr`), whatever the formulas of the children were. The derivations that a
pass files in one record are interchangeable in this sense (`Work.Sound.interchangeable`).
-/

namespace GuidedChart

/-! ## Interchangeable children -/

/-- Two executed children of the same meaning: they have the same value, or both of them fail. -/
structure Child.Interchangeable (c d : Child) : Prop where
  meaning : c.key.meaning = d.key.meaning
  executed : c.derivation.outcome = some c.derivation.formula.execute
  executed' : d.derivation.outcome = some d.derivation.formula.execute
  value? : c.derivation.value? = d.derivation.value?

namespace Child.Interchangeable

theorem value?_formula {c d : Child} (h : c.Interchangeable d) :
    c.derivation.formula.value? = d.derivation.formula.value? := by
  have hv := h.value?
  rwa [Derivation.value?, Derivation.value?, h.executed, h.executed'] at hv

variable {cs ds : List Child}

theorem map_meaning (h : List.Forall₂ Child.Interchangeable cs ds) :
    cs.map (·.key.meaning) = ds.map (·.key.meaning) := by
  induction h with
  | nil => rfl
  | cons hc _ ih => rw [List.map_cons, List.map_cons, hc.meaning, ih]

theorem map_value? (h : List.Forall₂ Child.Interchangeable cs ds) :
    (cs.map (·.derivation.formula)).map Formula.value? =
      (ds.map (·.derivation.formula)).map Formula.value? := by
  induction h with
  | nil => rfl
  | cons hc _ ih => rw [List.map_cons, List.map_cons, List.map_cons, List.map_cons, ih,
      hc.value?_formula]

end Child.Interchangeable

/-! ## What a rule makes of them -/

/-- The meaning of a candidate that came about in this way. -/
def Ingredient.meaningOf (ingredient : Ingredient) (candidate : Derivation) : Meaning :=
  .ofOutcome candidate.formula.execute ingredient.rule ingredient.first ingredient.second

/-- How a candidate fails does not matter, only that it does. -/
theorem Meaning.ofOutcome_congr {o p : Outcome} (h : o.value? = p.value?) (rule : RuleId)
    (first second : Option MeaningId) :
    ofOutcome o rule first second = ofOutcome p rule first second := by
  cases o with
  | ok v =>
    cases p with
    | ok w => rw [Option.some.inj h]
    | error e => cases h
  | error e =>
    cases p with
    | ok w => cases h
    | error f => rfl

namespace Task

section Candidates

variable {cs ds : List Child} (h : List.Forall₂ Child.Interchangeable cs ds) (rule : Rule)
  (target : Cell) (tokens : List String)
include h

theorem ingredient_eq_of_interchangeable :
    ingredient rule target cs = ingredient rule target ds := by
  have hchild : ∀ i : Nat, cs[i]?.map (·.key.meaning) = ds[i]?.map (·.key.meaning) := by
    intro i
    rw [← List.getElem?_map, ← List.getElem?_map, Child.Interchangeable.map_meaning h]
  simp only [ingredient, hchild]

/-- The candidates over interchangeable children have the same values, one by one. -/
theorem map_value?_candidates_congr :
    ((application rule target cs).candidates tokens).map (·.formula.value?) =
      ((application rule target ds).candidates tokens).map (·.formula.value?) := by
  have hvalues : ∀ es : List Child,
      ((application rule target es).candidates tokens).map (·.formula.value?) =
        rule.semantics.values ((application rule target []).phrase? tokens)
          ((es.map (·.derivation.formula)).map Formula.value?) := by
    intro es
    rw [← Semantics.map_value?_formulas]
    have hf := (application rule target es).map_formula_candidates tokens
    simp only [application, List.map_map] at hf
    rw [show (fun d : Derivation => d.formula.value?) = Formula.value? ∘ (·.formula) from rfl,
      ← List.map_map]
    exact congrArg (List.map Formula.value?) hf
  rw [hvalues, hvalues, Child.Interchangeable.map_value? h]

/-- Over interchangeable children a rule offers as many candidates, and the candidates in the same
place get the same number, whatever was numbered in the meantime. The number is not a new one the
second time. -/
theorem intern_candidates_congr :
    ((application rule target cs).candidates tokens).length =
        ((application rule target ds).candidates tokens).length ∧
      ∀ (k : Nat) (c d : Derivation),
        ((application rule target cs).candidates tokens)[k]? = some c →
        ((application rule target ds).candidates tokens)[k]? = some d →
        ∀ table later : MeaningTable,
          (table.intern ((ingredient rule target cs).meaningOf c)).1.keys.toList <+:
              later.keys.toList →
          later.intern ((ingredient rule target ds).meaningOf d) =
            (later, (table.intern ((ingredient rule target cs).meaningOf c)).2) := by
  have hvalues := map_value?_candidates_congr h rule target tokens
  refine ⟨by simpa using congrArg List.length hvalues, fun k c d hc hd table later hl => ?_⟩
  have hvalue : c.formula.value? = d.formula.value? := by
    have hk := congrArg (·[k]?) hvalues
    simpa only [List.getElem?_map, hc, hd, Option.map_some, Option.some.injEq] using hk
  have hmeaning : (ingredient rule target ds).meaningOf d =
      (ingredient rule target cs).meaningOf c := by
    rw [← ingredient_eq_of_interchangeable h, Ingredient.meaningOf, Ingredient.meaningOf,
      Meaning.ofOutcome_congr hvalue]
  rw [hmeaning]
  exact MeaningTable.intern_of_prefix hl

end Candidates

end Task

/-! ## The children of a chart -/

/-- The children that a chart offers under one number are interchangeable, whatever their cells. -/
theorem Work.Sound.interchangeable {work : Work} (h : work.Sound) {cell other : Cell}
    {c d : Child} (hc : c ∈ work.children cell) (hd : d ∈ work.children other)
    (hm : c.key.meaning = d.key.meaning) : c.Interchangeable d := by
  have hc' := (mem_derivationsOf_of_mem_children h.keyed hc)
  have hd' := (mem_derivationsOf_of_mem_children h.keyed hd)
  have hsense := h.sense? d.key d.derivation hd'
  rw [← hm, h.sense? c.key c.derivation hc', Option.some.injEq] at hsense
  refine ⟨hm, h.executed c.key _ hc', h.executed d.key _ hd', ?_⟩
  rw [Derivation.value?, Derivation.value?, h.executed c.key _ hc', h.executed d.key _ hd',
    Option.bind_some, Option.bind_some]
  have hvalue := congrArg Sense.value? hsense
  rwa [Derivation.value?_sense, Derivation.value?_sense] at hvalue

/-! ### An example -/

/-- A child with this formula, executed. -/
def Child.ofFormula (key : BackPointer) (rule : Rule) (formula : Formula) : Child :=
  ⟨key, { Derivation.ofFormula rule key.cell.span [] formula with outcome := some formula.execute }⟩

namespace Interchange

def number : Rule :=
  ⟨0, ⟨"$Number", 0⟩, [], true, .number⟩

def pair : Rule :=
  ⟨1, ⟨"$Pair", 1⟩, [.nonterminal number.lhs, .nonterminal number.lhs], true, .call "list"⟩

/-- Two, and a quotient by zero. -/
def children : List Child :=
  [.ofFormula ⟨.floating 0 0, 0⟩ number (.value (.number 2)),
    .ofFormula ⟨.floating 0 1, 1⟩ number (.call "/" [.value (.number 1), .value (.number 0)])]

/-- Two as a sum, and the greatest of no numbers. -/
def otherChildren : List Child :=
  [.ofFormula ⟨.floating 0 3, 0⟩ number (.call "+" [.value (.number 1), .value (.number 1)]),
    .ofFormula ⟨.floating 0 1, 1⟩ number (.call "max" [])]

end Interchange

/-- A pair fails in two ways, and both have one number. -/
theorem Task.intern_candidates_congr_pair :
    List.Forall₂ Child.Interchangeable Interchange.children Interchange.otherChildren ∧
      ∃ c d : Derivation, c.formula ≠ d.formula ∧ c.formula.execute ≠ d.formula.execute ∧
        ∀ table later : MeaningTable,
          (table.intern ((ingredient Interchange.pair (.floating 1 2)
            Interchange.children).meaningOf c)).1.keys.toList <+: later.keys.toList →
          later.intern ((ingredient Interchange.pair (.floating 1 2)
              Interchange.otherChildren).meaningOf d) =
            (later, (table.intern ((ingredient Interchange.pair (.floating 1 2)
              Interchange.children).meaningOf c)).2) := by
  have h : List.Forall₂ Child.Interchangeable Interchange.children Interchange.otherChildren :=
    .cons ⟨rfl, rfl, rfl, by decide +kernel⟩ (.cons ⟨rfl, rfl, rfl, by decide +kernel⟩ .nil)
  exact ⟨h, _, _, by decide +kernel, by decide +kernel,
    (intern_candidates_congr h Interchange.pair (.floating 1 2) []).2 0 _ _ rfl rfl⟩

end GuidedChart
