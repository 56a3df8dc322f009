import GuidedChart.Parser.Parse
import GuidedChart.Proofs.Construction.Acyclic

/-!
# How the passes of a request hang together

A request never fails on a grammar that was accepted (`Parser.exists_parseWith_eq_ok`), because no
pass builds a result from itself (`Parser.acyclic`): the search for the origin of the target always
ends (`Parser.exists_lookForTarget`). What the second pass is kept to is the provenance of the root
entries that answer the target, or nothing if the first pass was lost.
-/

namespace GuidedChart

/-- The outcome of a derivation that was executed and whose sense is a value. -/
theorem Derivation.outcome_of_value?_sense {d : Derivation} {v : Value}
    (hx : d.outcome = some d.formula.execute) (hv : d.sense.value? = some v) :
    d.outcome = some (.ok v) := by
  rw [value?_sense, Formula.value?] at hv
  rw [hx]
  cases he : d.formula.execute with
  | ok w =>
    rw [he] at hv
    cases hv
    rfl
  | error e =>
    rw [he] at hv
    cases hv

def Parser.firstTask (parser : Parser) (ex : Example) : Task :=
  ⟨parser, ex.tokens, .first, none⟩

def Parser.secondTask (parser : Parser) (ex : Example) (allowed : Option (Numbering Ingredient)) :
    Task :=
  ⟨parser, ex.tokens, .second, allowed⟩

/-- A second pass that is kept to some ingredients may use those and no others. -/
theorem Parser.allows_secondTask {parser : Parser} {ex : Example} {allowed : Numbering Ingredient}
    {i : Ingredient} : (parser.secondTask ex (some allowed)).allows i = true ↔ i ∈ allowed.toList :=
  Numbering.contains_iff_mem

def Fate.cancelAt? : Fate → Option Nat
  | .cutShort time => some time
  | .inTime | .lost => none

/-- A pass that is not lost leaves the chart and the table that it built. -/
theorem Task.runTo_of_ne_lost (task : Task) {fate : Fate} (h : fate ≠ .lost)
    (table : MeaningTable) :
    ∃ report, task.runTo fate table =
      (some { task.build table fate.cancelAt? with report }, report) := by
  cases fate with
  | inTime => exact ⟨_, rfl⟩
  | cutShort time => exact ⟨_, rfl⟩
  | lost => exact absurd rfl h

namespace Parser

variable {parser : Parser} {ex : Example} {target : Value}

/-- What the first pass finds out about a target, when it is not lost. -/
structure Guides (parser : Parser) (ex : Example) (target : Value) (cancelAt : Option Nat)
    (guidance : Guidance) : Prop where
  table : guidance.table = ((parser.firstTask ex).build .empty cancelAt).table
  allowed : ∀ i, i ∈ guidance.allowed.toList ↔
    ∃ key, ((parser.firstTask ex).build .empty cancelAt).chart.Behind
      (parser.targetRoots ((parser.firstTask ex).build .empty cancelAt) ex.tokens.length target)
        key ∧ i ∈ ((parser.firstTask ex).build .empty cancelAt).chart.ingredientsOf key
  hitCeiling : guidance.report.hitCeiling =
    ((parser.firstTask ex).build .empty cancelAt).report.hitCeiling

theorem lookForTarget_of_provenance {fate : Fate} (hfate : fate ≠ .lost)
    {allowed : Numbering Ingredient}
    (h : ((parser.firstTask ex).build .empty fate.cancelAt?).chart.provenance
      (parser.targetRoots ((parser.firstTask ex).build .empty fate.cancelAt?) ex.tokens.length
        target) = .ok allowed) :
    ∃ roots report, parser.lookForTarget ex target fate =
        .ok ⟨((parser.firstTask ex).build .empty fate.cancelAt?).table, allowed, roots, report⟩ ∧
      report.hitCeiling =
        ((parser.firstTask ex).build .empty fate.cancelAt?).report.hitCeiling := by
  cases fate with
  | lost => exact absurd rfl hfate
  | inTime =>
    simp only [firstTask, Fate.cancelAt?] at h ⊢
    simp only [lookForTarget, Task.runTo, h, Except.mapError]
    exact ⟨_, _, rfl, rfl⟩
  | cutShort time =>
    simp only [firstTask, Fate.cancelAt?] at h ⊢
    have h' := h
    rw [targetRoots] at h'
    simp only [lookForTarget, Task.runTo, targetRoots, h', Except.mapError]
    exact ⟨_, _, rfl, rfl⟩

theorem exists_lookForTarget (h : parser.grammar.Accepted) (ex : Example) (target : Value)
    (fate : Fate) :
    ∃ guidance, parser.lookForTarget ex target fate = .ok guidance ∧
      (fate = .lost ∧ guidance.table = .empty ∧ guidance.allowed = .empty ∨
        fate ≠ .lost ∧ parser.Guides ex target fate.cancelAt? guidance) := by
  by_cases hfate : fate = .lost
  · subst hfate
    exact ⟨⟨.empty, .empty, 0, _⟩, rfl, Or.inl ⟨rfl, rfl, rfl⟩⟩
  · obtain ⟨allowed, hok, hmem⟩ := (parser.firstTask ex).exists_provenance
      parser.depthBounds.admits fate.cancelAt? h MeaningTable.refersBack_empty
      (parser.targetRoots ((parser.firstTask ex).build .empty fate.cancelAt?) ex.tokens.length
        target)
    obtain ⟨roots, report, hlook, hreport⟩ := lookForTarget_of_provenance hfate hok
    exact ⟨_, hlook, Or.inr ⟨hfate, rfl, hmem, hreport⟩⟩

theorem guidance?_of_runsFirst {expectedCounts : Bool} (ht : ex.target = some target)
    (hruns : parser.runsFirst ex expectedCounts = true) (fate : Fate) :
    parser.guidance? ex expectedCounts fate = (parser.lookForTarget ex target fate).map some := by
  simp only [guidance?, ht, hruns, if_true]

theorem guidance?_of_not_runsFirst {expectedCounts : Bool}
    (hruns : parser.runsFirst ex expectedCounts = false) (fate : Fate) :
    parser.guidance? ex expectedCounts fate = .ok none := by
  unfold guidance?
  split
  · rw [hruns]
    rfl
  · rfl

/-! ## Root entries -/

theorem category_of_mem_rootCells {numTokens : Nat} {cell : Cell}
    (h : cell ∈ parser.rootCells numTokens) : cell.category = parser.grammar.root := by
  rcases List.mem_append.1 h with h | h
  · split at h
    · rw [List.mem_singleton.1 h]
      rfl
    · cases h
  · obtain ⟨depth, -, rfl⟩ := List.mem_map.1 h
    rfl

theorem exists_answer_of_mem_targetRoots {output : PassOutput} (h : output.table.RefersBack)
    {numTokens : Nat} {target : Value} {key : BackPointer}
    (hk : key ∈ parser.targetRoots output numTokens target) :
    ∃ v, (output.table.sense? key.meaning).bind Sense.value? = some v ∧ target.Answers v := by
  obtain ⟨cell, -, hk⟩ := List.mem_flatMap.1 hk
  have hanswers := (List.mem_filter.1 hk).2
  rw [MeaningTable.value?_sense? h]
  unfold answers at hanswers
  split at hanswers
  · rename_i v hv
    exact ⟨v, hv, of_decide_eq_true hanswers⟩
  · cases hanswers

/-! ## The candidates of a request -/

/-- Without backoff, the candidates of a request are what its second pass leaves in root cells. -/
theorem exists_parseWith (hbackoff : parser.config.backoff = false) {fates : Fates}
    {expectedCounts : Bool} {guidance? : Option Guidance}
    (hg : parser.guidance? ex expectedCounts fates.first = .ok guidance?) :
    ∃ result, parser.parseWith fates ex expectedCounts = .ok result ∧
      result.candidates = parser.candidatesOf
        ((parser.secondTask ex (guidance?.map (·.allowed))).runTo fates.second
          ((guidance?.map (·.table)).getD .empty)).1 ex ∧
      result.report.first = guidance?.map (·.report) ∧
      result.report.second = ((parser.secondTask ex (guidance?.map (·.allowed))).runTo fates.second
        ((guidance?.map (·.table)).getD .empty)).2 := by
  simp only [parseWith, hg, hbackoff]
  exact ⟨_, rfl, rfl, rfl, rfl⟩

/-- Over a grammar that was accepted, a request gets an answer. -/
theorem exists_parseWith_eq_ok (h : parser.grammar.Accepted) (ex : Example) (fates : Fates)
    (expectedCounts : Bool) : ∃ result, parser.parseWith fates ex expectedCounts = .ok result := by
  have hguidance : ∃ guidance?, parser.guidance? ex expectedCounts fates.first = .ok guidance? := by
    cases hruns : parser.runsFirst ex expectedCounts with
    | false => exact ⟨none, guidance?_of_not_runsFirst hruns fates.first⟩
    | true =>
      cases ht : ex.target with
      | none => exact ⟨none, by simp only [guidance?, ht]⟩
      | some target =>
        obtain ⟨guidance, hlook, -⟩ := exists_lookForTarget h ex target fates.first
        refine ⟨some guidance, ?_⟩
        rw [guidance?_of_runsFirst ht hruns, hlook]
        rfl
  obtain ⟨guidance?, hg⟩ := hguidance
  simp only [parseWith, hg]
  exact ⟨_, rfl⟩

/-! ## No circles -/

open Relation (TransGen)

/-- Over a grammar that was accepted, no pass builds a result from itself, whatever it is kept to,
whatever meanings are numbered already and whenever it is cancelled. So any roots have a provenance
in its chart, and no request fails because of a circle. -/
theorem acyclic (h : parser.grammar.Accepted) (ex : Example) :
    (∀ (pass : Pass) (allowed : Option (Numbering Ingredient)) (table : MeaningTable)
        (cancelAt : Option Nat),
      let chart := ((⟨parser, ex.tokens, pass, allowed⟩ : Task).build table cancelAt).chart
      (∀ key, ¬ TransGen chart.Back key key) ∧
        ∀ roots, ∃ provenance, chart.provenance roots = .ok provenance) ∧
    ∀ (fates : Fates) (expectedCounts : Bool) (cell : Cell) (meaning : MeaningId),
      parser.parseWith fates ex expectedCounts ≠ .error (.provenanceCycle cell meaning) := by
  constructor
  · intro pass allowed table cancelAt chart
    have hacyclic : ∀ key, ¬ TransGen chart.Back key key :=
      Task.not_transGen_back _ parser.depthBounds.admits table cancelAt h
    refine ⟨hacyclic, fun roots => ?_⟩
    obtain ⟨provenance, hok, -⟩ := Chart.exists_provenance
      (Task.sized_run ⟨parser, ex.tokens, pass, allowed⟩ parser.depthBounds.admits table cancelAt)
      hacyclic roots
    exact ⟨provenance, hok⟩
  · intro fates expectedCounts cell meaning he
    obtain ⟨result, hok⟩ := exists_parseWith_eq_ok h ex fates expectedCounts
    rw [hok] at he
    cases he

/-- Terms are built from terms, and yet no term from itself. -/
theorem acyclic_terms :
    (∀ key, ¬ TransGen
      ((Parser.terms.firstTask .difference).build .empty (some 5)).chart.Back key key) ∧
    Parser.terms.parse .difference true ≠ .error (.provenanceCycle (.floating 1 1) 0) := by
  have haccepted : Parser.terms.grammar.Accepted := Grammar.accepted_terms
  have hacyclic := acyclic haccepted .difference
  exact ⟨(hacyclic.1 .first none .empty (some 5)).1, hacyclic.2 {} true (.floating 1 1) 0⟩

end Parser

end GuidedChart
