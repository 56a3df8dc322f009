import GuidedChart.Parser.Parse
import GuidedChart.Proofs.Construction.Contributions
import GuidedChart.Proofs.Construction.Mirror
import GuidedChart.Proofs.Grammar.Chains

/-!
# Rules that are not useful

A floating rule is left out at depths from which no floating root can be reached any more. Compared
with a pass that applies every floating rule at every depth, such a pass does only those steps whose
target is useful (`Task.plan_admits`). A useful step reads useful cells, so what is left out is
never missed: after every block the two works hold the same in all useful cells
(`Task.mirrors_workAfter`). No cell has more entries than without the bounds, so the ceiling does
not stop the pass where it does not stop the other one (`Task.numEntries_workAfter_le`). The results
are the same (`Parser.sameResults_unbounded`).
-/

namespace GuidedChart

/-! ## Useful cells -/

/-- May the cell matter to a parse? Every anchored cell may, and a floating one if a floating root
can still be reached from it. -/
def Parser.isUseful (parser : Parser) : Cell → Bool
  | .anchored _ _ _ => true
  | .floating category depth => parser.depthBounds.admits category depth

/-- Passes are compared in the useful cells. -/
abbrev Parser.pairing (parser : Parser) : Pairing :=
  .within (parser.isUseful · = true)

/-- What a pass leaves behind that applies every floating rule at every depth. -/
def Task.buildUnbounded (task : Task) (table : MeaningTable) : PassOutput :=
  let work := task.runWith (fun _ _ => true) table none
  ⟨work.chart, work.table, work.report⟩

/-! ## The plan -/

theorem flatMap_filter_rule {rules : List Rule} {steps : Rule → List Step}
    (hs : ∀ rule, ∀ step ∈ steps rule, step.rule = rule) (p : Rule → Bool) :
    (rules.filter p).flatMap steps = (rules.flatMap steps).filter (p ·.rule) := by
  rw [List.filter_flatMap]
  refine (flatMap_eq_flatMap_filter (fun rule _ hp => ?_) fun rule _ hp => ?_).symm
  · exact List.filter_eq_self.2 fun step hm => by rwa [hs rule step hm]
  · exact List.filter_eq_nil_iff.2 fun step hm => by rwa [hs rule step hm]

namespace Grammar

theorem rule_of_mem_pairSteps {bySize : Bool} {below : Nat} {rule : Rule} {step : Step}
    (h : step ∈ pairSteps bySize below rule) : step.rule = rule := by
  unfold pairSteps at h
  split at h
  · obtain ⟨depths, -, rfl⟩ := List.mem_map.1 h
    rfl
  · cases h

/-- The steps of a depth are those of all rules, without the rules that are not useful there. -/
theorem depthSteps_eq_filter (grammar : Grammar) (bySize : Bool) (useful : CategoryId → Nat → Bool)
    (depth : Nat) :
    grammar.depthSteps bySize useful depth =
      (grammar.depthSteps bySize (fun _ _ => true) depth).filter
        (useful ·.rule.lhs.id depth) := by
  have hall : ∀ phase, (grammar.rulesOf phase).filter (fun _ => true) = grammar.rulesOf phase :=
    fun phase => List.filter_eq_self.2 fun _ _ => rfl
  cases depth with
  | zero =>
    simp only [depthSteps, hall, List.filter_map]
    rfl
  | succ below =>
    have hunary : ∀ rule, ∀ step ∈ (unaryStep? below rule).toList, step.rule = rule := by
      intro rule step h
      obtain ⟨child, -, rfl⟩ := Option.map_eq_some_iff.1 (Option.mem_toList.1 h)
      rfl
    simp only [depthSteps_succ, hall, List.filterMap_eq_flatMap_toList, List.filter_append]
    rw [flatMap_filter_rule hunary (useful ·.lhs.id (below + 1)),
      flatMap_filter_rule (fun _ _ => rule_of_mem_pairSteps) (useful ·.lhs.id (below + 1))]

end Grammar

namespace Task

variable {task : Task}

/-- A pass with depth bounds does what is useful of every block, in the same order. -/
theorem plan_admits (task : Task) :
    task.plan task.parser.depthBounds.admits = (task.plan fun _ _ => true).map
      (List.filter (task.parser.isUseful ·.target)) := by
  have hanchored : ∀ steps ∈ task.anchoredSchedule,
      steps.filter (task.parser.isUseful ·.target) = steps := by
    intro steps hsteps
    refine List.filter_eq_self.2 fun step hstep => ?_
    obtain ⟨length, -, rfl⟩ := List.mem_map.1 hsteps
    obtain ⟨start, -, hstep⟩ := List.mem_flatMap.1 hstep
    obtain ⟨within, hspan⟩ := Grammar.exists_spanStep_of_mem hstep
    rw [hspan.target_eq]
    rfl
  have hdepths : ∀ depth, task.depthSteps task.parser.depthBounds.admits depth =
      (task.depthSteps (fun _ _ => true) depth).filter (task.parser.isUseful ·.target) := by
    intro depth
    rw [depthSteps, Grammar.depthSteps_eq_filter]
    refine List.filter_congr fun step hstep => ?_
    rw [(Grammar.depthStep_of_mem hstep).target_eq]
    rfl
  rw [plan, plan, List.map_append, List.map_map, List.map_congr_left hanchored, List.map_id']
  exact congrArg _ (List.map_congr_left fun depth _ => hdepths depth)

/-- The blocks of the anchored cells are the same, whatever is useful at a depth. -/
theorem workAfter_anchored (task : Task) (useful : CategoryId → Nat → Bool) (table : MeaningTable)
    (cancelAt : Option Nat) :
    task.workAfter useful table cancelAt task.anchoredSchedule.length =
      task.anchoredSchedule.foldl task.runBlock (.start table cancelAt) :=
  task.workAfter_add useful table cancelAt (Nat.zero_le _)

/-! ## Works -/

section Works

variable {table : MeaningTable}

/-- A useful step reads useful cells. -/
theorem isUseful_of_mem_sources (hg : task.parser.grammar.Accepted) {steps : List Step}
    (hsteps : steps ∈ task.plan fun _ _ => true) {step : Step} (hstep : step ∈ steps)
    (h : task.parser.isUseful step.target = true) {source : Cell} (hs : source ∈ step.sources) :
    task.parser.isUseful source = true := by
  rcases List.mem_append.1 hsteps with hb | hb
  · obtain ⟨length, -, rfl⟩ := List.mem_map.1 hb
    obtain ⟨start, -, hstep⟩ := List.mem_flatMap.1 hstep
    obtain ⟨within, hspan⟩ := Grammar.exists_spanStep_of_mem hstep
    obtain ⟨category, i, j, rfl, -⟩ := hspan.exists_source hs
    rfl
  · obtain ⟨depth, -, rfl⟩ := List.mem_map.1 hb
    cases Grammar.depthStep_of_mem hstep with
    | nullary => cases hs
    | unary hrule _ hchild =>
      rw [List.mem_singleton.1 hs]
      exact Grammar.admits_child hg (List.mem_append_left _ hrule) (List.mem_of_mem_head? hchild) h
    | @binary rule below left right others depths hrule _ hchildren hdepths =>
      obtain ⟨hleft, hright⟩ := Grammar.lt_of_mem_childDepths hdepths
      have hchild : ∀ child ∈ rule.childCategories,
          task.parser.depthBounds.admits child below = true := fun child hc =>
        Grammar.admits_child hg (List.mem_append_right _ hrule) hc h
      rcases List.mem_pair.1 hs with rfl | rfl
      · exact DepthBounds.admits_of_le (hchild left (by simp [hchildren]))
          (Nat.le_of_lt_succ hleft)
      · exact DepthBounds.admits_of_le (hchild right (by simp [hchildren]))
          (Nat.le_of_lt_succ hright)

/-- What is found for a floating cell is not lifted. -/
theorem eq_target_of_writes {step : Step} {category depth : Nat}
    (htarget : step.target = .floating category depth) {cell : Cell} (hw : task.Writes step cell) :
    cell = step.target := by
  simpa [Writes, htarget, lift?, Cell.isAnchored, Cell.span, Span.isAnchored] using hw

theorem isUseful_target_of_writes {step : Step} {cell : Cell} (hw : task.Writes step cell)
    (h : task.parser.isUseful cell = true) : task.parser.isUseful step.target = true := by
  cases htarget : step.target with
  | anchored => rfl
  | floating category depth => rwa [← htarget, ← eq_target_of_writes htarget hw]

/-- A useful step is done with and without the bounds; any other one files nothing useful. -/
theorem keeps_of_mem_plan (hg : task.parser.grammar.Accepted) {steps : List Step}
    (hsteps : steps ∈ task.plan fun _ _ => true) {step : Step} (hstep : step ∈ steps) :
    task.parser.pairing.Keeps task task step
      (Option.guard (task.parser.isUseful ·.target) step) := by
  by_cases h : task.parser.isUseful step.target = true
  · rw [Option.guard, if_pos h]
    refine .done ⟨rfl, ⟨rfl, h⟩, List.forall₂_same.2 fun source hs =>
      ⟨rfl, isUseful_of_mem_sources hg hsteps hstep h hs⟩, fun ds es hall => ?_⟩
    have heq : ds = es := by
      have hall : List.Forall₂ Eq ds es := hall
      rwa [List.forall₂_eq_eq_eq] at hall
    subst heq
    exact List.forall₂_same.2 fun _ _ => rfl
  · rw [Option.guard, if_neg h]
    exact .leftOut fun x y hx hxy => h (isUseful_target_of_writes hx hxy.2)

/-- After every block, a pass with depth bounds holds the same in all useful cells as one
without. -/
theorem mirrors_workAfter (hg : task.parser.grammar.Accepted)
    (hallows : ∀ i, task.allows i = true) (ht : table.RefersBack) (n : Nat) :
    (task.workAfter (fun _ _ => true) table none n).Mirrors task.parser.pairing
      (task.workAfter task.parser.depthBounds.admits table none n) := by
  have hself : task.Resembles task := ⟨rfl, rfl, hallows, hallows⟩
  have hstart : Work.Mirrors task.parser.pairing (.start table none) (.start table none) :=
    .start _ ht ht
  rw [workAfter, workAfter, plan_admits, ← List.map_take, ← List.filterMap_eq_filter]
  exact (hstart.foldl_runBlock (Work.sound_start ht none) hself fun steps hsteps step hstep =>
    keeps_of_mem_plan hg (List.mem_of_mem_take hsteps) hstep).2

/-- At a depth, only useful cells are filled. -/
theorem isUseful_of_writes_depthSteps {depth : Nat} {step : Step}
    (hstep : step ∈ task.depthSteps task.parser.depthBounds.admits depth) {cell : Cell}
    (hw : task.Writes step cell) : task.parser.isUseful cell = true := by
  have hdepth := Grammar.depthStep_of_mem hstep
  rw [eq_target_of_writes hdepth.target_eq hw]
  cases hdepth with
  | nullary _ huseful => exact huseful
  | unary _ huseful => exact huseful
  | binary _ huseful => exact huseful

/-- No cell has more entries with the bounds than without. -/
theorem length_entries_workAfter_le (hg : task.parser.grammar.Accepted)
    (hallows : ∀ i, task.allows i = true) (ht : table.RefersBack) {n : Nat}
    (hn : task.anchoredSchedule.length ≤ n) (cell : Cell) :
    ((task.workAfter task.parser.depthBounds.admits table none n).chart.entries cell).length ≤
      ((task.workAfter (fun _ _ => true) table none n).chart.entries cell).length := by
  by_cases hcell : task.parser.isUseful cell = true
  · have hmirrors := mirrors_workAfter hg hallows ht n
    exact Nat.le_of_eq (hmirrors.charts.entries ⟨rfl, hcell⟩).length_eq.symm
  · -- a cell that is not useful is only lifted to, which is the same in both passes
    have hlifted : (task.workAfter task.parser.depthBounds.admits table none n).chart.recordsOf
        cell = (task.workAfter task.parser.depthBounds.admits table none
          task.anchoredSchedule.length).chart.recordsOf cell := by
      rw [workAfter_of_le hn]
      refine foldl_runBlock_of_not_writes (wellKept_workAfter _) ?_
        fun steps hsteps step hstep hw => hcell ?_
      · rw [touched_workAfter]
        exact List.not_mem_nil
      · rw [List.drop_take, plan, List.drop_left] at hsteps
        obtain ⟨depth, -, rfl⟩ := List.mem_map.1 (List.mem_of_mem_take hsteps)
        exact isUseful_of_writes_depthSteps hstep hw
    rw [Chart.entries, hlifted, ← Chart.entries, workAfter_anchored,
      ← task.workAfter_anchored fun _ _ => true]
    exact length_entries_le_workAfter hn cell

theorem numEntries_workAfter_le (hg : task.parser.grammar.Accepted)
    (hallows : ∀ i, task.allows i = true) (ht : table.RefersBack) {n : Nat}
    (hn : task.anchoredSchedule.length ≤ n) :
    (task.workAfter task.parser.depthBounds.admits table none n).chart.numEntries ≤
      (task.workAfter (fun _ _ => true) table none n).chart.numEntries :=
  (made_workAfter n).counted.le (made_workAfter n).counted
    (length_entries_workAfter_le hg hallows ht hn)

/-- If the ceiling does not stop a pass without depth bounds, it ends like the one with bounds. -/
theorem exists_mirrors_build (hg : task.parser.grammar.Accepted)
    (hallows : ∀ i, task.allows i = true) (ht : table.RefersBack)
    (hno : (task.buildUnbounded table).report.hitCeiling = false) :
    ∃ v w : Work, v.Mirrors task.parser.pairing w ∧
      (task.buildUnbounded table).chart = v.chart ∧ (task.buildUnbounded table).table = v.table ∧
      (task.build table none).chart = w.chart ∧ (task.build table none).table = w.table := by
  obtain ⟨n, hn⟩ := task.exists_endsAt_run (fun _ _ => true) table none
  obtain ⟨k, hk⟩ := task.exists_endsAt_run task.parser.depthBounds.admits table none
  have hall : n = (task.plan fun _ _ => true).length := hn.eq_length hno
  have hlength : (task.plan task.parser.depthBounds.admits).length =
      (task.plan fun _ _ => true).length := by
    rw [plan_admits, List.length_map]
  have hkn : k = n := by
    rw [hall, ← hlength]
    refine hk.eq_length_of_le fun i hi hlt => ?_
    refine (numEntries_workAfter_le hg hallows ht hi).trans (hn.below i hi ?_)
    rwa [hall, ← hlength]
  subst hkn
  exact ⟨_, _, mirrors_workAfter hg hallows ht k, hn.chart, hn.table_eq, hk.chart, hk.table_eq⟩

end Works

end Task

/-! ## Results -/

/-- Two passes leave the same results behind, each under its own numbers. -/
structure Parser.SameResults (parser : Parser) (numTokens : Nat) (first second : PassOutput) :
    Prop where
  /-- The numbers of one pass are those of the other, renamed. -/
  renamed : Relator.BiUnique (first.table.SameSense second.table)
  floating : ∀ category bound, parser.depthBounds.bound? category = some bound → ∀ depth ≤ bound,
    List.Forall₂ (parser.pairing.Twins first.table second.table)
      (first.chart.entries (.floating category depth))
      (second.chart.entries (.floating category depth))
  anchored : ∀ category start stop,
    List.Forall₂ (parser.pairing.Twins first.table second.table)
      (first.chart.entries (.anchored category start stop))
      (second.chart.entries (.anchored category start stop))
  rootCells : ∀ cell ∈ parser.rootCells numTokens,
    List.Forall₂ (parser.pairing.Twins first.table second.table)
      (first.chart.entries cell) (second.chart.entries cell)
  candidates : parser.rootDerivations first numTokens = parser.rootDerivations second numTokens
  targetRoots : ∀ target, List.Forall₂ (parser.pairing.Key first.table second.table)
    (parser.targetRoots first numTokens target) (parser.targetRoots second numTokens target)

namespace Parser

variable {parser : Parser} {first second : PassOutput}

theorem isUseful_of_mem_rootCells (hg : parser.grammar.Accepted) {numTokens : Nat} {cell : Cell}
    (h : cell ∈ parser.rootCells numTokens) : parser.isUseful cell = true := by
  rcases List.mem_append.1 h with h | h
  · split at h
    · rw [List.mem_singleton.1 h]
      rfl
    · cases h
  · obtain ⟨depth, hd, rfl⟩ := List.mem_map.1 h
    exact Grammar.admits_root hg (Nat.le_of_lt_succ (List.mem_range.1 hd))

/-- Numbers of one sense answer the same targets. -/
theorem answers_eq {t u : MeaningTable} (ht : t.RefersBack) (hu : u.RefersBack) (target : Value)
    {i j : MeaningId} (hij : t.SameSense u i j) : answers t target i = answers u target j := by
  obtain ⟨s, hi, hj⟩ := hij
  have hvalue := MeaningTable.value?_sense? ht i
  have hvalue' := MeaningTable.value?_sense? hu j
  rw [hi] at hvalue
  rw [hj, hvalue] at hvalue'
  unfold answers
  rw [hvalue']

/-- Passes that hold the same in all useful cells have the same results. -/
theorem sameResults_of_charts (hg : parser.grammar.Accepted) (ht : first.table.RefersBack)
    (hu : second.table.RefersBack)
    (h : parser.pairing.Charts first.table second.table first.chart second.chart)
    (numTokens : Nat) : parser.SameResults numTokens first second := by
  have hroots : List.Forall₂ parser.pairing.cell (parser.rootCells numTokens)
      (parser.rootCells numTokens) :=
    List.forall₂_same.2 fun cell hcell => ⟨rfl, isUseful_of_mem_rootCells hg hcell⟩
  refine ⟨MeaningTable.biUnique_sameSense ht hu, fun category bound hb depth hd => ?_,
    fun category start stop => h.entries ⟨rfl, rfl⟩,
    fun cell hcell => h.entries ⟨rfl, isUseful_of_mem_rootCells hg hcell⟩, ?_, fun target => ?_⟩
  · exact h.entries ⟨rfl, DepthBounds.admits_iff.2 ⟨bound, hb, hd⟩⟩
  · have hall : List.Forall₂ Eq (parser.rootDerivations first numTokens)
        (parser.rootDerivations second numTokens) :=
      List.rel_flatMap hroots fun _ _ hcell => h.derivations hcell
    rwa [List.forall₂_eq_eq_eq] at hall
  · refine List.rel_flatMap hroots fun _ _ hcell => ?_
    refine List.rel_filter (fun k l hkl => ?_) (List.rel_map (fun _ _ hrs => hrs.key)
      (h.entries hcell))
    change answers _ _ _ = true ↔ answers _ _ _ = true
    rw [answers_eq ht hu target hkl.2]

end Parser

/-- The depth bounds change no result. In a first pass, or in a second pass that may use everything,
a pass that is not cancelled leaves the same behind as one that applies every floating rule at every
depth, provided that the ceiling does not stop the latter. -/
theorem Parser.sameResults_unbounded {grammar : Grammar} {config : Config} {scorer : Scorer}
    {parser : Parser} (hparser : Parser.ofConfig grammar config scorer = .ok parser)
    (hgrammar : grammar.Accepted) {task : Task} (htask : task.parser = parser)
    (hpass : task.pass = .first ∨ task.allowed = none) {table : MeaningTable}
    (ht : table.RefersBack) (hno : (task.buildUnbounded table).report.hitCeiling = false) :
    parser.SameResults task.tokens.length (task.buildUnbounded table) (task.build table none) := by
  obtain ⟨rfl, -, -⟩ := Parser.eq_of_ofConfig hparser
  subst htask
  have hallows : ∀ i, task.allows i = true := by
    intro i
    rcases hpass with hfirst | hnone
    · simp [Task.allows, hfirst]
    · simp [Task.allows, hnone]
  obtain ⟨v, w, hmirrors, hchart, htable, hchart', htable'⟩ :=
    Task.exists_mirrors_build hgrammar hallows ht hno
  apply sameResults_of_charts hgrammar
  · exact htable ▸ hmirrors.refersBackFirst
  · exact htable' ▸ hmirrors.refersBackSecond
  · rw [hchart, htable, hchart', htable']
    exact hmirrors.charts

/-- Within a depth of one, a term is made a root at once; without the bounds it is negated and
multiplied as well, which leads to no parse. -/
theorem Parser.sameResults_unbounded_terms :
    let parser : Parser := ⟨.terms, { maxDepth := 1 }, [.emptyValue], fun _ => 0.0⟩
    let task : Task := ⟨parser, ["three"], .second, none⟩
    ((task.buildUnbounded .empty).chart.entries (.floating 1 1)).length = 5 ∧
      ((task.build .empty none).chart.entries (.floating 1 1)).length = 0 ∧
      parser.SameResults 1 (task.buildUnbounded .empty) (task.build .empty none) := by
  intro parser task
  have hparser : Parser.ofConfig .terms { maxDepth := 1 } (fun _ => 0.0) = .ok parser := rfl
  have hno : (task.buildUnbounded .empty).report.hitCeiling = false := by decide +kernel
  exact ⟨by decide +kernel, by decide +kernel, Parser.sameResults_unbounded hparser
    Grammar.accepted_terms (rfl : task.parser = parser) (Or.inr rfl)
    MeaningTable.refersBack_empty hno⟩

end GuidedChart
