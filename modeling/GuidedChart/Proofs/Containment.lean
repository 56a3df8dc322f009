import GuidedChart.Proofs.Construction.Order
import GuidedChart.Proofs.Construction.Run
import GuidedChart.Proofs.Nodes
import GuidedChart.Proofs.Parsing

/-!
# What a pass may use, and nothing else

Every way that is recorded in a chart was permitted (`Work.Permitted`), since both gates, the one
before an application and the one before a lift, ask for the very way that is recorded afterwards.
And every node of every derivation was recorded, with the way that led to it, in the cell it was
made for and in the cell it was read from (`Work.Traced`). The records outlast whatever the beam
does to the derivations of those cells. So a second pass that is kept to some ways builds nothing
in any other way, down to the leaves (`Parser.contained`).
-/

namespace GuidedChart

/-! ## Permitted ways -/

/-- Some way led to every record, and every way that is recorded was permitted. -/
structure Work.Permitted (task : Task) (work : Work) : Prop where
  exists_way : ∀ key, work.chart.Holds key → ∃ i, i ∈ work.chart.ingredientsOf key
  allows : ∀ key, ∀ i ∈ work.chart.ingredientsOf key, task.allows i = true

/-- Both gates ask for the way that a finding has. -/
theorem Task.allows_of_mem_findings {task : Task} {step : Step} {work : Work}
    {cs : List (List Child)} {groups : List (List Finding)}
    (h : List.Forall₂ (task.Attempts step work) cs groups) {f : Finding}
    (hf : f ∈ groups.flatten) : task.allows f.ingredient = true := by
  obtain ⟨children, -, single, -, -, g, -, hfinds, hlift⟩ := exists_finds_of_mem h hf
  rcases hlift with rfl | ⟨-, -, hallows⟩
  · have hadmits := hfinds.admits
    rw [Task.admits, Bool.and_eq_true] at hadmits
    rw [hfinds.ingredient]
    exact hadmits.1
  · exact hallows

namespace Work.Permitted

variable {task : Task} {work : Work}

theorem runStep (h : work.Permitted task) (hkeyed : work.chart.Keyed) (step : Step) :
    (task.runStep work step).Permitted task := by
  obtain ⟨groups, hall, hadds⟩ := task.exists_attempts_runStep step hkeyed
  refine ⟨fun key hk => ?_, fun key i hi => ?_⟩
  · rw [hadds.chart, Chart.holds_addAll] at hk
    rw [hadds.chart]
    rcases hk with hk | ⟨f, hf, rfl⟩
    · obtain ⟨i, hi⟩ := h.exists_way key hk
      exact ⟨i, Chart.mem_ingredientsOf_addAll.2 (Or.inl hi)⟩
    · exact ⟨f.ingredient, Chart.mem_ingredientsOf_addAll.2 (Or.inr ⟨f, hf, rfl, rfl⟩)⟩
  · rw [hadds.chart, Chart.mem_ingredientsOf_addAll] at hi
    rcases hi with hi | ⟨f, hf, -, rfl⟩
    · exact h.allows key i hi
    · exact Task.allows_of_mem_findings hall hf

theorem settle (h : work.Permitted task) : (task.settle work).Permitted task := by
  have hs := task.settles_settle work
  refine ⟨fun key hk => ?_, fun key i hi => ?_⟩
  · rw [hs.chart.ingredientsOf]
    exact h.exists_way key ((hs.chart.holds key).1 hk)
  · rw [hs.chart.ingredientsOf] at hi
    exact h.allows key i hi

end Work.Permitted

/-! ## Recorded nodes -/

/-- The node, read from a cell, was filed under its number with this way, both in the cell it was
made for and in the cell it was read from. -/
structure Chart.Files (chart : Chart) (table : MeaningTable) (source : Cell) (node : Derivation)
    (way : Ingredient) : Prop where
  way? : node.way? table = some way
  recorded : ∃ number, node.number? table = some number ∧
    way ∈ chart.ingredientsOf ⟨node.home, number⟩ ∧
    { way with cell := source } ∈ chart.ingredientsOf ⟨source, number⟩

/-- A derivation of a record has the number of the record, was made for its cell or is offered
there, and all its nodes were filed. -/
structure Work.Traced (work : Work) (key : BackPointer) (d : Derivation) : Prop where
  number? : d.number? work.table = some key.meaning
  cell : key.cell = d.home ∨ key.cell = d.home.offered
  files : ∀ source node, d.Node key.cell source node →
    ∃ way, work.chart.Files work.table source node way

/-- All derivations of a work are traced. -/
def Work.Traces (work : Work) : Prop :=
  ∀ key, ∀ d ∈ work.chart.derivationsOf key, work.Traced key d

/-- A step leads to a cell of its rule, and reads cells of the same kind. -/
structure Step.Level (step : Step) : Prop where
  category : step.target.category = step.rule.lhs.id
  sources : ∀ source ∈ step.sources, source.isAnchored = step.target.isAnchored

theorem Task.level_of_mem_plan {task : Task} {useful : CategoryId → Nat → Bool}
    {steps : List Step} (hsteps : steps ∈ task.plan useful) {step : Step} (hstep : step ∈ steps) :
    step.Level := by
  obtain ⟨start, stop, within, -, hspan⟩ | ⟨depth, hdepth⟩ :=
    task.spanStep_or_depthStep_of_mem_plan hsteps hstep
  · refine ⟨by rw [hspan.target_eq]; rfl, fun source hsource => ?_⟩
    obtain ⟨category, i, j, rfl, -⟩ := hspan.exists_source hsource
    rw [hspan.target_eq]
    rfl
  · refine ⟨by rw [hdepth.target_eq]; rfl, fun source hsource => ?_⟩
    obtain ⟨category, d, rfl, -⟩ := hdepth.exists_source hsource
    rw [hdepth.target_eq]
    rfl

theorem Chart.Files.mono {chart larger : Chart} {table later : MeaningTable} {source : Cell}
    {node : Derivation} {way : Ingredient} (h : chart.Files table source node way)
    (hkeys : table.keys.toList <+: later.keys.toList) (hchart : chart.GrowsTo larger) :
    larger.Files later source node way := by
  obtain ⟨hway, number, hnumber, hhome, hsource⟩ := h
  exact ⟨Derivation.way?_of_prefix hkeys hway, number, Derivation.number?_of_prefix hkeys hnumber,
    hchart.ingredients _ hhome, hchart.ingredients _ hsource⟩

namespace Work

variable {work after : Work}

theorem Traced.mono {key : BackPointer} {d : Derivation} (h : work.Traced key d)
    (hkeys : work.table.keys.toList <+: after.table.keys.toList)
    (hchart : work.chart.GrowsTo after.chart) : after.Traced key d := by
  refine ⟨Derivation.number?_of_prefix hkeys h.number?, h.cell, fun source node hnode => ?_⟩
  obtain ⟨way, hfiles⟩ := h.files source node hnode
  exact ⟨way, hfiles.mono hkeys hchart⟩

theorem Traced.category_eq {key : BackPointer} {d : Derivation} (h : work.Traced key d) :
    key.cell.category = d.rule.lhs.id := by
  rcases h.cell with he | he
  · rw [he, Derivation.category_home]
  · rw [he, Cell.category_offered, Derivation.category_home]

/-- A child is read from the cell where the step found it. -/
theorem Traced.readFrom_eq {key : BackPointer} {child d : Derivation} (h : work.Traced key child)
    (hkind : key.cell.isAnchored = d.span.isAnchored) : d.readFrom child = key.cell := by
  unfold Derivation.readFrom
  split
  · rename_i hanchored
    rcases h.cell with he | he
    · exact he.symm
    · rw [hanchored, he, Cell.isAnchored_offered] at hkind
      cases hkind
  · rename_i hfloating
    rcases h.cell with he | he
    · rw [he, Bool.eq_false_of_not_eq_true hfloating] at hkind
      rw [Cell.offered_of_floating hkind, he]
    · exact he.symm

end Work

namespace Task.Finds

variable {task : Task} {step : Step} {children : List Child} {single : Bool} {g : Finding}

theorem home_eq (h : task.Finds step.rule step.target children single g) (hlevel : step.Level) :
    g.derivation.home = g.key.cell := by
  rw [h.cell]
  refine Derivation.home_eq h.span_eq ?_
  rw [h.rule_eq, hlevel.category]

/-- What is found over children that have their numbers has the way and the number it is filed
with. -/
theorem numbered (h : task.Finds step.rule step.target children single g) (hlevel : step.Level)
    {table : MeaningTable} (hkey : table.key? g.key.meaning = some g.means)
    (hc : ∀ child ∈ children, child.derivation.number? table = some child.key.meaning) :
    g.derivation.way? table = some g.ingredient ∧
      g.derivation.number? table = some g.key.meaning := by
  have hnumbers : Derivation.numbers? table g.derivation.children =
      some (children.map (·.key.meaning)) := by
    rw [h.children_eq, Derivation.numbers?_eq_some_iff, List.forall₂_map_left_iff,
      List.forall₂_map_right_iff, List.forall₂_same]
    exact hc
  have hway : g.ingredient = ⟨g.derivation.home, g.derivation.rule.id,
      (children.map (·.key.meaning))[0]?, (children.map (·.key.meaning))[1]?⟩ := by
    rw [h.ingredient, h.home_eq hlevel, h.cell, h.rule_eq]
    simp [Task.ingredient]
  refine ⟨Derivation.way?_eq_some_iff.2 ⟨_, hnumbers, hway⟩, ?_⟩
  refine Derivation.number?_eq_some_iff.2 ⟨_, hnumbers, MeaningTable.id?_eq_some_iff.2 ?_⟩
  rw [hkey, Finding.means, hway]

end Task.Finds

namespace Work

variable {work after : Work}

/-- The children of an application are traced, and its parents read them where it did. -/
theorem Traces.children {task : Task} {step : Step} (h : work.Traces)
    (hkeyed : work.chart.Keyed) (hlevel : step.Level) {children : List Child}
    (hc : children ∈ work.readings step) {single : Bool} {g : Finding}
    (hfinds : task.Finds step.rule step.target children single g) {child : Child}
    (hchild : child ∈ children) :
    work.Traced child.key child.derivation ∧
      g.derivation.readFrom child.derivation = child.key.cell := by
  obtain ⟨cell, hcell, hm⟩ := exists_cell_of_mem_readings hc hchild
  have htraced := h _ _ (mem_derivationsOf_of_mem_children hkeyed hm)
  refine ⟨htraced, htraced.readFrom_eq ?_⟩
  rw [cell_of_mem_children hkeyed hm, hlevel.sources cell hcell, hfinds.span_eq]
  rfl

/-- A finding is traced: its children were, and it is recorded itself where it was found and where
it is lifted to. -/
theorem Traces.traced {task : Task} {step : Step} (h : work.Traces) (hkeyed : work.chart.Keyed)
    (hlevel : step.Level) {children : List Child} (hc : children ∈ work.readings step)
    {retention : Retention} {fs : List Finding} (hadds : work.Adds retention after fs)
    {single : Bool} {f g : Finding} (hf : f ∈ fs) (hg : g ∈ fs)
    (hfinds : task.Finds step.rule step.target children single g)
    (hlift : f = g ∨ g.IsLift f ∧ f.key.cell ∈ task.lift? step.target) :
    after.Traced f.key f.derivation := by
  obtain ⟨hway, hnumber⟩ := hfinds.numbered hlevel (hadds.key? g hg) fun child hchild =>
    Derivation.number?_of_prefix hadds.keys
      (h.children hkeyed hlevel hc hfinds hchild).1.number?
  have hhome := hfinds.home_eq hlevel
  have hrecorded : ∀ e ∈ fs, e.ingredient ∈ after.chart.ingredientsOf e.key := by
    intro e he
    rw [hadds.chart]
    exact Chart.mem_ingredientsOf_addAll.2 (Or.inr ⟨e, he, rfl, rfl⟩)
  have hbelow : ∀ child ∈ g.derivation.children, ∀ source node,
      child.Node (g.derivation.readFrom child) source node →
        ∃ way, after.chart.Files after.table source node way := by
    intro d hd source node hnode
    rw [hfinds.children_eq] at hd
    obtain ⟨child, hchild, rfl⟩ := List.mem_map.1 hd
    obtain ⟨htraced, hread⟩ := h.children hkeyed hlevel hc hfinds hchild
    obtain ⟨way, hfiles⟩ := htraced.files source node (hread ▸ hnode)
    exact ⟨way, hfiles.mono hadds.keys (hadds.chart ▸ Chart.growsTo_addAll _ _ _)⟩
  have hmade : g.ingredient ∈ after.chart.ingredientsOf ⟨g.derivation.home, g.key.meaning⟩ := by
    rw [hhome]
    exact hrecorded g hg
  rcases hlift with rfl | ⟨hl, hcell⟩
  · have hcell : { f.ingredient with cell := f.key.cell } = f.ingredient := by
      rw [hfinds.ingredient, hfinds.cell]
      rfl
    refine ⟨hnumber, Or.inl hhome.symm, fun source node hnode => ?_⟩
    cases hnode with
    | root => exact ⟨f.ingredient, hway, f.key.meaning, hnumber, hmade, hcell ▸ hrecorded f hf⟩
    | child hchild hnode => exact hbelow _ hchild source node hnode
  · obtain ⟨hanchored, -, hfloating⟩ := Task.eq_of_mem_lift? hcell
    rw [← hfinds.cell, ← hhome] at hanchored hfloating
    rw [← Cell.offered_of_anchored hanchored] at hfloating
    have hlifted := hrecorded f hf
    rw [hl.ingredient] at hlifted
    refine ⟨?_, ?_, fun source node hnode => ?_⟩
    · rw [hl.derivation, hl.meaning, hnumber]
    · rw [hl.derivation]
      exact Or.inr hfloating
    · rw [hl.derivation] at hnode
      cases hnode with
      | root => exact ⟨g.ingredient, hway, g.key.meaning, hnumber, hmade, hl.meaning ▸ hlifted⟩
      | child hchild hnode => exact hbelow _ hchild source node hnode

namespace Traces

theorem runStep {task : Task} (h : work.Traces) (hkeyed : work.chart.Keyed) {step : Step}
    (hlevel : step.Level) : (task.runStep work step).Traces := by
  obtain ⟨groups, hall, hadds⟩ := task.exists_attempts_runStep step hkeyed
  intro key d hd
  rw [hadds.chart] at hd
  rcases Chart.mem_derivationsOf_addAll hd with hd | ⟨f, hf, rfl, rfl⟩
  · exact (h key d hd).mono hadds.keys (hadds.chart ▸ Chart.growsTo_addAll _ _ _)
  · obtain ⟨children, hc, single, -, -, g, hg, hfinds, hlift⟩ := Task.exists_finds_of_mem hall hf
    exact h.traced hkeyed hlevel hc hadds hf hg hfinds
      (hlift.imp_right fun hl => ⟨hl.1, hl.2.1⟩)

theorem settle {task : Task} (h : work.Traces) : (task.settle work).Traces := by
  have hs := task.settles_settle work
  intro key d hd
  refine (h key d (hs.chart.derivationsOf hd)).mono ?_ hs.chart.growsTo
  rw [hs.table]

end Traces

end Work

/-! ## Whole passes -/

namespace Task

variable {task : Task} {useful : CategoryId → Nat → Bool} {table : MeaningTable}
  {cancelAt : Option Nat}

theorem permitted_workAfter (n : Nat) :
    (task.workAfter useful table cancelAt n).Permitted task := by
  apply workAfter_induction_of_wellKept
  · intro steps _ step _ w hw hp
    exact hp.runStep hw.keyed step
  · intro w hp
    exact hp.settle
  · refine ⟨fun key hk => ?_, fun key i hi => ?_⟩
    · exact absurd hk (Work.not_holds_start table cancelAt key)
    · cases hi

theorem traces_workAfter (n : Nat) : (task.workAfter useful table cancelAt n).Traces := by
  apply workAfter_induction_of_wellKept
  · intro steps hsteps step hstep w hw ht
    exact ht.runStep hw.keyed (level_of_mem_plan hsteps hstep)
  · intro w ht
    exact ht.settle
  · intro key d hd
    exact absurd hd (Work.not_mem_derivationsOf_start table cancelAt key d)

end Task

/-- Every way that is recorded in a chart is among some ways, and so are the ways that led to the
nodes of its derivations, in the cells they were made for and in those they were read from. -/
structure PassOutput.Contained (output : PassOutput) (allowed : Numbering Ingredient) : Prop where
  ways : ∀ record ∈ output.chart.records, ∀ i ∈ record.ingredients.toList, i ∈ allowed.toList
  nodes : ∀ record ∈ output.chart.records, ∀ d ∈ record.derivations.toList, ∀ source node,
    d.Node record.key.cell source node → ∃ way, output.chart.Files output.table source node way ∧
      way ∈ allowed.toList ∧ { way with cell := source } ∈ allowed.toList

/-- A second pass that is kept to some ways uses nothing else, from whatever table it starts and
whenever it is cancelled. If there are no ways, it builds nothing. -/
theorem Parser.contained (parser : Parser) (ex : Example) (allowed : Numbering Ingredient)
    (table : MeaningTable) (cancelAt : Option Nat) :
    ((parser.secondTask ex (some allowed)).build table cancelAt).Contained allowed ∧
      (allowed.toList = [] →
        ((parser.secondTask ex (some allowed)).build table cancelAt).chart.records = [] ∧
          parser.rootDerivations ((parser.secondTask ex (some allowed)).build table cancelAt)
            ex.tokens.length = []) := by
  let task := parser.secondTask ex (some allowed)
  obtain ⟨n, hn⟩ := task.exists_endsAt_run parser.depthBounds.admits table cancelAt
  let work := task.workAfter parser.depthBounds.admits table cancelAt n
  have hchart : (task.build table cancelAt).chart = work.chart := hn.chart
  have htable : (task.build table cancelAt).table = work.table := hn.table_eq
  have hpermitted : work.Permitted task := Task.permitted_workAfter n
  have hmem : ∀ key, ∀ i ∈ work.chart.ingredientsOf key, i ∈ allowed.toList := fun key i hi =>
    Parser.allows_secondTask.1 (hpermitted.allows key i hi)
  refine ⟨⟨fun record hr i hi => ?_, fun record hr d hd source node hnode => ?_⟩, fun hnone => ?_⟩
  · rw [hchart, Chart.mem_records] at hr
    obtain ⟨key, hl⟩ := hr
    exact hmem key i (by rwa [Chart.ingredientsOf_of_lookup? hl])
  · rw [hchart, Chart.mem_records] at hr
    obtain ⟨key, hl⟩ := hr
    have hkey : record.key = key := (Task.wellKept_workAfter n).keyed key record hl
    rw [← Chart.derivationsOf_of_lookup? hl] at hd
    rw [hkey] at hnode
    obtain ⟨way, hfiles⟩ := (Task.traces_workAfter n key d hd).files source node hnode
    obtain ⟨number, -, hhome, hsource⟩ := hfiles.recorded
    rw [hchart, htable]
    exact ⟨way, hfiles, hmem _ _ hhome, hmem _ _ hsource⟩
  · have hlookup : ∀ key, (task.build table cancelAt).chart.lookup? key = none := by
      intro key
      rw [hchart, Option.eq_none_iff_forall_ne_some]
      intro record hl
      obtain ⟨i, hi⟩ := hpermitted.exists_way key ⟨record, hl⟩
      have hi' := hmem key i hi
      rw [hnone] at hi'
      cases hi'
    refine ⟨List.eq_nil_iff_forall_not_mem.2 fun record hr => ?_,
      List.flatMap_eq_nil_iff.2 fun cell _ => List.eq_nil_iff_forall_not_mem.2 fun d hd => ?_⟩
    · obtain ⟨key, hl⟩ := Chart.mem_records.1 hr
      exact Option.some_ne_none record (hl.symm.trans (hlookup key))
    · obtain ⟨meaning, hd⟩ := Chart.exists_derivationsOf_of_mem_derivations hd
      obtain ⟨record, hl⟩ := Chart.holds_of_mem_derivationsOf hd
      exact Option.some_ne_none record (hl.symm.trans (hlookup _))

/-- Kept to the number and to its sum with itself, the second pass finds the sum, whose summands are
the number as it is offered to floating rules. -/
theorem Parser.contained_arithmetic :
    let allowed := Numbering.ofList [⟨.anchored 0 0 1, 0, none, none⟩,
      ⟨.floating 0 0, 0, none, none⟩, ⟨.floating 1 1, 1, some 0, some 0⟩]
    let output := (Parser.arithmetic.secondTask Example.six (some allowed)).build .empty none
    ∃ record ∈ output.chart.records, ∃ d ∈ record.derivations.toList, ∃ child ∈ d.children,
      ∃ way, output.chart.Files output.table (d.readFrom child) child way ∧
        way ∈ allowed.toList ∧ { way with cell := d.readFrom child } ∈ allowed.toList := by
  intro allowed output
  have hsome : (output.chart.records.flatMap fun record =>
      record.derivations.toList.flatMap (·.children)).isEmpty = false := by decide +kernel
  obtain ⟨child, hmem⟩ := List.exists_mem_of_ne_nil _ (List.isEmpty_eq_false_iff.1 hsome)
  obtain ⟨record, hrecord, hmem⟩ := List.mem_flatMap.1 hmem
  obtain ⟨d, hd, hchild⟩ := List.mem_flatMap.1 hmem
  refine ⟨record, hrecord, d, hd, child, hchild, ?_⟩
  exact (Parser.contained .arithmetic .six allowed .empty none).1.nodes record hrecord d hd _ child
    (.child hchild (.root _ child))

end GuidedChart
