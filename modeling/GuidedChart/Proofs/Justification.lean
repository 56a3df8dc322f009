import GuidedChart.Proofs.Containment
import GuidedChart.Proofs.Provenance

/-!
# Every record is justified

A record is written in two ways, by a rule that was applied and by a lift, and is extended and cut
many times after that. What it says stays true all the while: its ways name its own cell, the keys
it refers to are kept, and each derivation that it holds was executed, has its meaning over the
numbers of its children, and was built from records that it refers to. For a derivation that was
lifted that is the record it came from (`Chart.Backs`). Only the last part is new here
(`Work.Linked`); ways and numbers are those of recorded nodes. Main statement: nothing else is ever
found in a chart, whatever the table a pass starts from and whenever it is cancelled
(`Task.justified_build`).
-/

namespace GuidedChart

/-- A record refers to what a derivation of its key was built from. -/
inductive Chart.Backs (chart : Chart) (table : MeaningTable) (key : BackPointer)
    (d : Derivation) : Prop
  /-- It was made for the cell of the record, over children that have records. -/
  | made (cell : d.home = key.cell)
    (sources : ∀ child ∈ d.children, ∃ number, child.number? table = some number ∧
      chart.Back key ⟨d.readFrom child, number⟩)
  /-- It was made on a span of tokens, and lifted from the record it has there. -/
  | lifted (anchored : d.span.isAnchored = true) (cell : key.cell = d.home.offered)
    (source : chart.Back key ⟨d.home, key.meaning⟩)

theorem Chart.Backs.mono {chart larger : Chart} {table later : MeaningTable} {key : BackPointer}
    {d : Derivation} (h : chart.Backs table key d)
    (hkeys : table.keys.toList <+: later.keys.toList) (hchart : chart.GrowsTo larger) :
    larger.Backs later key d := by
  cases h with
  | made hcell hsources =>
    refine .made hcell fun child hchild => ?_
    obtain ⟨number, hnumber, hback⟩ := hsources child hchild
    exact ⟨number, Derivation.number?_of_prefix hkeys hnumber, hchart.backPointers _ hback⟩
  | lifted hanchored hcell hsource =>
    exact .lifted hanchored hcell (hchart.backPointers _ hsource)

namespace Work

/-- The records of a work name their own cell, refer to records, and refer to what their derivations
were built from. -/
structure Linked (work : Work) : Prop where
  cell : ∀ key, ∀ i ∈ work.chart.ingredientsOf key, i.cell = key.cell
  holds : ∀ key source, work.chart.Back key source → work.chart.Holds source
  backs : ∀ key, ∀ d ∈ work.chart.derivationsOf key, work.chart.Backs work.table key d

variable {task : Task} {step : Step} {work after : Work} {retention : Retention}
  {fs : List Finding}

theorem Adds.back (h : work.Adds retention after fs) {f : Finding} (hf : f ∈ fs)
    {source : BackPointer} (hs : source ∈ f.sources) : after.chart.Back f.key source := by
  rw [Chart.Back, h.chart]
  exact Chart.mem_backPointersOf_addAll.2 (Or.inr ⟨f, hf, rfl, hs⟩)

/-- What is found over traced children refers to their records. -/
theorem Adds.backs_of_finds (hadds : work.Adds retention after fs) (ht : work.Traces)
    (hkeyed : work.chart.Keyed) (hlevel : step.Level) {children : List Child}
    (hc : children ∈ work.readings step) {single : Bool} {g : Finding} (hg : g ∈ fs)
    (hfinds : task.Finds step.rule step.target children single g) :
    after.chart.Backs after.table g.key g.derivation := by
  refine .made (hfinds.home_eq hlevel) fun d hd => ?_
  rw [hfinds.children_eq] at hd
  obtain ⟨child, hchild, rfl⟩ := List.mem_map.1 hd
  obtain ⟨htraced, hread⟩ := ht.children hkeyed hlevel hc hfinds hchild
  have hsource : child.key ∈ g.sources := hfinds.sources ▸ List.mem_map_of_mem hchild
  refine ⟨child.key.meaning, Derivation.number?_of_prefix hadds.keys htraced.number?, ?_⟩
  rw [hread]
  exact hadds.back hg hsource

/-- What is lifted refers to the record it is lifted from. -/
theorem Adds.backs_of_isLift (hadds : work.Adds retention after fs) (hlevel : step.Level)
    {children : List Child} {single : Bool} {f g : Finding} (hf : f ∈ fs)
    (hfinds : task.Finds step.rule step.target children single g) (hl : g.IsLift f)
    (hcell : f.key.cell ∈ task.lift? step.target) :
    after.chart.Backs after.table f.key f.derivation := by
  have hhome : g.derivation.home = step.target := (hfinds.home_eq hlevel).trans hfinds.cell
  obtain ⟨hanchored, -, hfloating⟩ := Task.eq_of_mem_lift? hcell
  have hkey : g.key = ⟨f.derivation.home, f.key.meaning⟩ := by
    rw [hl.derivation, hl.meaning, hhome, ← hfinds.cell]
  refine .lifted ?_ ?_ (hkey ▸ hadds.back hf (hl.sources ▸ List.mem_singleton_self g.key))
  · rw [hl.derivation, hfinds.span_eq]
    exact hanchored
  · rw [hl.derivation, hhome, hfloating, Cell.offered_of_anchored hanchored]

namespace Linked

theorem runStep (h : work.Linked) (ht : work.Traces) (hkeyed : work.chart.Keyed)
    (hlevel : step.Level) : (task.runStep work step).Linked := by
  obtain ⟨groups, hall, hadds⟩ := task.exists_attempts_runStep step hkeyed
  have hgrows : work.chart.GrowsTo (task.runStep work step).chart :=
    hadds.chart ▸ Chart.growsTo_addAll _ _ _
  have hheld : ∀ f ∈ groups.flatten, (task.runStep work step).chart.Holds f.key := fun f hf => by
    rw [hadds.chart]
    exact Chart.holds_addAll.2 (Or.inr ⟨f, hf, rfl⟩)
  refine ⟨fun key i hi => ?_, fun key source hb => ?_, fun key d hd => ?_⟩
  · rw [hadds.chart, Chart.mem_ingredientsOf_addAll] at hi
    rcases hi with hi | ⟨f, hf, rfl, rfl⟩
    · exact h.cell key i hi
    · obtain ⟨children, -, single, -, -, g, -, hfinds, hlift⟩ := Task.exists_finds_of_mem hall hf
      rcases hlift with rfl | ⟨hl, -, -⟩
      · rw [hfinds.ingredient, hfinds.cell]
        rfl
      · rw [hl.ingredient]
  · rw [Chart.Back, hadds.chart, Chart.mem_backPointersOf_addAll] at hb
    rcases hb with hb | ⟨f, hf, rfl, hs⟩
    · exact hgrows.holds _ (h.holds key source hb)
    · obtain ⟨children, hc, single, -, -, g, hg, hfinds, hlift⟩ :=
        Task.exists_finds_of_mem hall hf
      rcases hlift with rfl | ⟨hl, -, -⟩
      · rw [hfinds.sources] at hs
        obtain ⟨child, hchild, rfl⟩ := List.mem_map.1 hs
        obtain ⟨cell, -, hm⟩ := exists_cell_of_mem_readings hc hchild
        exact hgrows.holds _ (Chart.holds_of_mem_derivationsOf
          (mem_derivationsOf_of_mem_children hkeyed hm))
      · rw [hl.sources, List.mem_singleton] at hs
        exact hs ▸ hheld g hg
  · rw [hadds.chart] at hd
    rcases Chart.mem_derivationsOf_addAll hd with hd | ⟨f, hf, rfl, rfl⟩
    · exact (h.backs key d hd).mono hadds.keys hgrows
    · obtain ⟨children, hc, single, -, -, g, hg, hfinds, hlift⟩ :=
        Task.exists_finds_of_mem hall hf
      rcases hlift with rfl | ⟨hl, hcell, -⟩
      · exact hadds.backs_of_finds ht hkeyed hlevel hc hf hfinds
      · exact hadds.backs_of_isLift hlevel hf hfinds hl hcell

/-- A beam takes derivations away and leaves the rest of every record as it is. -/
theorem settle (h : work.Linked) : (task.settle work).Linked := by
  have hs := task.settles_settle work
  refine ⟨fun key i hi => ?_, fun key source hb => ?_, fun key d hd => ?_⟩
  · rw [hs.chart.ingredientsOf] at hi
    exact h.cell key i hi
  · rw [Chart.Back, hs.chart.backPointersOf] at hb
    exact (hs.chart.holds source).2 (h.holds key source hb)
  · rw [hs.table]
    exact (h.backs key d (hs.chart.derivationsOf hd)).mono (List.prefix_refl _) hs.chart.growsTo

end Linked

end Work

theorem Task.linked_workAfter {task : Task} {useful : CategoryId → Nat → Bool}
    {table : MeaningTable} {cancelAt : Option Nat} (n : Nat) :
    (task.workAfter useful table cancelAt n).Linked := by
  have hboth : (task.workAfter useful table cancelAt n).Traces ∧
      (task.workAfter useful table cancelAt n).Linked := by
    apply workAfter_induction_of_wellKept (P := fun w => w.Traces ∧ w.Linked)
    · intro steps hsteps step hstep w hw hboth
      have hlevel := level_of_mem_plan hsteps hstep
      exact ⟨hboth.1.runStep hw.keyed hlevel, hboth.2.runStep hboth.1 hw.keyed hlevel⟩
    · exact fun w hboth => ⟨hboth.1.settle, hboth.2.settle⟩
    · exact ⟨fun key d hd => absurd hd (Work.not_mem_derivationsOf_start table cancelAt key d),
        nofun, nofun, fun key d hd =>
          absurd hd (Work.not_mem_derivationsOf_start table cancelAt key d)⟩
  exact hboth.2

/-! ## Finished charts -/

/-- What vouches for a derivation that a record holds. -/
structure PassOutput.Justifies (output : PassOutput) (record : Record) (d : Derivation) :
    Prop where
  outcome : d.outcome = some d.formula.execute
  /-- Over the numbers of the children, what became of the execution is what the record means, and
  the rule is one of the ways to it. -/
  meaning : ∃ numbers, Derivation.numbers? output.table d.children = some numbers ∧
    output.table.key? record.key.meaning =
      some (.ofOutcome d.formula.execute d.rule.id numbers[0]? numbers[1]?) ∧
    ⟨record.key.cell, d.rule.id, numbers[0]?, numbers[1]?⟩ ∈ record.ingredients.toList
  sources : output.chart.Backs output.table record.key d
  span : d.span = record.key.cell.span ∨
    d.span.isAnchored = true ∧ ∃ category, record.key.cell = .floating category 0

/-- What holds of a record of a chart, whether it may be read or not. -/
structure PassOutput.JustifiesRecord (output : PassOutput) (record : Record) : Prop where
  lookup? : output.chart.lookup? record.key = some record
  exists_way : ∃ i, i ∈ record.ingredients.toList
  cell : ∀ i ∈ record.ingredients.toList, i.cell = record.key.cell
  resolves : ∀ source ∈ record.backPointers.toList, output.chart.Holds source
  derivations : ∀ d ∈ record.derivations.toList, output.Justifies record d

theorem Derivation.span_eq_of_home_eq {d : Derivation} {cell : Cell} (h : d.home = cell) :
    d.span = cell.span := by
  rw [← h, home]
  split <;> assumption

theorem Derivation.isAnchored_home (d : Derivation) : d.home.isAnchored = d.span.isAnchored := by
  rw [Cell.isAnchored, ← span_eq_of_home_eq (d := d) rfl]

/-- Every record of every pass is justified, from whatever table the pass starts, whatever it is
allowed to use and whenever it is cancelled. -/
theorem Task.justified_build (task : Task) (table : MeaningTable) (cancelAt : Option Nat) :
    ∀ record ∈ (task.build table cancelAt).chart.records,
      (task.build table cancelAt).JustifiesRecord record := by
  obtain ⟨n, hn⟩ := task.exists_endsAt_run task.parser.depthBounds.admits table cancelAt
  let work := task.workAfter task.parser.depthBounds.admits table cancelAt n
  have hchart : (task.build table cancelAt).chart = work.chart := hn.chart
  have htable : (task.build table cancelAt).table = work.table := hn.table_eq
  have hkept : work.WellKept := wellKept_workAfter n
  have hpermitted : work.Permitted task := permitted_workAfter n
  have hlinked : work.Linked := linked_workAfter n
  intro record hr
  rw [hchart, Chart.mem_records] at hr
  obtain ⟨key, hl⟩ := hr
  obtain rfl : record.key = key := hkept.keyed key record hl
  have hingredients := Chart.ingredientsOf_of_lookup? hl
  have hsources := Chart.backPointersOf_of_lookup? hl
  refine ⟨hchart ▸ hl, ?_, fun i hi => ?_, fun source hs => ?_, fun d hd => ?_⟩
  · rw [← hingredients]
    exact hpermitted.exists_way record.key ⟨record, hl⟩
  · exact hlinked.cell record.key i (hingredients ▸ hi)
  · rw [hchart]
    exact hlinked.holds record.key source (hsources ▸ hs : source ∈ _)
  rw [← Chart.derivationsOf_of_lookup? hl] at hd
  have htraced : work.Traced record.key d := traces_workAfter n record.key d hd
  have hbacks := hlinked.backs record.key d hd
  refine ⟨hkept.executed record.key d hd, ?_, ?_, ?_⟩
  · obtain ⟨numbers, hnumbers, hid⟩ := Derivation.number?_eq_some_iff.1 htraced.number?
    obtain ⟨way, hway, number, hnumber, -, hmem⟩ := htraced.files _ _ (.root record.key.cell d)
    obtain ⟨numbers', hnumbers', rfl⟩ := Derivation.way?_eq_some_iff.1 hway
    obtain rfl : numbers' = numbers := Option.some.inj (hnumbers'.symm.trans hnumbers)
    obtain rfl : number = record.key.meaning :=
      Option.some.inj (hnumber.symm.trans htraced.number?)
    rw [htable, ← hingredients]
    exact ⟨numbers', hnumbers, MeaningTable.id?_eq_some_iff.1 hid, hmem⟩
  · rw [hchart, htable]
    exact hbacks
  · cases hbacks with
    | made hcell hchildren => exact Or.inl (Derivation.span_eq_of_home_eq hcell)
    | lifted hanchored hcell hsource =>
      refine Or.inr ⟨hanchored, d.home.category, hcell.trans ?_⟩
      exact Cell.offered_of_anchored (d.isAnchored_home.trans hanchored)

/-- The number, which floating rules read from depth zero, refers there to its record on the
tokens. -/
theorem Task.justified_build_arithmetic :
    let output := (Parser.arithmetic.secondTask .six none).build .empty none
    ∃ record ∈ output.chart.records, ∃ d ∈ record.derivations.toList,
      record.key.cell = .floating 0 0 ∧ d.outcome = some (.ok (.number 3)) ∧
        output.chart.Back record.key ⟨d.home, record.key.meaning⟩ := by
  intro output
  have hsome : ((output.chart.records.filter fun record => record.key.cell = .floating 0 0).flatMap
      fun record => record.derivations.toList.filter fun d =>
        d.span.isAnchored ∧ d.formula.execute = .ok (.number 3)).isEmpty = false := by
    decide +kernel
  obtain ⟨d, hmem⟩ := List.exists_mem_of_ne_nil _ (List.isEmpty_eq_false_iff.1 hsome)
  obtain ⟨record, hrecord, hmem⟩ := List.mem_flatMap.1 hmem
  obtain ⟨hrecord, hcell⟩ := List.mem_filter.1 hrecord
  obtain ⟨hd, hthree⟩ := List.mem_filter.1 hmem
  obtain ⟨hanchored, hexecute⟩ := of_decide_eq_true hthree
  have hcell := of_decide_eq_true hcell
  have hjustified := (Task.justified_build (Parser.arithmetic.secondTask .six none) .empty none
    record hrecord).derivations d hd
  refine ⟨record, hrecord, d, hd, hcell, ?_, ?_⟩
  · rw [hjustified.outcome, hexecute]
  · cases hjustified.sources with
    | made hhome =>
      have hspan := Derivation.span_eq_of_home_eq hhome
      rw [hspan, hcell] at hanchored
      cases hanchored
    | lifted _ _ hsource => exact hsource

end GuidedChart
