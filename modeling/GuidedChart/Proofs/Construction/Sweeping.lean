import GuidedChart.Proofs.Construction.Settling

/-!
# Cells in any order

At the end of a block the beam goes over the cells that were added to since the last time. In which
order it comes to them is left to the table they are kept in, so any order is allowed for here
(`Task.MaySettle`), every time anew, throughout a pass (`Task.MayBuild`).

What the beam does to one cell neither shows in another cell nor in what is counted there, so two
cells may change places (`Task.cut_comm`). Hence a pass can leave nothing behind but what
`Task.build` gives (`Task.mayBuild_iff`).
-/

namespace GuidedChart

/-! ## Two cells -/

theorem Catalog.modify_comm {κ β : Type} [Coded κ] (catalog : Catalog κ β) {key other : κ}
    (hne : key ≠ other) (f g : β → β) :
    (catalog.modify key f).modify other g = (catalog.modify other g).modify key f := by
  have hplaces : ∀ i j, catalog.keys.number? key = some i →
      catalog.keys.number? other = some j → i ≠ j := fun _ _ => number?_ne_of_ne hne
  obtain ⟨keys, contents, hsize⟩ := catalog
  unfold modify
  cases hi : keys.number? key with
  | none => cases keys.number? other <;> simp [hi]
  | some i =>
    cases hj : keys.number? other with
    | none => simp [hi]
    | some j =>
      have hij := hplaces i j hi hj
      simp only [hi, mk.injEq, true_and]
      refine Array.ext_getElem? fun n => ?_
      simp only [Array.getElem?_modify]
      by_cases hin : i = n
      · subst hin
        simp [Ne.symm hij]
      · simp [hin]

namespace Chart

variable (chart : Chart) {cell other : Cell} (h : cell ≠ other) (k : Nat)
include h

theorem numHidden_truncate :
    (chart.truncate cell k).numHidden other k = chart.numHidden other k := by
  rw [numHidden, length_entries_truncate, if_neg h, numHidden]

theorem numDropped_keepBest :
    (chart.keepBest cell k).numDropped other k = chart.numDropped other k := by
  rw [numDropped, entries, recordsOf_keepBest, if_neg h, numDropped, entries]

theorem truncate_comm :
    (chart.truncate cell k).truncate other k = (chart.truncate other k).truncate cell k := by
  have hnum :
      chart.numEntries - chart.numHidden cell k - (chart.truncate cell k).numHidden other k =
        chart.numEntries - chart.numHidden other k - (chart.truncate other k).numHidden cell k := by
    rw [numHidden_truncate chart h, numHidden_truncate chart h.symm, Nat.sub_right_comm]
  exact (mk.injEq ..).mpr ⟨Catalog.modify_comm _ h _ _, rfl, hnum⟩

theorem keepBest_comm :
    (chart.keepBest cell k).keepBest other k = (chart.keepBest other k).keepBest cell k := by
  simp only [keepBest, Catalog.modify_comm _ h]

end Chart

/-- The work with the whole chart counted. -/
def Work.tally (work : Work) : Work :=
  let entries := work.chart.records.filter (!·.hidden)
  work.count fun report =>
    { report with
      cells := work.chart.cells.length
      entries := entries.length
      failures := entries.countP (work.table.isFailure ·.key.meaning)
      derivations := (entries.flatMap (·.derivations.toList)).length }

namespace Task

variable (task : Task)

/-- Two cells may be cut in either order. -/
theorem cut_comm (work : Work) (cell other : Cell) :
    task.cut (task.cut work cell) other = task.cut (task.cut work other) cell := by
  by_cases h : cell = other
  · rw [h]
  unfold cut
  by_cases hp : task.pass = .first
  · simp only [if_pos hp]
    cases task.parser.config.firstPassBeam with
    | none => rfl
    | some k =>
      simp only [Work.count, work.chart.numHidden_truncate h, work.chart.truncate_comm h,
        work.chart.numHidden_truncate (Ne.symm h),
        Nat.add_right_comm _ (work.chart.numHidden cell k)]
  · simp only [if_neg hp, Work.count, work.chart.numDropped_keepBest h,
      work.chart.numDropped_keepBest (Ne.symm h), work.chart.keepBest_comm h,
      Nat.add_right_comm _ (work.chart.numDropped cell _)]

/-! ## Any order -/

/-- The end of a block, with the cells in some order. -/
def MaySettle (work after : Work) : Prop :=
  ∃ cells : List Cell, cells.Perm work.touched.toList ∧
    after = { cells.foldl task.cut work with touched := .empty }

/-- Several blocks, with the cells in some order after each. -/
inductive MayRunBlocks : List (List Step) → Work → Work → Prop
  | nil (work : Work) : MayRunBlocks [] work work
  | cons {steps : List Step} {blocks : List (List Step)} {work between after : Work} :
    task.MaySettle (steps.foldl task.runStep work) between → MayRunBlocks blocks between after →
    MayRunBlocks (steps :: blocks) work after

/-- The blocks of so many depths, with the cells in some order after each. -/
inductive MayRunDepths (useful : CategoryId → Nat → Bool) : Nat → Nat → Work → Work → Prop
  | zero (depth : Nat) (work : Work) : MayRunDepths useful 0 depth work work
  | ceiling {work : Work} (count depth : Nat) :
    task.parser.config.chartCeiling < work.chart.numEntries →
    MayRunDepths useful (count + 1) depth work
      (work.count fun report => { report with hitCeiling := true })
  | depth {count depth : Nat} {work between after : Work} :
    work.chart.numEntries ≤ task.parser.config.chartCeiling →
    task.MaySettle ((task.depthSteps useful depth).foldl task.runStep work) between →
    MayRunDepths useful count (depth + 1) between after →
    MayRunDepths useful (count + 1) depth work after

/-- A whole pass, with the cells in some order whenever the beam is applied. -/
inductive MayBuild (table : MeaningTable) (cancelAt : Option Nat) : PassOutput → Prop
  | intro {anchored deep settled : Work} :
    task.MayRunBlocks task.anchoredSchedule (.start table cancelAt) anchored →
    task.MayRunDepths task.parser.depthBounds.admits (task.parser.config.maxDepth + 1) 0 anchored
      deep →
    task.MaySettle deep settled →
    MayBuild table cancelAt
      ⟨settled.tally.chart, settled.tally.table, settled.tally.report⟩

/-! ## One result -/

variable {task}

theorem maySettle_iff {work after : Work} :
    task.MaySettle work after ↔ after = task.settle work := by
  constructor
  · rintro ⟨cells, hperm, rfl⟩
    rw [settle, hperm.foldl_eq' fun cell _ other _ work => task.cut_comm work cell other]
  · rintro rfl
    exact ⟨_, .refl _, rfl⟩

theorem mayRunBlocks_iff {blocks : List (List Step)} {work after : Work} :
    task.MayRunBlocks blocks work after ↔ after = blocks.foldl task.runBlock work := by
  constructor
  · intro h
    induction h with
    | nil work => rfl
    | cons hs _ ih => rw [ih, maySettle_iff.1 hs, List.foldl_cons, runBlock]
  · rintro rfl
    induction blocks generalizing work with
    | nil => exact .nil work
    | cons steps blocks ih => exact .cons (maySettle_iff.2 rfl) ih

theorem mayRunDepths_iff {useful : CategoryId → Nat → Bool} {count depth : Nat}
    {work after : Work} :
    task.MayRunDepths useful count depth work after ↔
      after = task.runDepths useful count depth work := by
  constructor
  · intro h
    induction h with
    | zero depth work => rfl
    | ceiling count depth hc => rw [runDepths, if_pos hc]
    | depth hc hs _ ih => rw [ih, maySettle_iff.1 hs, runDepths, if_neg (Nat.not_lt.2 hc), runBlock]
  · rintro rfl
    induction count generalizing depth work with
    | zero => exact .zero depth work
    | succ count ih =>
      by_cases hc : task.parser.config.chartCeiling < work.chart.numEntries
      · rw [runDepths, if_pos hc]
        exact .ceiling count depth hc
      · rw [runDepths, if_neg hc]
        exact .depth (Nat.not_lt.1 hc) (maySettle_iff.2 rfl) ih

/-- In whatever order the beam comes to the cells, a pass leaves the same behind. -/
theorem mayBuild_iff {table : MeaningTable} {cancelAt : Option Nat} {output : PassOutput} :
    task.MayBuild table cancelAt output ↔ output = task.build table cancelAt := by
  constructor
  · rintro ⟨ha, hd, hs⟩
    rw [maySettle_iff.1 hs, mayRunDepths_iff.1 hd, mayRunBlocks_iff.1 ha]
    rfl
  · rintro rfl
    exact .intro (mayRunBlocks_iff.2 rfl) (mayRunDepths_iff.2 rfl) (maySettle_iff.2 rfl)

end Task

end GuidedChart
