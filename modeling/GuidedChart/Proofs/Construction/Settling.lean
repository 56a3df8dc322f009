import GuidedChart.Proofs.Chart.Counting
import GuidedChart.Proofs.Construction.Run

/-!
# What a beam does to a cell

The beam of a pass acts on the records of one cell at a time (`Task.prune`), and to apply it twice
is to apply it once (`Task.prune_prune`). So the end of a block prunes the cells that were added to
and no other (`Task.recordsOf_settle`), and whatever cell has not been added to since then is as the
beam leaves it (`Work.Tidy`). From one block to the next, no cell has fewer entries than before
(`Task.length_entries_le_workAfter`).
-/

namespace GuidedChart

namespace Task

variable (task : Task)

/-- What the beam of a pass makes of the records of a cell. -/
def prune (records : List Record) : List Record :=
  if task.pass = .first then
    match task.parser.config.firstPassBeam with
    | some k => Record.hideBeyond k records
    | none => records
  else records.map (Record.keepBest task.parser.config.beamSize)

@[simp]
theorem prune_nil : task.prune [] = [] := by
  unfold prune
  split
  · cases task.parser.config.firstPassBeam <;> rfl
  · rfl

@[simp]
theorem prune_prune (records : List Record) :
    task.prune (task.prune records) = task.prune records := by
  unfold prune
  split
  · cases task.parser.config.firstPassBeam with
    | some k => simp
    | none => rfl
  · simp [Function.comp_def]

theorem recordsOf_cut (work : Work) (cell other : Cell) :
    (task.cut work cell).chart.recordsOf other =
      if cell = other then task.prune (work.chart.recordsOf other)
      else work.chart.recordsOf other := by
  unfold cut prune
  by_cases hp : task.pass = .first
  · rw [if_pos hp, if_pos hp]
    cases task.parser.config.firstPassBeam with
    | some k => exact Chart.recordsOf_truncate work.chart cell other k
    | none => simp
  · rw [if_neg hp, if_neg hp]
    exact Chart.recordsOf_keepBest work.chart cell other task.parser.config.beamSize

theorem recordsOf_foldl_cut (cells : List Cell) (work : Work) (cell : Cell) :
    (cells.foldl task.cut work).chart.recordsOf cell =
      if cell ∈ cells then task.prune (work.chart.recordsOf cell)
      else work.chart.recordsOf cell := by
  induction cells generalizing work with
  | nil => simp
  | cons other cells ih =>
    rw [List.foldl_cons, ih, recordsOf_cut]
    by_cases ho : other = cell
    · subst ho
      simp
    · simp [ho, Ne.symm ho]

/-- The end of a block prunes the cells that were added to. -/
theorem recordsOf_settle (work : Work) (cell : Cell) :
    (task.settle work).chart.recordsOf cell =
      if cell ∈ work.touched.toList then task.prune (work.chart.recordsOf cell)
      else work.chart.recordsOf cell :=
  task.recordsOf_foldl_cut work.touched.toList work cell

end Task

/-- The beam has nothing left to do in a cell. -/
def Work.Pruned (task : Task) (work : Work) (cell : Cell) : Prop :=
  task.prune (work.chart.recordsOf cell) = work.chart.recordsOf cell

/-- The beam has nothing left to do in the cells that were not added to since it was applied. -/
def Work.Tidy (task : Task) (work : Work) : Prop :=
  ∀ cell, cell ∉ work.touched.toList → work.Pruned task cell

namespace Work

variable {task : Task} {work : Work}

/-- Where nothing was found, nothing has changed. -/
theorem Adds.recordsOf_eq {retention : Retention} {after : Work} {fs : List Finding}
    (h : work.Adds retention after fs) {cell : Cell} (hc : ∀ f ∈ fs, f.key.cell ≠ cell) :
    after.chart.recordsOf cell = work.chart.recordsOf cell := by
  rw [h.chart]
  exact Chart.recordsOf_addAll_of_ne hc

theorem tidy_start (task : Task) (table : MeaningTable) (cancelAt : Option Nat) :
    (start table cancelAt).Tidy task := by
  intro cell _
  exact task.prune_nil

theorem Tidy.runStep (h : work.Tidy task) (hkeyed : work.chart.Keyed) (step : Step) :
    (task.runStep work step).Tidy task := by
  obtain ⟨groups, -, hadds⟩ := task.exists_attempts_runStep step hkeyed
  intro cell hcell
  rw [hadds.touched, not_or, not_exists] at hcell
  have hsame : (task.runStep work step).chart.recordsOf cell = work.chart.recordsOf cell :=
    hadds.recordsOf_eq fun f hf he => hcell.2 f ⟨hf, he⟩
  rw [Pruned, hsame]
  exact h cell hcell.1

theorem Tidy.settle (h : work.Tidy task) : (task.settle work).Tidy task := by
  intro cell _
  rw [Pruned, Task.recordsOf_settle]
  split
  · exact task.prune_prune _
  · rename_i hcell
    exact h cell hcell

end Work

namespace Task

variable {task : Task} {useful : CategoryId → Nat → Bool} {table : MeaningTable}
  {cancelAt : Option Nat}

/-- After some blocks everything is as the beam leaves it. -/
theorem tidy_workAfter (n : Nat) : (task.workAfter useful table cancelAt n).Tidy task :=
  workAfter_induction_of_wellKept (fun _ _ step _ _ hw ht => ht.runStep hw.keyed step)
    (fun _ ht => ht.settle) (Work.tidy_start task table cancelAt) n

theorem touched_workAfter (n : Nat) :
    (task.workAfter useful table cancelAt n).touched.toList = [] :=
  task.touched_foldl_runBlock _ rfl

/-! ## The number of entries -/

/-- A cell that the beam has nothing left to do in, and that has more entries by now, has as many
left after the beam. -/
theorem length_filter_prune_le (task : Task) {pruned records : List Record}
    (h : task.prune pruned = pruned)
    (hle : (pruned.filter (!·.hidden)).length ≤ (records.filter (!·.hidden)).length) :
    (pruned.filter (!·.hidden)).length ≤ ((task.prune records).filter (!·.hidden)).length := by
  have hpruned := congrArg (fun rs : List Record => (rs.filter (!·.hidden)).length) h
  unfold prune at hpruned ⊢
  split at hpruned
  · rename_i hp
    rw [if_pos hp]
    cases hk : task.parser.config.firstPassBeam with
    | none => exact hle
    | some k =>
      simp only [hk, Record.filter_hideBeyond, List.length_take] at hpruned ⊢
      omega
  · rename_i hp
    rw [if_neg hp, Record.filter_map_keepBest, List.length_map]
    exact hle

theorem made_cut {work : Work} (h : work.chart.Made) (cell : Cell) :
    (task.cut work cell).chart.Made := by
  unfold cut
  split
  · cases task.parser.config.firstPassBeam with
    | some k => exact h.truncate cell k
    | none => exact h
  · exact h.keepBest cell _

theorem made_workAfter (n : Nat) : (task.workAfter useful table cancelAt n).chart.Made := by
  apply workAfter_induction_of_wellKept (P := fun w => w.chart.Made)
  · intro steps _ step _ w hw hmade
    obtain ⟨groups, -, hadds⟩ := task.exists_attempts_runStep step hw.keyed
    rw [hadds.chart]
    exact List.foldlRecOn _ _ hmade fun _ hc f _ => hc.add _ f
  · intro w hmade
    exact List.foldlRecOn (motive := fun w : Work => w.chart.Made) _ task.cut hmade
      fun w hw cell _ => made_cut hw cell
  · exact .empty

/-- No cell has fewer entries after more blocks. -/
theorem length_entries_le_workAfter {m n : Nat} (hmn : m ≤ n) (cell : Cell) :
    ((task.workAfter useful table cancelAt m).chart.entries cell).length ≤
      ((task.workAfter useful table cancelAt n).chart.entries cell).length := by
  have hpruned : (task.workAfter useful table cancelAt m).Pruned task cell :=
    tidy_workAfter m cell (by rw [touched_workAfter]; exact List.not_mem_nil)
  rw [workAfter_of_le hmn]
  apply foldl_runBlock_induction_of_wellKept (P := fun w =>
    ((task.workAfter useful table cancelAt m).chart.entries cell).length ≤
      (w.chart.entries cell).length)
  · intro steps _ step _ w hw hle
    obtain ⟨groups, -, hadds⟩ := task.exists_attempts_runStep step hw.keyed
    refine hle.trans ?_
    rw [hadds.chart]
    exact Chart.length_entries_le_addAll hw.keyed _ _ cell
  · intro w hle
    rw [Chart.entries, Chart.entries, recordsOf_settle]
    split
    · exact task.length_filter_prune_le hpruned hle
    · exact hle
  · exact wellKept_workAfter m
  · exact Nat.le_refl _

end Task

end GuidedChart
