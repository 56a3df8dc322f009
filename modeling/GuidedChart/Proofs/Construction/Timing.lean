import GuidedChart.Proofs.Construction.Contributions
import GuidedChart.Proofs.Construction.Reading

/-!
# A pass that runs out of time

A pass may be cancelled between any two applications, so its moments are counted down to single
applications here (`Task.workDuring`). The time at which a pass is due to be cancelled makes no
difference before it has come (`Task.runStep_dueAt`), and none at any time to a step that fills a
root cell (`Task.runStep_dueAt_of_root`). From then on nothing is filed in any other cell. As long
as the beam drops nothing there, all that could be read in those cells at one moment of a pass can
be read at the end of it (`Task.keeps_workDuring`).
-/

namespace GuidedChart

/-! ## When a pass is due -/

namespace Work

/-- The same work, due to be cancelled at another time. -/
def dueAt (work : Work) (cancelAt : Option Nat) : Work :=
  { work with cancelAt }

variable {work after : Work}

theorem dueAt_eq_self {cancelAt : Option Nat} (h : work.cancelAt = cancelAt) :
    work.dueAt cancelAt = work := by
  rw [← h]
  rfl

theorem isCancelled_of_none (h : work.cancelAt = none) : work.isCancelled = false := by
  simp [isCancelled, h]

theorem isCancelled_mono (hcancelAt : after.cancelAt = work.cancelAt)
    (hclock : work.clock ≤ after.clock) (h : work.isCancelled = true) :
    after.isCancelled = true := by
  unfold isCancelled at h ⊢
  rw [hcancelAt]
  split at h
  · exact decide_eq_true (Nat.le_trans (of_decide_eq_true h) hclock)
  · cases h

theorem Sound.dueAt (h : work.Sound) (cancelAt : Option Nat) : (work.dueAt cancelAt).Sound where
  keyed := h.keyed
  uniform := h.uniform
  sized := h.sized
  executed := h.executed
  refersBack := h.refersBack
  known := h.known
  sense? := h.sense?

theorem Open.dueAt (h : work.Open) (cancelAt : Option Nat) : (work.dueAt cancelAt).Open :=
  ⟨h.readable, h.numEntries⟩

end Work

namespace Task

variable (task : Task) (work : Work) (cancelAt : Option Nat)

theorem passesOver_of_root {target : Cell} (h : target.category = task.parser.grammar.root) :
    task.passesOver work target = false := by
  simp [passesOver, h]

theorem file_dueAt (f : Finding) :
    task.file (work.dueAt cancelAt) f = (task.file work f).dueAt cancelAt := by
  simp only [file]
  split
  · split <;> rfl
  · rfl

theorem consider_dueAt (i : Ingredient) (sources : List BackPointer) (single : Bool)
    (c : Derivation) : task.consider i sources single (work.dueAt cancelAt) c =
      (task.consider i sources single work c).dueAt cancelAt := by
  simp only [consider]
  split
  · rfl
  · exact task.file_dueAt { work with table := (work.table.intern _).1 } cancelAt _

theorem carryOut_dueAt (rule : Rule) (target : Cell) (children : List Child) :
    task.carryOut rule target children (work.dueAt cancelAt) =
      (task.carryOut rule target children work).dueAt cancelAt :=
  List.foldl_hom (Work.dueAt · cancelAt) fun w c => task.consider_dueAt w cancelAt _ _ _ c

/-- An application depends on the time only in that it may be passed over. -/
theorem apply_dueAt (rule : Rule) {target : Cell} (children : List Child)
    (h : task.passesOver (work.dueAt cancelAt) target = task.passesOver work target) :
    task.apply rule target children (work.dueAt cancelAt) =
      (task.apply rule target children work).dueAt cancelAt := by
  have hverdict : task.verdict rule target children (work.dueAt cancelAt) =
      task.verdict rule target children work := by
    rw [verdict, verdict, h]
  let attempted := work.tick.count fun report =>
    { report with applications := report.applications + 1 }
  unfold apply
  rw [hverdict]
  cases task.verdict rule target children work with
  | admitted => exact task.carryOut_dueAt attempted cancelAt rule target children
  | passedOver | disallowed | overlapping => rfl

theorem clock_file (f : Finding) : (task.file work f).clock = work.clock := by
  simp only [file]
  split
  · split <;> rfl
  · rfl

theorem clock_consider (i : Ingredient) (sources : List BackPointer) (single : Bool)
    (c : Derivation) : (task.consider i sources single work c).clock = work.clock := by
  simp only [consider]
  split
  · rfl
  · exact task.clock_file _ _

theorem clock_carryOut (rule : Rule) (target : Cell) (children : List Child) :
    (task.carryOut rule target children work).clock = work.clock :=
  List.foldlRecOn (motive := fun w : Work => w.clock = work.clock) _ _ rfl
    fun w hw c _ => (task.clock_consider w _ _ _ c).trans hw

/-- Every application takes its time, also one that is passed over. -/
theorem clock_apply (rule : Rule) (target : Cell) (children : List Child) :
    (task.apply rule target children work).clock = work.clock + 1 := by
  unfold apply
  cases task.verdict rule target children work with
  | admitted => exact task.clock_carryOut _ rule target children
  | passedOver | disallowed | overlapping => rfl

/-! ## The applications of a step -/

/-- Applies the rule of a step to some lists of children, one after the other. -/
def applyEach (step : Step) (work : Work) (cs : List (List Child)) : Work :=
  cs.foldl (fun work children => task.apply step.rule step.target children work) work

theorem runStep_eq_applyEach (step : Step) :
    task.runStep work step = task.applyEach step work (work.readings step) := rfl

variable {task work cancelAt} {step : Step}

/-- What is filed in root cells is filed at any time. -/
theorem applyEach_dueAt_of_root (h : step.target.category = task.parser.grammar.root)
    (cs : List (List Child)) :
    task.applyEach step (work.dueAt cancelAt) cs =
      (task.applyEach step work cs).dueAt cancelAt := by
  refine List.foldl_hom (Work.dueAt · cancelAt) fun w children => task.apply_dueAt w cancelAt _ _ ?_
  rw [task.passesOver_of_root _ h, task.passesOver_of_root _ h]

theorem cancelAt_apply (rule : Rule) (target : Cell) (children : List Child) :
    (task.apply rule target children work).cancelAt = work.cancelAt := by
  obtain ⟨fs, hadds, -⟩ := task.exists_yields_apply work rule target children
  exact hadds.cancelAt

theorem isCancelled_apply (rule : Rule) (target : Cell) (children : List Child)
    (h : work.isCancelled = true) : (task.apply rule target children work).isCancelled = true := by
  refine Work.isCancelled_mono (cancelAt_apply rule target children) ?_ h
  rw [clock_apply]
  exact Nat.le_succ _

theorem isCancelled_applyEach (cs : List (List Child)) (h : work.isCancelled = true) :
    (task.applyEach step work cs).isCancelled = true :=
  List.foldlRecOn (motive := fun w : Work => w.isCancelled = true) cs _ h
    fun _ hw children _ => isCancelled_apply step.rule step.target children hw

/-- Before its time has come, a pass does what it does without. -/
theorem apply_dueAt_of_isCancelled (hn : work.cancelAt = none)
    (h : (work.dueAt cancelAt).isCancelled = false) (rule : Rule) (target : Cell)
    (children : List Child) :
    task.apply rule target children (work.dueAt cancelAt) =
      (task.apply rule target children work).dueAt cancelAt := by
  refine task.apply_dueAt work cancelAt rule children ?_
  rw [passesOver, passesOver, h, Work.isCancelled_of_none hn]

theorem applyEach_cons (step : Step) (work : Work) (children : List Child)
    (cs : List (List Child)) :
    task.applyEach step work (children :: cs) =
      task.applyEach step (task.apply step.rule step.target children work) cs := rfl

theorem applyEach_append (step : Step) (work : Work) (cs ds : List (List Child)) :
    task.applyEach step work (cs ++ ds) = task.applyEach step (task.applyEach step work cs) ds :=
  List.foldl_append

theorem applyEach_dueAt (hn : work.cancelAt = none) {cs : List (List Child)}
    (h : (task.applyEach step (work.dueAt cancelAt) cs).isCancelled = false) :
    task.applyEach step (work.dueAt cancelAt) cs =
      (task.applyEach step work cs).dueAt cancelAt := by
  induction cs generalizing work with
  | nil => rfl
  | cons children cs ih =>
    have hbefore : (work.dueAt cancelAt).isCancelled = false := by
      refine Bool.eq_false_of_not_eq_true fun hc => ?_
      rw [isCancelled_applyEach _ hc] at h
      cases h
    rw [applyEach_cons, apply_dueAt_of_isCancelled hn hbefore] at h ⊢
    exact ih ((cancelAt_apply step.rule step.target children).trans hn) h

/-- A pass whose time comes at one of some applications has numbered the same by then as it would
without. -/
theorem exists_table_applyEach_dueAt (hn : work.cancelAt = none)
    (hbefore : (work.dueAt cancelAt).isCancelled = false) {cs : List (List Child)}
    (h : (task.applyEach step (work.dueAt cancelAt) cs).isCancelled = true) :
    ∃ k, (task.applyEach step (work.dueAt cancelAt) (cs.take k)).isCancelled = true ∧
      (task.applyEach step (work.dueAt cancelAt) (cs.take k)).table =
        (task.applyEach step work (cs.take k)).table := by
  induction cs generalizing work with
  | nil => exact absurd (hbefore.symm.trans h) nofun
  | cons children cs ih =>
    rw [applyEach_cons, apply_dueAt_of_isCancelled hn hbefore] at h
    let after := task.apply step.rule step.target children work
    cases hafter : (after.dueAt cancelAt).isCancelled with
    | true =>
      refine ⟨1, ?_⟩
      rw [List.take_succ_cons, applyEach_cons, applyEach_cons,
        apply_dueAt_of_isCancelled hn hbefore]
      exact ⟨hafter, rfl⟩
    | false =>
      obtain ⟨k, hk⟩ := ih ((cancelAt_apply step.rule step.target children).trans hn) hafter h
      refine ⟨k + 1, ?_⟩
      rwa [List.take_succ_cons, applyEach_cons, applyEach_cons,
        apply_dueAt_of_isCancelled hn hbefore]

theorem runStep_dueAt_of_root (h : step.target.category = task.parser.grammar.root) :
    task.runStep (work.dueAt cancelAt) step = (task.runStep work step).dueAt cancelAt :=
  applyEach_dueAt_of_root h _

theorem runStep_dueAt (hn : work.cancelAt = none)
    (h : (task.runStep (work.dueAt cancelAt) step).isCancelled = false) :
    task.runStep (work.dueAt cancelAt) step = (task.runStep work step).dueAt cancelAt :=
  applyEach_dueAt hn h

theorem isCancelled_runStep (step : Step) (h : work.isCancelled = true) :
    (task.runStep work step).isCancelled = true :=
  isCancelled_applyEach _ h

/-! ## Beams -/

theorem cut_dueAt (cell : Cell) :
    task.cut (work.dueAt cancelAt) cell = (task.cut work cell).dueAt cancelAt := by
  unfold cut
  split
  · split <;> rfl
  · rfl

theorem settle_dueAt : task.settle (work.dueAt cancelAt) = (task.settle work).dueAt cancelAt := by
  have hfold : work.touched.toList.foldl task.cut (work.dueAt cancelAt) =
      (work.touched.toList.foldl task.cut work).dueAt cancelAt :=
    List.foldl_hom (Work.dueAt · cancelAt) fun _ cell => cut_dueAt cell
  change { work.touched.toList.foldl task.cut (work.dueAt cancelAt) with touched := .empty } = _
  rw [hfold]
  rfl

theorem clock_settle : (task.settle work).clock = work.clock := by
  refine List.foldlRecOn (motive := fun w : Work => w.clock = work.clock) work.touched.toList
    task.cut rfl fun w hw cell _ => ?_
  rw [← hw]
  unfold cut
  split
  · split <;> rfl
  · rfl

theorem isCancelled_settle : (task.settle work).isCancelled = work.isCancelled := by
  rw [Work.isCancelled, Work.isCancelled, (task.settles_settle work).cancelAt, clock_settle]

/-- The beam leaves a cell as it is whose records are small enough. -/
theorem recordsOf_settle_of_length_le (hl : task.pass ≠ .first) (hv : work.chart.Visible)
    {cell : Cell} (h : ∀ record ∈ work.chart.entries cell,
      record.derivations.toList.length ≤ task.parser.config.beamSize) :
    (task.settle work).chart.recordsOf cell = work.chart.recordsOf cell := by
  have hsame : ∀ record ∈ work.chart.recordsOf cell,
      record.keepBest task.parser.config.beamSize = record := by
    intro record hr
    obtain ⟨meaning, hlookup⟩ := Chart.mem_recordsOf.1 hr
    have hentry : record ∈ work.chart.entries cell :=
      Chart.mem_entries.2 ⟨⟨meaning, hlookup⟩, hv _ _ hlookup⟩
    exact if_pos (Array.length_toList ▸ h record hentry)
  have hprune : task.prune (work.chart.recordsOf cell) = work.chart.recordsOf cell := by
    rw [prune, if_neg hl, List.map_congr_left hsame, List.map_id']
  rw [recordsOf_settle, hprune, ite_self]

theorem derivations_settle_of_length_le (hl : task.pass ≠ .first) (hv : work.chart.Visible)
    {cell : Cell} (h : ∀ record ∈ work.chart.entries cell,
      record.derivations.toList.length ≤ task.parser.config.beamSize) :
    (task.settle work).chart.derivations cell = work.chart.derivations cell := by
  rw [Chart.derivations, Chart.derivations, Chart.entries, Chart.entries,
    recordsOf_settle_of_length_le hl hv h]

end Task

/-! ## What a pass does not take back -/

/-- Outside the root cells, what can be read of the first work can be read of the second. If the
first is cancelled, so is the second, and outside the root cells the records are the same. -/
structure Work.Keeps (root : CategoryId) (before after : Work) : Prop where
  derivations : ∀ cell, cell.category ≠ root →
    before.chart.derivations cell ⊆ after.chart.derivations cell
  isCancelled : before.isCancelled = true → after.isCancelled = true
  recordsOf : before.isCancelled = true → ∀ cell, cell.category ≠ root →
    after.chart.recordsOf cell = before.chart.recordsOf cell

namespace Work.Keeps

variable {root : CategoryId} {before between after : Work}

theorem refl (root : CategoryId) (work : Work) : work.Keeps root work :=
  ⟨fun _ _ => List.Subset.refl _, id, fun _ _ _ => rfl⟩

theorem trans (h : before.Keeps root between) (k : between.Keeps root after) :
    before.Keeps root after where
  derivations cell hcell :=
    List.Subset.trans (h.derivations cell hcell) (k.derivations cell hcell)
  isCancelled hc := k.isCancelled (h.isCancelled hc)
  recordsOf hc cell hcell :=
    (k.recordsOf (h.isCancelled hc) cell hcell).trans (h.recordsOf hc cell hcell)

end Work.Keeps

namespace Task

variable {task : Task} {work : Work} {step : Step}

/-- What an application files once the pass is cancelled, it files in root cells. -/
theorem exists_adds_apply (task : Task) (work : Work) (rule : Rule) (target : Cell)
    (children : List Child) :
    ∃ fs, work.Adds task.retention (task.apply rule target children work) fs ∧
      (work.isCancelled = true → ∀ f ∈ fs, f.key.cell.category = task.parser.grammar.root) := by
  by_cases hroot : target.category = task.parser.grammar.root
  · obtain ⟨fs, hadds, hfs⟩ := task.exists_yields_apply work rule target children
    refine ⟨fs, hadds, fun _ f hf => ?_⟩
    rcases hfs with ⟨-, hy⟩ | ⟨rfl, -⟩
    · have hplace : f.placement ∈ task.placements _ rule target children :=
        hy.placements ▸ List.mem_map_of_mem hf
      have hcell : f.key.cell.category = target.category :=
        category_of_mem_lift? (mem_of_mem_places (mem_placements.1 hplace).1)
      exact hcell.trans hroot
    · cases hf
  · by_cases hc : work.isCancelled = true
    · have hverdict : task.verdict rule target children work = .passedOver :=
        if_pos (by simp [passesOver, hc, hroot])
      have happly : task.apply rule target children work = work.tick := by
        unfold apply
        rw [hverdict]
      exact ⟨[], happly ▸ Work.adds_tick task.retention work,
        fun _ _ hf => absurd hf List.not_mem_nil⟩
    · obtain ⟨fs, hadds, -⟩ := task.exists_yields_apply work rule target children
      exact ⟨fs, hadds, fun h => absurd h hc⟩

theorem exists_adds_applyEach (task : Task) (step : Step) (work : Work) (cs : List (List Child)) :
    ∃ fs, work.Adds task.retention (task.applyEach step work cs) fs ∧
      (work.isCancelled = true → ∀ f ∈ fs, f.key.cell.category = task.parser.grammar.root) := by
  induction cs generalizing work with
  | nil => exact ⟨[], .refl _ work, fun _ _ hf => absurd hf List.not_mem_nil⟩
  | cons children cs ih =>
    obtain ⟨fs, hadds, hroot⟩ := task.exists_adds_apply work step.rule step.target children
    obtain ⟨gs, hadds', hroot'⟩ := ih (task.apply step.rule step.target children work)
    refine ⟨fs ++ gs, hadds.trans hadds', fun hc f hf => ?_⟩
    rcases List.mem_append.1 hf with hf | hf
    · exact hroot hc f hf
    · exact hroot' (isCancelled_apply step.rule step.target children hc) f hf

theorem visible_applyEach (hv : work.chart.Visible) (cs : List (List Child)) :
    (task.applyEach step work cs).chart.Visible := by
  obtain ⟨fs, hadds, -⟩ := task.exists_adds_applyEach step work cs
  rw [hadds.chart]
  exact hv.addAll _ _

theorem keeps_applyEach (hl : task.pass ≠ .first) (hv : work.chart.Visible)
    (cs : List (List Child)) :
    work.Keeps task.parser.grammar.root (task.applyEach step work cs) := by
  obtain ⟨fs, hadds, hroot⟩ := task.exists_adds_applyEach step work cs
  have hretention : task.retention = .all := if_neg hl
  refine ⟨fun cell _ => ?_, isCancelled_applyEach cs, fun hc cell hcell => ?_⟩
  · rw [hadds.chart, hretention]
    exact List.Subset.trans (List.subset_append_left _ _)
      (Chart.derivations_addAll_perm hv fs cell).symm.subset
  · exact hadds.recordsOf_eq fun f hf he => hcell (he ▸ hroot hc f hf)

theorem keeps_runStep (hl : task.pass ≠ .first) (hv : work.chart.Visible) (step : Step) :
    work.Keeps task.parser.grammar.root (task.runStep work step) :=
  keeps_applyEach hl hv _

theorem keeps_settle (hl : task.pass ≠ .first) (hv : work.chart.Visible) {root : CategoryId}
    (h : ∀ cell, cell.category ≠ root → ∀ record ∈ work.chart.entries cell,
      record.derivations.toList.length ≤ task.parser.config.beamSize) :
    work.Keeps root (task.settle work) := by
  refine ⟨fun cell hcell => ?_, fun hc => isCancelled_settle.trans hc, fun _ cell hcell =>
    recordsOf_settle_of_length_le hl hv (h cell hcell)⟩
  rw [derivations_settle_of_length_le hl hv (h cell hcell)]
  exact List.Subset.refl _

/-! ### Moments -/

section Moments

/-- The work after so many blocks, so many steps of the next block and so many applications of the
next step. -/
def workDuring (task : Task) (useful : CategoryId → Nat → Bool) (table : MeaningTable)
    (cancelAt : Option Nat) (n j k : Nat) : Work :=
  let work := task.workAt useful table cancelAt n j
  match task.stepAt? useful n j with
  | some step => task.applyEach step work ((work.readings step).take k)
  | none => work

variable {useful : CategoryId → Nat → Bool} {table : MeaningTable} {cancelAt : Option Nat}
  {n j k : Nat}

theorem workDuring_eq (hstep : task.stepAt? useful n j = some step) :
    task.workDuring useful table cancelAt n j k =
      task.applyEach step (task.workAt useful table cancelAt n j)
        (((task.workAt useful table cancelAt n j).readings step).take k) := by
  simp only [workDuring, hstep]

theorem workDuring_zero (task : Task) (n j : Nat) :
    task.workDuring useful table cancelAt n j 0 = task.workAt useful table cancelAt n j := by
  unfold workDuring
  split <;> rfl

theorem workDuring_succ {children : List Child} (hstep : task.stepAt? useful n j = some step)
    (hc : ((task.workAt useful table cancelAt n j).readings step)[k]? = some children) :
    task.workDuring useful table cancelAt n j (k + 1) = task.apply step.rule step.target children
      (task.workDuring useful table cancelAt n j k) := by
  obtain ⟨hlt, rfl⟩ := List.getElem?_eq_some_iff.1 hc
  rw [workDuring_eq hstep, workDuring_eq hstep, List.take_succ_eq_append_getElem hlt,
    applyEach_append]
  rfl

theorem cancelAt_workDuring (task : Task) (n j k : Nat) :
    (task.workDuring useful table cancelAt n j k).cancelAt = cancelAt := by
  have hat : (task.workAt useful table cancelAt n j).cancelAt = cancelAt := by
    refine workAt_induction (P := fun w => w.cancelAt = cancelAt) (fun _ _ step _ w hw => ?_)
      (fun w hw => (task.settles_settle w).cancelAt.trans hw) rfl n j
    obtain ⟨fs, hadds, -⟩ := task.exists_adds_applyEach step w (w.readings step)
    exact hadds.cancelAt.trans hw
  unfold workDuring
  split
  · obtain ⟨fs, hadds, -⟩ := task.exists_adds_applyEach _ (task.workAt useful table cancelAt n j) _
    exact hadds.cancelAt.trans hat
  · exact hat

/-- At any moment a pass has the numbers of the table that it begins with. -/
theorem senses_workDuring (task : Task) (n j k : Nat) :
    table.senses <+: (task.workDuring useful table cancelAt n j k).table.senses := by
  have happlied : ∀ step (w : Work) cs,
      w.table.senses <+: (task.applyEach step w cs).table.senses := by
    intro step w cs
    obtain ⟨fs, hadds, -⟩ := task.exists_adds_applyEach step w cs
    exact MeaningTable.senses_prefix hadds.keys
  have hat : table.senses <+: (task.workAt useful table cancelAt n j).table.senses := by
    apply workAt_induction (P := fun w => table.senses <+: w.table.senses)
    · exact fun _ _ step _ w hw => hw.trans (happlied step w _)
    · exact fun w hw => (task.settles_settle w).table ▸ hw
    · exact List.prefix_refl _
  unfold workDuring
  split
  · exact hat.trans (happlied _ _ _)
  · exact hat

/-- An application to a root cell is carried out at any moment as if there were no time. -/
theorem workDuring_succ_of_root {children : List Child}
    (hstep : task.stepAt? useful n j = some step)
    (hc : ((task.workAt useful table cancelAt n j).readings step)[k]? = some children)
    (hroot : step.target.category = task.parser.grammar.root) :
    task.workDuring useful table cancelAt n j (k + 1) =
      (task.apply step.rule step.target children
        ((task.workDuring useful table cancelAt n j k).dueAt none)).dueAt cancelAt := by
  have hover : ∀ w : Work, task.passesOver w step.target = false := fun w =>
    task.passesOver_of_root w hroot
  have hdue : ((task.workDuring useful table cancelAt n j k).dueAt none).dueAt cancelAt =
      task.workDuring useful table cancelAt n j k :=
    Work.dueAt_eq_self (task.cancelAt_workDuring n j k)
  rw [← task.apply_dueAt _ cancelAt _ _ (by rw [hover, hover]), hdue, workDuring_succ hstep hc]

theorem open_workAt (h : table.RefersBack) (ht : task.HidesNothing) (n j : Nat) :
    (task.workAt useful table cancelAt n j).Open := by
  have hboth : (task.workAt useful table cancelAt n j).Sound ∧
      (task.workAt useful table cancelAt n j).Open := by
    apply workAt_induction (P := fun w => w.Sound ∧ w.Open)
    · exact fun _ _ step _ w hw => ⟨hw.1.runStep task step, hw.2.runStep hw.1 task step⟩
    · exact fun w hw => ⟨hw.1.settle task, hw.2.settle ht⟩
    · exact ⟨Work.sound_start h cancelAt, Work.open_start table cancelAt⟩
  exact hboth.2

/-- If the beam finds nothing to drop outside the root cells, what a pass has there at one moment it
has at the end; and from the moment it is cancelled on, nothing changes there. -/
theorem keeps_workDuring (hl : task.pass ≠ .first) (h : table.RefersBack) (ht : task.HidesNothing)
    {N : Nat} (hN : N ≤ (task.plan useful).length)
    (hsmall : ∀ n block, n < N → (task.plan useful)[n]? = some block →
      ∀ cell, cell.category ≠ task.parser.grammar.root →
        ∀ record ∈ (task.workAt useful table cancelAt n block.length).chart.entries cell,
          record.derivations.toList.length ≤ task.parser.config.beamSize) (hn : n < N) :
    (task.workDuring useful table cancelAt n j k).Keeps task.parser.grammar.root
      (task.workAfter useful table cancelAt N) := by
  have hvisible : ∀ n j, (task.workAt useful table cancelAt n j).chart.Visible := fun n j =>
    (open_workAt h ht n j).readable.visible
  have hlater : ∀ j, (task.workAt useful table cancelAt n j).Keeps task.parser.grammar.root
      (task.workAfter useful table cancelAt N) := by
    intro j
    apply workAfter_induction_of_workAt (n := n) (j := j) hN
    · intro m i step _ _ hk
      exact hk.trans (keeps_runStep hl (hvisible m i) step)
    · intro m block hm hblock hk
      exact hk.trans (keeps_settle hl (hvisible m _) (hsmall m block hm hblock))
    · exact hn
    · exact .refl _ _
  unfold workDuring
  split
  · rename_i step hstep
    let moment := task.workAt useful table cancelAt n j
    let cs := moment.readings step
    have hnext : task.workAt useful table cancelAt n (j + 1) =
        task.applyEach step (task.applyEach step moment (cs.take k)) (cs.drop k) := by
      rw [workAt_succ hstep, runStep_eq_applyEach, ← applyEach_append, List.take_append_drop]
    have hmoment : (task.applyEach step moment (cs.take k)).chart.Visible :=
      visible_applyEach (hvisible n j) _
    refine Work.Keeps.trans ?_ (hlater (j + 1))
    rw [hnext]
    exact keeps_applyEach hl hmoment (cs.drop k)
  · exact hlater j

end Moments

end Task

end GuidedChart
