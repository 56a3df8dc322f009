import GuidedChart.Proofs.Construction.Permission
import GuidedChart.Proofs.Construction.Timing
import GuidedChart.Proofs.Containment

/-!
# A pass beside one that is cancelled

Two passes from the same table are run side by side, one that is never cancelled and one that is
cancelled in time (`Work.Trails`). They are the same until then, and outside the root cells the
first one has all that the second one has (`Task.Bounds`).

In the root cells both go on, but numbers are given in another order from then on. If the ways to
root cells in a list name only what had been numbered by then, they permit the same to both passes,
and a root that rests on nothing but what the cancelled pass has is found by it (`Task.Follows`).
-/

namespace GuidedChart

/-- How a pass that is never cancelled bounds another outside the root cells, as long as the beam
drops nothing from it. -/
structure Task.Bounds (task : Task) (full short : Work) : Prop where
  within : ∀ cell, cell.category ≠ task.parser.grammar.root →
    (short.chart.derivations cell).Subperm (full.chart.derivations cell)
  /-- What was not added to since the last beam is small enough for the next one. -/
  fits : ∀ cell, cell ∉ full.touched.toList →
    full.chart.Fits task.parser.config.beamSize cell

/-- A work of a pass that is never cancelled, and one of the same pass that is cancelled in time. -/
structure Work.Trails (task : Task) (time : Nat) (full short : Work) : Prop where
  soundFull : full.Sound
  soundShort : short.Sound
  openFull : full.Open
  openShort : short.Open
  traces : full.Traces
  inTime : full.cancelAt = none
  due : short.cancelAt = some time
  same : short.isCancelled = false → short = full.dueAt (some time)
  bounded : full.report.beamDropped = 0 → task.Bounds full short

/-- Where it leads to root cells, does the list of a pass name only numbers that stand for the same
in both works? -/
def Task.ListsShared (task : Task) (full short : Work) : Prop :=
  ∃ table : MeaningTable, task.ListsKnown table ∧
    table.senses <+: full.table.senses ∧ table.senses <+: short.table.senses

/-- How a pass compares with one that is never cancelled in all cells. -/
structure Task.Follows (task : Task) (full short : Work) : Prop where
  shared : short.isCancelled = true → task.ListsShared full short
  within : ∀ cell, (short.chart.derivations cell).Subperm (full.chart.derivations cell)
  rooted : ∀ cell, cell.category = task.parser.grammar.root →
    ∀ d ∈ full.chart.derivations cell,
      d.RestsOn task.parser.grammar.root (fun source node => node ∈ short.chart.derivations source)
        cell → d ∈ short.chart.derivations cell

namespace Task

variable {task : Task} {rule : Rule} {target cell : Cell} {ds : List Derivation} {d : Derivation}

theorem children_of_mem_comesTo (h : d ∈ task.comesTo rule target cell ds) :
    cell ∈ target :: (task.lift? target).toList ∧ d.children = ds ∧ d.span = target.span := by
  unfold comesTo at h
  split at h
  · rename_i hcell
    obtain ⟨c, hc, -, rfl⟩ := mem_accepted.1 h
    rw [children_finished, span_finished]
    exact ⟨hcell.1, Application.children_of_mem hc, Application.span_of_mem hc⟩
  · cases h

end Task

namespace Work.Trails

variable {task : Task} {time : Nat} {full short : Work} {step : Step}

theorem start (task : Task) {table : MeaningTable} (h : table.RefersBack) (time : Nat) :
    Trails task time (.start table none) (.start table (some time)) where
  soundFull := sound_start h none
  soundShort := sound_start h (some time)
  openFull := open_start table none
  openShort := open_start table (some time)
  traces key d hd := absurd hd (not_mem_derivationsOf_start table none key d)
  inTime := rfl
  due := rfl
  same _ := rfl
  bounded _ := by
    refine ⟨fun _ _ => .refl _, fun _ _ ds hds _ => ?_⟩
    rw [List.subperm_nil.1 hds]
    exact Nat.zero_le _

theorem traced (h : Trails task time full short) {cell : Cell} {d : Derivation}
    (hd : d ∈ full.chart.derivations cell) :
    ∃ meaning, full.Traced ⟨cell, meaning⟩ d := by
  obtain ⟨meaning, hd⟩ := Chart.exists_derivationsOf_of_mem_derivations hd
  exact ⟨meaning, h.traces _ d hd⟩

/-! ### A step of both passes -/

/-- What a step adds to the pass that is never cancelled. -/
theorem derivations_runStep_full (h : Trails task time full short) (hl : task.pass ≠ .first)
    (step : Step) (cell : Cell) :
    ((task.runStep full step).chart.derivations cell).Perm (full.chart.derivations cell ++
      (full.readings step).flatMap (task.contribution step.rule step.target cell)) := by
  obtain ⟨new, -, hnew, hperm⟩ := h.soundFull.exists_derivations_runStep h.openFull hl step cell
  rwa [hnew h.inTime] at hperm

/-- What a step adds to root cells does not depend on the time. -/
theorem derivations_runStep_short (h : Trails task time full short) (hl : task.pass ≠ .first)
    (hroot : step.target.category = task.parser.grammar.root) (cell : Cell) :
    ((task.runStep short step).chart.derivations cell).Perm (short.chart.derivations cell ++
      (short.readings step).flatMap (task.contribution step.rule step.target cell)) := by
  obtain ⟨new, -, hnew, hperm⟩ :=
    (h.soundShort.dueAt none).exists_derivations_runStep (h.openShort.dueAt none) hl step cell
  rwa [hnew rfl, Task.runStep_dueAt_of_root hroot] at hperm

/-- Of what a step adds, a pass that is cancelled in it adds a part. -/
theorem within_runStep_of_same (h : Trails task time full short) (hl : task.pass ≠ .first)
    (hc : short.isCancelled = false) (step : Step) (cell : Cell) :
    ((task.runStep short step).chart.derivations cell).Subperm
      ((task.runStep full step).chart.derivations cell) := by
  obtain ⟨part, hpart, -, hperm⟩ :=
    h.soundShort.exists_derivations_runStep h.openShort hl step cell
  obtain rfl := h.same hc
  exact hperm.subperm.trans (((List.Subperm.refl _).append hpart.subperm).trans
    (h.derivations_runStep_full hl step cell).symm.subperm)

theorem bounds_runStep (h : Trails task time full short) (hl : task.pass ≠ .first)
    (hb : task.Bounds full short) (step : Step) :
    task.Bounds (task.runStep full step) (task.runStep short step) where
  within cell hcell := by
    cases hc : short.isCancelled with
    | true =>
      have hkeeps := Task.keeps_runStep hl h.openShort.readable.visible step
      rw [Chart.derivations, Chart.entries, hkeeps.recordsOf hc cell hcell]
      exact (hb.within cell hcell).trans
        (h.soundFull.derivations_subperm_runStep h.openFull hl step cell)
    | false => exact h.within_runStep_of_same hl hc step cell
  fits cell hcell := by
    obtain ⟨huntouched, hsame⟩ := h.soundFull.derivations_runStep_of_untouched h.openFull hl hcell
    exact (hb.fits cell huntouched).mono (hsame ▸ .refl _)

theorem runStep (h : Trails task time full short) (hl : task.pass ≠ .first) (hlevel : step.Level) :
    Trails task time (task.runStep full step) (task.runStep short step) := by
  obtain ⟨groups, -, hg⟩ := h.soundFull.exists_attempts task step
  obtain ⟨groups', -, hg'⟩ := h.soundShort.exists_attempts task step
  refine ⟨h.soundFull.runStep task step, h.soundShort.runStep task step,
    h.openFull.runStep h.soundFull task step, h.openShort.runStep h.soundShort task step,
    h.traces.runStep h.soundFull.keyed hlevel, hg.cancelAt.trans h.inTime,
    hg'.cancelAt.trans h.due, fun hc => ?_, fun hz =>
      h.bounds_runStep hl (h.bounded (hg.beamDropped ▸ hz)) step⟩
  have hbefore : short.isCancelled = false := by
    refine Bool.eq_false_of_not_eq_true fun hcancelled => ?_
    rw [Task.isCancelled_runStep step hcancelled] at hc
    cases hc
  have hsame := h.same hbefore
  rw [hsame] at hc ⊢
  exact Task.runStep_dueAt h.inTime hc

/-- What a root rests on after a step, it rested on before if the pass had been cancelled. -/
theorem restsOn_of_runStep (h : Trails task time full short) (hl : task.pass ≠ .first)
    (hlevel : step.Level) (hc : short.isCancelled = true) {cell : Cell} {d : Derivation}
    (hd : d ∈ (task.runStep full step).chart.derivations cell)
    (hrests : d.RestsOn task.parser.grammar.root
      (fun source node => node ∈ (task.runStep short step).chart.derivations source) cell) :
    d.RestsOn task.parser.grammar.root (fun source node => node ∈ short.chart.derivations source)
      cell := by
  intro source node hnode hne
  obtain ⟨meaning, htraced⟩ := (h.runStep hl hlevel).traced hd
  have hcategory := hnode.category_eq htraced.category_eq
  have hkeeps := Task.keeps_runStep hl h.openShort.readable.visible step
  have hmem : node ∈ (task.runStep short step).chart.derivations source :=
    hrests source node hnode hne
  rwa [Chart.derivations, Chart.entries, hkeeps.recordsOf hc source (hcategory ▸ hne)] at hmem

/-- A root that is found in the step in which the pass is cancelled is found by both. -/
theorem rooted_runStep_of_same (h : Trails task time full short) (hl : task.pass ≠ .first)
    (hc : short.isCancelled = false) {cell : Cell}
    (hroot : cell.category = task.parser.grammar.root) {d : Derivation}
    (hd : d ∈ (task.runStep full step).chart.derivations cell) :
    d ∈ (task.runStep short step).chart.derivations cell := by
  obtain rfl := h.same hc
  by_cases htarget : step.target.category = task.parser.grammar.root
  · rwa [Task.runStep_dueAt_of_root htarget]
  · -- a rule for other cells adds nothing to a root cell
    have hperm := h.derivations_runStep_full hl step cell
    have hnone : (full.readings step).flatMap (task.contribution step.rule step.target cell) =
        [] := List.flatMap_eq_nil_iff.2 fun children _ => by
      rw [Task.contribution, Task.comesTo_of_category_ne (hroot ▸ htarget), ite_self]
    rw [hnone, List.append_nil] at hperm
    exact (h.soundShort.derivations_subperm_runStep h.openShort hl step cell).subset
      (hperm.mem_iff.1 hd)

/-! ### Beams -/

section Beams

variable (hl : task.pass ≠ .first) (hz : (task.settle full).report.beamDropped = 0)

include hl hz

/-- If the beam drops nothing from the full pass, it fits into all cells: into those that are about
to be cut because nothing is dropped, and into all others since it did before. -/
theorem fits (h : Trails task time full short) (cell : Cell) :
    full.chart.Fits task.parser.config.beamSize cell := by
  obtain ⟨hzero, hsmall⟩ := Task.length_le_of_beamDropped_settle hl hz
  by_cases hcell : cell ∈ full.touched.toList
  · exact Chart.fits_of_length_le h.openFull.readable h.soundFull.faithful h.soundFull.refersBack
      (hsmall cell hcell)
  · exact (h.bounded hzero).fits cell hcell

theorem length_le (h : Trails task time full short) {cell : Cell}
    (hwithin : (short.chart.derivations cell).Subperm (full.chart.derivations cell)) :
    ∀ record ∈ short.chart.entries cell,
      record.derivations.toList.length ≤ task.parser.config.beamSize :=
  fun _ hr => ((h.fits hl hz cell).mono hwithin).length_le h.soundShort.faithful hr

theorem derivations_settle_full (h : Trails task time full short) (cell : Cell) :
    (task.settle full).chart.derivations cell = full.chart.derivations cell :=
  Task.derivations_settle_of_length_le hl h.openFull.readable.visible fun _ hr =>
    (h.fits hl hz cell).length_le h.soundFull.faithful hr

theorem derivations_settle_short (h : Trails task time full short) {cell : Cell}
    (hwithin : (short.chart.derivations cell).Subperm (full.chart.derivations cell)) :
    (task.settle short).chart.derivations cell = short.chart.derivations cell :=
  Task.derivations_settle_of_length_le hl h.openShort.readable.visible (h.length_le hl hz hwithin)

end Beams

theorem settle (h : Trails task time full short) (hl : task.pass ≠ .first)
    (ht : task.HidesNothing) : Trails task time (task.settle full) (task.settle short) := by
  have hs := task.settles_settle full
  have hs' := task.settles_settle short
  refine ⟨h.soundFull.settle task, h.soundShort.settle task, h.openFull.settle ht,
    h.openShort.settle ht, h.traces.settle, hs.cancelAt.trans h.inTime, hs'.cancelAt.trans h.due,
    fun hc => ?_, fun hz => ?_⟩
  · rw [Task.isCancelled_settle] at hc
    rw [h.same hc, Task.settle_dueAt]
  · have hwithin := (h.bounded (Nat.le_zero.1 (hz ▸ hs.beamDropped))).within
    refine ⟨fun cell hcell => ?_, fun cell _ => (h.fits hl hz cell).mono ?_⟩
    · rw [h.derivations_settle_full hl hz, h.derivations_settle_short hl hz (hwithin cell hcell)]
      exact hwithin cell hcell
    · rw [h.derivations_settle_full hl hz]

end Work.Trails

/-! ## Root cells -/

namespace Task.Follows

open Work (Trails)

variable {task : Task} {time : Nat} {full short : Work} {step : Step}

theorem start (task : Task) (table : MeaningTable) (time : Nat)
    (h : (Work.start table (some time)).isCancelled = true → task.ListsKnown table) :
    task.Follows (.start table none) (.start table (some time)) where
  shared hc := ⟨table, h hc, List.prefix_refl _, List.prefix_refl _⟩
  within _ := .refl _
  rooted _ _ _ hd := absurd hd List.not_mem_nil

/-- What a root is made of, the cancelled pass can read, if the root rests on what it holds. -/
theorem forall₂_children (hf : task.Follows full short) (h : Trails task time full short)
    (hlevel : step.Level) {cell : Cell} {d : Derivation}
    (hspan : d.span = step.target.span)
    (hall : List.Forall₂ (fun e source => e ∈ full.chart.derivations source) d.children
      step.sources)
    (hrests : d.RestsOn task.parser.grammar.root
      (fun source node => node ∈ short.chart.derivations source) cell) :
    List.Forall₂ (fun e source => e ∈ short.chart.derivations source) d.children step.sources := by
  rw [List.forall₂_iff_get] at hall ⊢
  refine ⟨hall.1, fun i hi hs => ?_⟩
  have hmem : d.children.get ⟨i, hi⟩ ∈ d.children := List.get_mem ..
  obtain ⟨meaning, htraced⟩ := h.traced (hall.2 i hi hs)
  have hkind : (step.sources.get ⟨i, hs⟩).isAnchored = d.span.isAnchored := by
    rw [hlevel.sources _ (List.get_mem ..), hspan]
    rfl
  have hread : d.readFrom (d.children.get ⟨i, hi⟩) = step.sources.get ⟨i, hs⟩ :=
    htraced.readFrom_eq hkind
  have hchild := hrests.child hmem
  rw [hread] at hchild
  by_cases hroot : (step.sources.get ⟨i, hs⟩).category = task.parser.grammar.root
  · exact hf.rooted _ hroot _ (hall.2 i hi hs) hchild
  · refine hchild _ _ (.root _ _) fun he => hroot ?_
    exact htraced.category_eq.trans he

theorem within_runStep (hf : task.Follows full short) (h : Trails task time full short)
    (hl : task.pass ≠ .first) (hc : short.isCancelled = true) (step : Step) {cell : Cell}
    (hroot : cell.category = task.parser.grammar.root) :
    ((task.runStep short step).chart.derivations cell).Subperm
      ((task.runStep full step).chart.derivations cell) := by
  obtain ⟨table, hlist, hfull, hshort⟩ := hf.shared hc
  obtain ⟨new, hnew, -, hperm⟩ := h.soundShort.exists_derivations_runStep h.openShort hl step cell
  rw [contributions_eq_granted hl hlist h.soundShort hshort step hroot] at hnew
  have hpart := hnew.subperm.trans (granted_subperm fun source _ => hf.within source)
  rw [← contributions_eq_granted hl hlist h.soundFull hfull step hroot] at hpart
  exact hperm.subperm.trans (((hf.within cell).append hpart).trans
    (h.derivations_runStep_full hl step cell).symm.subperm)

theorem rooted_runStep (hf : task.Follows full short) (h : Trails task time full short)
    (hl : task.pass ≠ .first) (hlevel : step.Level) (hc : short.isCancelled = true) {cell : Cell}
    (hroot : cell.category = task.parser.grammar.root) {d : Derivation}
    (hd : d ∈ (task.runStep full step).chart.derivations cell)
    (hrests : d.RestsOn task.parser.grammar.root
      (fun source node => node ∈ short.chart.derivations source) cell) :
    d ∈ (task.runStep short step).chart.derivations cell := by
  obtain ⟨table, hlist, hfull, hshort⟩ := hf.shared hc
  have hperm := h.derivations_runStep_full hl step cell
  rw [contributions_eq_granted hl hlist h.soundFull hfull step hroot] at hperm
  rcases List.mem_append.1 (hperm.mem_iff.1 hd) with hold | hnew
  · exact (h.soundShort.derivations_subperm_runStep h.openShort hl step cell).subset
      (hf.rooted cell hroot d hold hrests)
  · obtain ⟨ds, hall, hgrants, hcomes⟩ := mem_granted.1 hnew
    obtain ⟨hplace, rfl, hspan⟩ := children_of_mem_comesTo hcomes
    -- what is new in a root cell comes of a rule for root cells
    have htarget := (category_of_mem_lift? hplace).symm.trans hroot
    refine (h.derivations_runStep_short hl htarget cell).mem_iff.2 (List.mem_append_right _ ?_)
    rw [contributions_eq_granted hl hlist h.soundShort hshort step hroot]
    exact mem_granted.2
      ⟨_, hf.forall₂_children h hlevel hspan hall hrests, hgrants, hcomes⟩

/-- If the list of a pass names only numbers that there are when it is cancelled, they stand for the
same in both passes ever after. -/
theorem listsShared_runStep (hf : task.Follows full short) (h : Trails task time full short)
    (hknown : ∀ k, (task.applyEach step short ((short.readings step).take k)).isCancelled = true →
      task.ListsKnown (task.applyEach step short ((short.readings step).take k)).table)
    (hc : (task.runStep short step).isCancelled = true) :
    task.ListsShared (task.runStep full step) (task.runStep short step) := by
  cases hbefore : short.isCancelled with
  | true =>
    obtain ⟨table, hlist, hfull, hshort⟩ := hf.shared hbefore
    exact ⟨table, hlist, hfull.trans (h.soundFull.leadsTo_runStep task step).senses,
      hshort.trans (h.soundShort.leadsTo_runStep task step).senses⟩
  | false =>
    obtain rfl := h.same hbefore
    obtain ⟨k, hk, htable⟩ := exists_table_applyEach_dueAt h.inTime hbefore hc
    -- what was numbered by then is kept by the applications that are left
    have hrest : ∀ w : Work,
        (task.applyEach step w ((full.readings step).take k)).table.senses <+:
          (task.applyEach step w (full.readings step)).table.senses := by
      intro w
      obtain ⟨fs, hadds, -⟩ := task.exists_adds_applyEach step
        (task.applyEach step w ((full.readings step).take k)) ((full.readings step).drop k)
      have hsenses := MeaningTable.senses_prefix hadds.keys
      rwa [← applyEach_append, List.take_append_drop] at hsenses
    exact ⟨_, hknown k hk, htable ▸ hrest full, hrest _⟩

theorem runStep (hf : task.Follows full short) (h : Trails task time full short)
    (hl : task.pass ≠ .first) (hlevel : step.Level) (hz : full.report.beamDropped = 0)
    (hknown : ∀ k, (task.applyEach step short ((short.readings step).take k)).isCancelled = true →
      task.ListsKnown (task.applyEach step short ((short.readings step).take k)).table) :
    task.Follows (task.runStep full step) (task.runStep short step) where
  shared hc := hf.listsShared_runStep h hknown hc
  within cell := by
    by_cases hroot : cell.category = task.parser.grammar.root
    · cases hc : short.isCancelled with
      | true => exact hf.within_runStep h hl hc step hroot
      | false => exact h.within_runStep_of_same hl hc step cell
    · exact (h.bounds_runStep hl (h.bounded hz) step).within cell hroot
  rooted cell hroot d hd hrests := by
    cases hc : short.isCancelled with
    | true =>
      exact hf.rooted_runStep h hl hlevel hc hroot hd
        (h.restsOn_of_runStep hl hlevel hc hd hrests)
    | false => exact h.rooted_runStep_of_same hl hc hroot hd

theorem settle (hf : task.Follows full short) (h : Trails task time full short)
    (hl : task.pass ≠ .first) (hz : (task.settle full).report.beamDropped = 0) :
    task.Follows (task.settle full) (task.settle short) := by
  have hfull : ∀ cell, (task.settle full).chart.derivations cell = full.chart.derivations cell :=
    h.derivations_settle_full hl hz
  have hshort : ∀ cell, (task.settle short).chart.derivations cell =
      short.chart.derivations cell := fun cell =>
    h.derivations_settle_short hl hz (hf.within cell)
  refine ⟨fun hc => ?_, fun cell => ?_, fun cell hroot d hd hrests => ?_⟩
  · obtain ⟨table, hlist, htable, htable'⟩ := hf.shared (isCancelled_settle.symm.trans hc)
    exact ⟨table, hlist, (task.settles_settle full).table ▸ htable,
      (task.settles_settle short).table ▸ htable'⟩
  · rw [hfull, hshort]
    exact hf.within cell
  · rw [hfull] at hd
    simp only [hshort] at hrests ⊢
    exact hf.rooted cell hroot d hd hrests

/-- A cancelled work has no more entries. -/
theorem numEntries_le (hf : task.Follows full short) (h : Trails task time full short) :
    short.chart.numEntries ≤ full.chart.numEntries := by
  refine Work.numEntries_le_of_senses h.soundFull h.openFull h.soundShort h.openShort
    fun key hk => ?_
  obtain ⟨d, hd⟩ := List.exists_mem_of_ne_nil _ (h.openShort.readable.derivationsOf_ne_nil hk)
  have hshort : d ∈ short.chart.derivations key.cell := by
    rw [Chart.derivations_eq_flatMap (h.openShort.readable.visible.visibleIn _)]
    exact List.mem_flatMap.2 ⟨key.meaning, Chart.mem_meaningsOf.2 hk, hd⟩
  obtain ⟨m, hm⟩ :=
    Chart.exists_derivationsOf_of_mem_derivations ((hf.within key.cell).subset hshort)
  exact ⟨m, Chart.holds_of_mem_derivationsOf hm, d.sense, h.soundFull.sense? _ d hm,
    h.soundShort.sense? key d hd⟩

end Task.Follows

end GuidedChart
