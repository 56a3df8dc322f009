import GuidedChart.Proofs.Chart.Trims
import GuidedChart.Proofs.Construction.Senses

/-!
# What a run keeps

A run is a number of blocks of its plan, each of them steps and then a beam; the ceiling decides
how many (`Task.exists_endsAt_run`). What holds of a work at the beginning, and is kept by every
step and by the beam, holds of the run (`Task.foldl_runBlock_rel₃`, for three runs side by side).

`Work.WellKept` collects what every run keeps, from whatever table it starts: flags vouch for
formulas, and the size counts keys. From a table that refers back, numbers have the senses of the
derivations filed under them too (`Work.Sound`). `Work.LeadsTo` says what a run never takes back.
-/

namespace GuidedChart

open GuidedChart.Derivation (sense)

/-! ## Charts that grow -/

namespace Chart

/-- The second chart has every record of the first, with every way it came about. -/
structure GrowsTo (chart later : Chart) : Prop where
  holds : ∀ key, chart.Holds key → later.Holds key
  ingredients : ∀ key, chart.ingredientsOf key ⊆ later.ingredientsOf key
  backPointers : ∀ key, chart.backPointersOf key ⊆ later.backPointersOf key

namespace GrowsTo

variable {chart later latest : Chart}

theorem refl (chart : Chart) : chart.GrowsTo chart :=
  ⟨fun _ h => h, fun _ _ h => h, fun _ _ h => h⟩

theorem trans (h : chart.GrowsTo later) (k : later.GrowsTo latest) : chart.GrowsTo latest :=
  ⟨fun key hk => k.holds key (h.holds key hk),
    fun key _ hi => k.ingredients key (h.ingredients key hi),
    fun key _ hp => k.backPointers key (h.backPointers key hp)⟩

end GrowsTo

theorem growsTo_addAll (retention : Retention) (chart : Chart) (fs : List Finding) :
    chart.GrowsTo (chart.addAll retention fs) :=
  ⟨fun _ h => holds_addAll.2 (Or.inl h), fun _ _ h => mem_ingredientsOf_addAll.2 (Or.inl h),
    fun _ _ h => mem_backPointersOf_addAll.2 (Or.inl h)⟩

theorem Trims.growsTo {chart trimmed : Chart} (h : chart.Trims trimmed) :
    chart.GrowsTo trimmed := by
  refine ⟨fun key hk => (h.holds key).2 hk, fun key i hi => ?_, fun key p hp => ?_⟩
  · rwa [h.ingredientsOf]
  · rwa [h.backPointersOf]

end Chart

namespace Work

/-- The second work has everything of the first: its records, how they came about, and what the
numbers stand for. -/
structure LeadsTo (before after : Work) : Prop where
  chart : before.chart.GrowsTo after.chart
  senses : before.table.senses <+: after.table.senses

namespace LeadsTo

variable {before between after : Work}

theorem refl (work : Work) : work.LeadsTo work :=
  ⟨.refl _, List.prefix_refl _⟩

theorem trans (h : before.LeadsTo between) (k : between.LeadsTo after) : before.LeadsTo after :=
  ⟨h.chart.trans k.chart, h.senses.trans k.senses⟩

end LeadsTo

theorem Gains.leadsTo {retention : Retention} {before after : Work} {fs : List Finding}
    (h : before.Gains retention after fs) : before.LeadsTo after :=
  ⟨h.chart ▸ Chart.growsTo_addAll retention before.chart fs, h.senses⟩

/-- How a finding came about is known to all that the work leads to. -/
theorem Gains.mem_ingredientsOf {retention : Retention} {before after final : Work}
    {fs : List Finding} (h : before.Gains retention after fs) (hl : after.LeadsTo final)
    {f : Finding} (hf : f ∈ fs) : f.ingredient ∈ final.chart.ingredientsOf f.key := by
  refine hl.chart.ingredients _ ?_
  rw [h.chart]
  exact Chart.mem_ingredientsOf_addAll.2 (Or.inr ⟨f, hf, rfl, rfl⟩)

theorem Gains.mem_backPointersOf {retention : Retention} {before after final : Work}
    {fs : List Finding} (h : before.Gains retention after fs) (hl : after.LeadsTo final)
    {f : Finding} (hf : f ∈ fs) {source : BackPointer} (hs : source ∈ f.sources) :
    source ∈ final.chart.backPointersOf f.key := by
  refine hl.chart.backPointers _ ?_
  rw [h.chart]
  exact Chart.mem_backPointersOf_addAll.2 (Or.inr ⟨f, hf, rfl, hs⟩)

/-! ## Beams -/

/-- The first work comes to the second one by beams. -/
structure Settles (before after : Work) : Prop where
  chart : before.chart.Trims after.chart
  table : after.table = before.table
  cancelAt : after.cancelAt = before.cancelAt
  beamDropped : before.report.beamDropped ≤ after.report.beamDropped
  hitCeiling : after.report.hitCeiling = before.report.hitCeiling

namespace Settles

variable {before between after : Work}

theorem refl (work : Work) : work.Settles work :=
  ⟨.refl _, rfl, rfl, Nat.le_refl _, rfl⟩

theorem trans (h : before.Settles between) (k : between.Settles after) : before.Settles after :=
  ⟨h.chart.trans k.chart, k.table.trans h.table, k.cancelAt.trans h.cancelAt,
    h.beamDropped.trans k.beamDropped, k.hitCeiling.trans h.hitCeiling⟩

theorem leadsTo (h : before.Settles after) : before.LeadsTo after :=
  ⟨h.chart.growsTo, by rw [h.table]⟩

end Settles

end Work

namespace Task

theorem settles_cut (task : Task) (work : Work) (cell : Cell) :
    work.Settles (task.cut work cell) := by
  unfold cut
  split
  · split
    · exact ⟨Chart.trims_truncate .., rfl, rfl, Nat.le_add_right .., rfl⟩
    · exact .refl work
  · exact ⟨Chart.trims_keepBest .., rfl, rfl, Nat.le_add_right .., rfl⟩

theorem settles_settle (task : Task) (work : Work) : work.Settles (task.settle work) := by
  have hfold : ∀ (cells : List Cell) (w : Work), w.Settles (cells.foldl task.cut w) := by
    intro cells
    induction cells with
    | nil => exact .refl
    | cons cell cells ih => exact fun w => (task.settles_cut w cell).trans (ih _)
  have h := hfold work.touched.toList work
  exact ⟨h.chart, h.table, h.cancelAt, h.beamDropped, h.hitCeiling⟩

/-- A beam that hides no record and leaves none without a derivation. -/
def HidesNothing (task : Task) : Prop :=
  if task.pass = .first then task.parser.config.firstPassBeam = none
  else 0 < task.parser.config.beamSize

end Task

/-! ## Sound works -/

namespace Work

/-- What holds of every work that a pass comes to, from whatever table it starts. -/
structure WellKept (work : Work) : Prop where
  keyed : work.chart.Keyed
  uniform : work.chart.Uniform
  sized : work.chart.Sized
  executed : ∀ key, ∀ d ∈ work.chart.derivationsOf key, d.outcome = some d.formula.execute

/-- What holds of every work that a pass comes to from a table that refers back. -/
structure Sound (work : Work) : Prop extends WellKept work where
  refersBack : work.table.RefersBack
  /-- Every number that is used has a sense. -/
  known : ∀ key, work.chart.Holds key → ∃ s, work.table.sense? key.meaning = some s
  /-- The derivations of a record have the sense of its number. -/
  sense? : ∀ key, ∀ d ∈ work.chart.derivationsOf key, work.table.sense? key.meaning = some d.sense

/-- Nothing is hidden, and the entries are all records. -/
structure Open (work : Work) : Prop where
  readable : work.chart.Readable
  numEntries : work.chart.numEntries = work.chart.size

theorem not_holds_start (table : MeaningTable) (cancelAt : Option Nat) (key : BackPointer) :
    ¬ (start table cancelAt).chart.Holds key := by
  rintro ⟨record, hr⟩
  cases hr

theorem not_mem_derivationsOf_start (table : MeaningTable) (cancelAt : Option Nat)
    (key : BackPointer) (d : Derivation) :
    d ∉ (start table cancelAt).chart.derivationsOf key :=
  fun hd => not_holds_start table cancelAt key (Chart.holds_of_mem_derivationsOf hd)

theorem wellKept_start (table : MeaningTable) (cancelAt : Option Nat) :
    (start table cancelAt).WellKept where
  keyed key record hr := absurd ⟨record, hr⟩ (not_holds_start table cancelAt key)
  uniform key _ d hd := absurd hd (not_mem_derivationsOf_start table cancelAt key d)
  sized := Chart.sized_empty
  executed key d hd := absurd hd (not_mem_derivationsOf_start table cancelAt key d)

theorem sound_start {table : MeaningTable} (h : table.RefersBack) (cancelAt : Option Nat) :
    (start table cancelAt).Sound where
  toWellKept := wellKept_start table cancelAt
  refersBack := h
  known key hk := absurd hk (not_holds_start table cancelAt key)
  sense? key d hd := absurd hd (not_mem_derivationsOf_start table cancelAt key d)

theorem open_start (table : MeaningTable) (cancelAt : Option Nat) :
    (start table cancelAt).Open where
  readable key record hr := absurd ⟨record, hr⟩ (not_holds_start table cancelAt key)
  numEntries := rfl

end Work

theorem Task.outcome_of_mem_accepted {task : Task} {single : Bool} {application : Application}
    {d : Derivation} (h : d ∈ task.accepted single application) :
    d.outcome = some d.formula.execute := by
  obtain ⟨c, -, -, rfl⟩ := mem_accepted.1 h
  rw [outcome_finished, formula_finished]

/-- Whatever a step finds was executed. -/
theorem Task.outcome_of_mem_findings {task : Task} {step : Step} {work : Work}
    {cs : List (List Child)} {groups : List (List Finding)}
    (h : List.Forall₂ (task.Attempts step work) cs groups) {f : Finding} (hf : f ∈ groups.flatten) :
    f.derivation.outcome = some f.derivation.formula.execute := by
  obtain ⟨children, -, single, -, hp, -⟩ := exists_finds_of_mem h hf
  exact outcome_of_mem_accepted (mem_placements.1 hp).2

namespace Work

variable {work after : Work}

namespace WellKept

theorem adds (h : work.WellKept) {retention : Retention} {fs : List Finding}
    (ha : work.Adds retention after fs)
    (hx : ∀ f ∈ fs, f.derivation.outcome = some f.derivation.formula.execute) :
    after.WellKept where
  keyed := ha.chart ▸ h.keyed.addAll retention fs
  uniform := ha.chart ▸ h.uniform.addAll retention fs
  sized := ha.chart ▸ h.sized.addAll retention fs
  executed key d hd := by
    rw [ha.chart] at hd
    rcases Chart.mem_derivationsOf_addAll hd with hd | ⟨f, hf, rfl, rfl⟩
    · exact h.executed key d hd
    · exact hx f hf

theorem settles (h : work.WellKept) (hs : work.Settles after) : after.WellKept where
  keyed := hs.chart.keyed h.keyed
  uniform := hs.chart.uniform h.uniform
  sized := hs.chart.sized h.sized
  executed key d hd := h.executed key d (hs.chart.derivationsOf hd)

theorem runStep (h : work.WellKept) (task : Task) (step : Step) :
    (task.runStep work step).WellKept := by
  obtain ⟨groups, hall, ha⟩ := task.exists_attempts_runStep step h.keyed
  exact h.adds ha fun f hf => Task.outcome_of_mem_findings hall hf

theorem settle (h : work.WellKept) (task : Task) : (task.settle work).WellKept :=
  h.settles (task.settles_settle work)

end WellKept

namespace Sound

theorem knows (h : work.Sound) (cell : Cell) : work.table.Knows (work.children cell) :=
  fun _ hc => h.sense? _ _ (mem_derivationsOf_of_mem_children h.keyed hc)

theorem gains (h : work.Sound) {retention : Retention} {fs : List Finding}
    (hg : work.Gains retention after fs)
    (hx : ∀ f ∈ fs, f.derivation.outcome = some f.derivation.formula.execute) : after.Sound where
  toWellKept := h.toWellKept.adds hg.toAdds hx
  refersBack := hg.refersBack
  known key hk := by
    rw [hg.chart] at hk
    rcases Chart.holds_addAll.1 hk with hk | ⟨f, hf, rfl⟩
    · obtain ⟨s, hs⟩ := h.known key hk
      exact ⟨s, hg.sense?_of_sense? hs⟩
    · exact ⟨_, hg.sense? f hf⟩
  sense? key d hd := by
    rw [hg.chart] at hd
    rcases Chart.mem_derivationsOf_addAll hd with hd | ⟨f, hf, rfl, rfl⟩
    · exact hg.sense?_of_sense? (h.sense? key d hd)
    · exact hg.sense? f hf

theorem settles (h : work.Sound) (hs : work.Settles after) : after.Sound where
  toWellKept := h.toWellKept.settles hs
  refersBack := hs.table ▸ h.refersBack
  known key hk := hs.table ▸ h.known key ((hs.chart.holds key).1 hk)
  sense? key d hd := hs.table ▸ h.sense? key d (hs.chart.derivationsOf hd)

/-- What a step does to a sound work. -/
theorem exists_attempts (h : work.Sound) (task : Task) (step : Step) :
    ∃ groups, List.Forall₂ (task.Attempts step work) (work.readings step) groups ∧
      work.Gains task.retention (task.runStep work step) groups.flatten :=
  task.exists_gains_runStep step h.refersBack h.keyed h.knows

end Sound

theorem Sound.runStep (h : work.Sound) (task : Task) (step : Step) :
    (task.runStep work step).Sound := by
  obtain ⟨groups, hall, hg⟩ := h.exists_attempts task step
  exact h.gains hg fun f hf => Task.outcome_of_mem_findings hall hf

theorem Sound.settle (h : work.Sound) (task : Task) : (task.settle work).Sound :=
  h.settles (task.settles_settle work)

theorem Sound.leadsTo_runStep (h : work.Sound) (task : Task) (step : Step) :
    work.LeadsTo (task.runStep work step) := by
  obtain ⟨groups, -, hg⟩ := h.exists_attempts task step
  exact hg.leadsTo

theorem Open.runStep (ho : work.Open) (h : work.Sound) (task : Task) (step : Step) :
    (task.runStep work step).Open := by
  obtain ⟨groups, -, hg⟩ := h.exists_attempts task step
  exact ⟨hg.chart ▸ ho.readable.addAll _ _, hg.chart ▸ Chart.numEntries_addAll ho.numEntries⟩

theorem Open.cut (ho : work.Open) {task : Task} (ht : task.HidesNothing) (cell : Cell) :
    (task.cut work cell).Open := by
  unfold Task.HidesNothing at ht
  unfold Task.cut
  split at ht
  · rename_i hp
    rw [if_pos hp, ht]
    exact ho
  · rename_i hp
    rw [if_neg hp]
    exact ⟨ho.readable.keepBest cell ht, ho.numEntries⟩

theorem Open.settle (ho : work.Open) {task : Task} (ht : task.HidesNothing) :
    (task.settle work).Open := by
  have hfold : (work.touched.toList.foldl task.cut work).Open :=
    List.foldlRecOn work.touched.toList task.cut ho fun _ hw _ _ => hw.cut ht _
  exact ⟨hfold.readable, hfold.numEntries⟩

/-- A work that has a key of each sense that another one has in a cell has no fewer entries. -/
theorem numEntries_le_of_senses {other : Work} (h : work.Sound) (ho : work.Open) (hs : other.Sound)
    (hso : other.Open) (hholds : ∀ key, other.chart.Holds key →
      ∃ m, work.chart.Holds ⟨key.cell, m⟩ ∧ ∃ s, work.table.sense? m = some s ∧
        other.table.sense? key.meaning = some s) :
    other.chart.numEntries ≤ work.chart.numEntries := by
  choose! meaning hheld hsense using hholds
  rw [hso.numEntries, ho.numEntries, hs.sized.size_eq, h.sized.size_eq]
  refine Set.ncard_le_ncard_of_injOn (fun key => ⟨key.cell, meaning key⟩)
    (fun key hk => hheld key hk) ?_ h.sized.finite
  intro key hk another hanother he
  obtain ⟨hcell, hmeaning⟩ := BackPointer.mk.inj he
  obtain ⟨s, hs', hs''⟩ := hsense key hk
  obtain ⟨t, ht', ht''⟩ := hsense another hanother
  have hst : s = t := by
    rw [hmeaning, ht'] at hs'
    exact (Option.some.inj hs').symm
  have hnumber : key.meaning = another.meaning :=
    MeaningTable.sense?_inj hs.refersBack hs'' (hst ▸ ht'')
  exact BackPointer.ext hcell hnumber

end Work

/-! ## Blocks and plans -/

namespace Task

/-- What holds of three works, and is kept by the steps of some blocks and by the beams, holds after
the blocks. -/
theorem foldl_runBlock_rel₃ {a b c : Task} {R : Work → Work → Work → Prop}
    {blocks : List (List Step)}
    (hstep : ∀ steps ∈ blocks, ∀ step ∈ steps, ∀ u v w, R u v w →
      R (a.runStep u step) (b.runStep v step) (c.runStep w step))
    (hsettle : ∀ u v w, R u v w → R (a.settle u) (b.settle v) (c.settle w)) {u v w : Work}
    (h : R u v w) :
    R (blocks.foldl a.runBlock u) (blocks.foldl b.runBlock v) (blocks.foldl c.runBlock w) := by
  have hblock : ∀ (steps : List Step) (u v w : Work), (∀ step ∈ steps, ∀ u v w, R u v w →
      R (a.runStep u step) (b.runStep v step) (c.runStep w step)) → R u v w →
      R (steps.foldl a.runStep u) (steps.foldl b.runStep v) (steps.foldl c.runStep w) := by
    intro steps
    induction steps with
    | nil => exact fun _ _ _ _ h => h
    | cons step steps ih =>
      exact fun u v w hs h => ih _ _ _ (fun step hm => hs step (List.mem_cons_of_mem _ hm))
        (hs step List.mem_cons_self u v w h)
  induction blocks generalizing u v w with
  | nil => exact h
  | cons steps blocks ih =>
    refine ih (fun steps hs => hstep steps (List.mem_cons_of_mem _ hs)) ?_
    exact hsettle _ _ _ (hblock steps u v w (hstep steps List.mem_cons_self) h)

theorem foldl_runBlock_rel {a b : Task} {R : Work → Work → Prop} {blocks : List (List Step)}
    (hstep : ∀ steps ∈ blocks, ∀ step ∈ steps, ∀ v w, R v w →
      R (a.runStep v step) (b.runStep w step))
    (hsettle : ∀ v w, R v w → R (a.settle v) (b.settle w)) {v w : Work} (h : R v w) :
    R (blocks.foldl a.runBlock v) (blocks.foldl b.runBlock w) :=
  foldl_runBlock_rel₃ (c := b) (R := fun v w _ => R v w) (w := w)
    (fun steps hs step hm v w _ => hstep steps hs step hm v w) (fun v w _ => hsettle v w) h

theorem foldl_runBlock_induction {task : Task} {P : Work → Prop} {blocks : List (List Step)}
    (hstep : ∀ steps ∈ blocks, ∀ step ∈ steps, ∀ w, P w → P (task.runStep w step))
    (hsettle : ∀ w, P w → P (task.settle w)) {w : Work} (h : P w) :
    P (blocks.foldl task.runBlock w) :=
  foldl_runBlock_rel (a := task) (R := fun _ w => P w) (v := w)
    (fun steps hs step hm _ => hstep steps hs step hm) (fun _ => hsettle) h

/-- To see that the steps keep something, one may use what every pass keeps. -/
theorem foldl_runBlock_induction_of_wellKept {task : Task} {P : Work → Prop}
    {blocks : List (List Step)} (hstep : ∀ steps ∈ blocks, ∀ step ∈ steps, ∀ w : Work, w.WellKept →
      P w → P (task.runStep w step))
    (hsettle : ∀ w, P w → P (task.settle w)) {w : Work} (hw : w.WellKept) (h : P w) :
    P (blocks.foldl task.runBlock w) := by
  have hboth : (blocks.foldl task.runBlock w).WellKept ∧ P (blocks.foldl task.runBlock w) := by
    apply foldl_runBlock_induction (P := fun w => w.WellKept ∧ P w)
    · intro steps hsteps step hs w hw
      exact ⟨hw.1.runStep task step, hstep steps hsteps step hs w hw.1 hw.2⟩
    · intro w hw
      exact ⟨hw.1.settle task, hsettle w hw.2⟩
    · exact ⟨hw, h⟩
  exact hboth.2

/-- The same from a table that refers back. -/
theorem foldl_runBlock_induction_of_sound {task : Task} {P : Work → Prop}
    {blocks : List (List Step)} (hstep : ∀ steps ∈ blocks, ∀ step ∈ steps, ∀ w : Work, w.Sound →
      P w → P (task.runStep w step))
    (hsettle : ∀ w : Work, w.Sound → P w → P (task.settle w)) {w : Work} (hw : w.Sound) (h : P w) :
    P (blocks.foldl task.runBlock w) := by
  have hboth : (blocks.foldl task.runBlock w).Sound ∧ P (blocks.foldl task.runBlock w) := by
    apply foldl_runBlock_induction (P := fun w => w.Sound ∧ P w)
    · intro steps hsteps step hs w hw
      exact ⟨hw.1.runStep task step, hstep steps hsteps step hs w hw.1 hw.2⟩
    · intro w hw
      exact ⟨hw.1.settle task, hsettle w hw.1 hw.2⟩
    · exact ⟨hw, h⟩
  exact hboth.2

/-- What holds of no steps and a work, and is kept by every step that is done after others and by
the beams, holds of all steps of some blocks and the work after them. -/
theorem foldl_runBlock_done {task : Task} {P : List Step → Work → Prop} {blocks : List (List Step)}
    (hstep : ∀ done step rest, blocks.flatten = done ++ step :: rest →
      ∀ w, P done w → P (done ++ [step]) (task.runStep w step))
    (hsettle : ∀ done w, P done w → P done (task.settle w)) {w : Work} (h : P [] w) :
    P blocks.flatten (blocks.foldl task.runBlock w) := by
  have hsteps : ∀ (steps done rest : List Step) (w : Work), blocks.flatten = done ++ steps ++ rest →
      P done w → P (done ++ steps) (steps.foldl task.runStep w) := by
    intro steps
    induction steps with
    | nil => simp
    | cons step steps ih =>
      intro done rest w he hw
      have hnext := ih (done ++ [step]) rest (task.runStep w step) (by simp [he])
        (hstep done step (steps ++ rest) (by simp [he]) w hw)
      simpa using hnext
  have hblocks : ∀ (later : List (List Step)) (done : List Step) (w : Work),
      blocks.flatten = done ++ later.flatten → P done w →
        P (done ++ later.flatten) (later.foldl task.runBlock w) := by
    intro later
    induction later with
    | nil => simp
    | cons steps later ih =>
      intro done w he hw
      have hblock := hsettle _ _ (hsteps steps done later.flatten w (by simp [he]) hw)
      have hnext := ih (done ++ steps) (task.runBlock w steps) (by simp [he]) hblock
      simpa using hnext
  exact hblocks blocks [] w rfl h

section Plan

variable (task : Task) (useful : CategoryId → Nat → Bool)

/-- The blocks of a pass that no ceiling stops. -/
def plan : List (List Step) :=
  task.anchoredSchedule ++
    (List.range' 0 (task.parser.config.maxDepth + 1)).map (task.depthSteps useful)

theorem plan_congr {a b : Task} (hp : b.parser = a.parser) (ht : b.tokens = a.tokens) :
    b.plan useful = a.plan useful := by
  obtain ⟨parser, tokens, pass, allowed⟩ := a
  cases hp
  cases ht
  rfl

variable (table : MeaningTable) (cancelAt : Option Nat)

/-- The work after so many blocks of the plan. -/
def workAfter (n : Nat) : Work :=
  ((task.plan useful).take n).foldl task.runBlock (.start table cancelAt)

/-- The run ends after this number of blocks: after all of them, or where the ceiling stops it,
which is looked at before the floating cells of each depth. -/
structure EndsAt (n : Nat) : Prop where
  le_length : n ≤ (task.plan useful).length
  chart : (task.runWith useful table cancelAt).chart =
    (task.workAfter useful table cancelAt n).chart
  table_eq : (task.runWith useful table cancelAt).table =
    (task.workAfter useful table cancelAt n).table
  beamDropped : (task.runWith useful table cancelAt).report.beamDropped =
    (task.workAfter useful table cancelAt n).report.beamDropped
  below : ∀ i, task.anchoredSchedule.length ≤ i → i < n →
    (task.workAfter useful table cancelAt i).chart.numEntries ≤ task.parser.config.chartCeiling
  stops : n < (task.plan useful).length → task.anchoredSchedule.length ≤ n ∧
    task.parser.config.chartCeiling < (task.workAfter useful table cancelAt n).chart.numEntries ∧
    (task.runWith useful table cancelAt).report.hitCeiling = true

theorem exists_runDepths (count depth : Nat) (work : Work) :
    ∃ n ≤ count,
      (∀ i < n, (((List.range' depth i).map (task.depthSteps useful)).foldl task.runBlock
        work).chart.numEntries ≤ task.parser.config.chartCeiling) ∧
      (n = count ∧ task.runDepths useful count depth work =
          ((List.range' depth n).map (task.depthSteps useful)).foldl task.runBlock work ∨
        n < count ∧ task.parser.config.chartCeiling < (((List.range' depth n).map
            (task.depthSteps useful)).foldl task.runBlock work).chart.numEntries ∧
          task.runDepths useful count depth work =
            (((List.range' depth n).map (task.depthSteps useful)).foldl task.runBlock work).count
              fun report => { report with hitCeiling := true }) := by
  induction count generalizing depth work with
  | zero => exact ⟨0, Nat.le_refl 0, by simp, Or.inl ⟨rfl, rfl⟩⟩
  | succ count ih =>
    by_cases hc : task.parser.config.chartCeiling < work.chart.numEntries
    · refine ⟨0, Nat.zero_le _, by simp, Or.inr ⟨Nat.succ_pos _, hc, ?_⟩⟩
      rw [runDepths, if_pos hc]
      rfl
    · obtain ⟨n, hn, hbelow, hend⟩ :=
        ih (depth + 1) (task.runBlock work (task.depthSteps useful depth))
      refine ⟨n + 1, Nat.succ_le_succ hn, fun i hi => ?_, ?_⟩
      · cases i with
        | zero => exact Nat.le_of_not_lt hc
        | succ i => exact hbelow i (Nat.lt_of_succ_lt_succ hi)
      · rw [runDepths, if_neg hc]
        rcases hend with ⟨rfl, he⟩ | ⟨hlt, hover, he⟩
        · exact Or.inl ⟨rfl, he⟩
        · exact Or.inr ⟨Nat.succ_lt_succ hlt, hover, he⟩

theorem touched_foldl_runBlock (blocks : List (List Step)) {work : Work}
    (h : work.touched.toList = []) : (blocks.foldl task.runBlock work).touched.toList = [] := by
  induction blocks generalizing work with
  | nil => exact h
  | cons steps blocks ih => exact ih rfl

theorem chart_finish (work : Work) (h : work.touched.toList = []) :
    (task.finish work).chart = work.chart ∧ (task.finish work).table = work.table ∧
      (task.finish work).report.beamDropped = work.report.beamDropped ∧
      (task.finish work).report.hitCeiling = work.report.hitCeiling := by
  simp [finish, settle, h, Work.count]

/-- The plan, cut after the anchored cells and so many depths. -/
theorem workAfter_add {depth : Nat} (h : depth ≤ task.parser.config.maxDepth + 1) :
    task.workAfter useful table cancelAt (task.anchoredSchedule.length + depth) =
      ((List.range' 0 depth).map (task.depthSteps useful)).foldl task.runBlock
        (task.anchoredSchedule.foldl task.runBlock (.start table cancelAt)) := by
  have htake : (List.range' 0 (task.parser.config.maxDepth + 1)).take depth =
      List.range' 0 depth := List.take_range'_of_length_ge h
  rw [workAfter, plan, List.take_length_add_append, List.foldl_append, ← List.map_take, htake]

theorem exists_endsAt_run : ∃ n, task.EndsAt useful table cancelAt n := by
  obtain ⟨depth, hle, hbelow, hend⟩ := task.exists_runDepths useful
    (task.parser.config.maxDepth + 1) 0
    (task.anchoredSchedule.foldl task.runBlock (.start table cancelAt))
  have hlength : (task.plan useful).length =
      task.anchoredSchedule.length + (task.parser.config.maxDepth + 1) := by
    simp [plan]
  have hafter := task.workAfter_add useful table cancelAt hle
  have htouched : (task.workAfter useful table cancelAt
      (task.anchoredSchedule.length + depth)).touched.toList = [] :=
    task.touched_foldl_runBlock _ rfl
  have hbelow' : ∀ i, task.anchoredSchedule.length ≤ i →
      i < task.anchoredSchedule.length + depth →
      (task.workAfter useful table cancelAt i).chart.numEntries ≤
        task.parser.config.chartCeiling := by
    intro i hi hlt
    obtain ⟨d, rfl⟩ := Nat.exists_eq_add_of_le hi
    have hd : d < depth := Nat.lt_of_add_lt_add_left hlt
    rw [task.workAfter_add useful table cancelAt (Nat.le_trans (Nat.le_of_lt hd) hle)]
    exact hbelow d hd
  rw [← hafter] at hend
  rcases hend with ⟨rfl, he⟩ | ⟨hlt, hover, he⟩
  · have hrun : task.runWith useful table cancelAt = task.finish _ := congrArg task.finish he
    obtain ⟨hc, ht, hb, -⟩ := task.chart_finish _ htouched
    rw [← hrun] at hc ht hb
    exact ⟨_, Nat.le_of_eq hlength.symm, hc, ht, hb, hbelow', fun hlt => absurd hlt (by omega)⟩
  · have hrun : task.runWith useful table cancelAt = task.finish _ := congrArg task.finish he
    obtain ⟨hc, ht, hb, hh⟩ := task.chart_finish
      ((task.workAfter useful table cancelAt (task.anchoredSchedule.length + depth)).count
        fun report => { report with hitCeiling := true }) htouched
    rw [← hrun] at hc ht hb hh
    exact ⟨_, Nat.le_trans (Nat.add_le_add_left hle _) (Nat.le_of_eq hlength.symm), hc, ht, hb,
      hbelow', fun _ => ⟨Nat.le_add_right _ _, hover, hh⟩⟩

variable {task useful table cancelAt}

/-- A run that the ceiling did not stop went through the whole plan. -/
theorem EndsAt.eq_length {n : Nat} (h : task.EndsAt useful table cancelAt n)
    (hno : (task.runWith useful table cancelAt).report.hitCeiling = false) :
    n = (task.plan useful).length := by
  refine Nat.le_antisymm h.le_length (Nat.le_of_not_lt fun hlt => ?_)
  have hstop := (h.stops hlt).2.2
  rw [hno] at hstop
  cases hstop

/-- A run whose chart never grows too large goes through the whole plan. -/
theorem EndsAt.eq_length_of_le {n : Nat} (h : task.EndsAt useful table cancelAt n)
    (hle : ∀ i, task.anchoredSchedule.length ≤ i → i < (task.plan useful).length →
      (task.workAfter useful table cancelAt i).chart.numEntries ≤
        task.parser.config.chartCeiling) :
    n = (task.plan useful).length := by
  refine Nat.le_antisymm h.le_length (Nat.le_of_not_lt fun hlt => ?_)
  obtain ⟨hge, hover, -⟩ := h.stops hlt
  exact absurd (hle n hge hlt) (Nat.not_le_of_lt hover)

/-! ### Sound runs -/

theorem workAfter_induction {P : Work → Prop}
    (hstep : ∀ steps ∈ task.plan useful, ∀ step ∈ steps, ∀ w, P w → P (task.runStep w step))
    (hsettle : ∀ w, P w → P (task.settle w)) (h : P (.start table cancelAt)) (n : Nat) :
    P (task.workAfter useful table cancelAt n) :=
  foldl_runBlock_induction (fun steps hs => hstep steps (List.mem_of_mem_take hs)) hsettle h

theorem workAfter_induction_of_wellKept {P : Work → Prop}
    (hstep : ∀ steps ∈ task.plan useful, ∀ step ∈ steps, ∀ w : Work, w.WellKept →
      P w → P (task.runStep w step))
    (hsettle : ∀ w, P w → P (task.settle w)) (h : P (.start table cancelAt)) (n : Nat) :
    P (task.workAfter useful table cancelAt n) :=
  foldl_runBlock_induction_of_wellKept (fun steps hs => hstep steps (List.mem_of_mem_take hs))
    hsettle (Work.wellKept_start table cancelAt) h

theorem wellKept_workAfter (n : Nat) : (task.workAfter useful table cancelAt n).WellKept :=
  workAfter_induction (fun _ _ step _ _ hw => hw.runStep task step) (fun _ hw => hw.settle task)
    (Work.wellKept_start table cancelAt) n

theorem sound_workAfter (h : table.RefersBack) (n : Nat) :
    (task.workAfter useful table cancelAt n).Sound :=
  workAfter_induction (fun _ _ step _ _ hw => hw.runStep task step) (fun _ hw => hw.settle task)
    (Work.sound_start h cancelAt) n

theorem exists_sound_run (task : Task) (useful : CategoryId → Nat → Bool) (h : table.RefersBack)
    (cancelAt : Option Nat) :
    ∃ work : Work, work.Sound ∧ (task.runWith useful table cancelAt).chart = work.chart ∧
      (task.runWith useful table cancelAt).table = work.table := by
  obtain ⟨n, hn⟩ := task.exists_endsAt_run useful table cancelAt
  exact ⟨_, sound_workAfter h n, hn.chart, hn.table_eq⟩

theorem keyed_build (task : Task) (h : table.RefersBack) (cancelAt : Option Nat) :
    (task.build table cancelAt).chart.Keyed := by
  obtain ⟨work, hw, hchart, -⟩ := task.exists_sound_run task.parser.depthBounds.admits h cancelAt
  have hk := hw.keyed
  rw [← hchart] at hk
  exact hk

theorem refersBack_build (task : Task) (h : table.RefersBack) (cancelAt : Option Nat) :
    (task.build table cancelAt).table.RefersBack := by
  obtain ⟨work, hw, -, htable⟩ := task.exists_sound_run task.parser.depthBounds.admits h cancelAt
  have hr := hw.refersBack
  rw [← htable] at hr
  exact hr

theorem open_workAfter (h : table.RefersBack) (ht : task.HidesNothing) (n : Nat) :
    (task.workAfter useful table cancelAt n).Open :=
  foldl_runBlock_induction_of_sound (fun _ _ step _ _ hw ho => ho.runStep hw task step)
    (fun _ _ ho => ho.settle ht) (Work.sound_start h cancelAt) (Work.open_start table cancelAt)

theorem workAfter_of_le {m n : Nat} (h : m ≤ n) :
    task.workAfter useful table cancelAt n = (((task.plan useful).take n).drop m).foldl
      task.runBlock (task.workAfter useful table cancelAt m) := by
  have htake : ((task.plan useful).take n).take m = (task.plan useful).take m := by
    rw [List.take_take, Nat.min_eq_left h]
  rw [workAfter, ← List.take_append_drop m ((task.plan useful).take n), List.foldl_append, htake,
    workAfter, ← htake, List.take_append_drop]

theorem beamDropped_workAfter_le {m n : Nat} (hmn : m ≤ n) :
    (task.workAfter useful table cancelAt m).report.beamDropped ≤
      (task.workAfter useful table cancelAt n).report.beamDropped := by
  rw [workAfter_of_le hmn]
  apply foldl_runBlock_induction_of_wellKept (P := fun w =>
    (task.workAfter useful table cancelAt m).report.beamDropped ≤ w.report.beamDropped)
  · intro steps _ step _ w hw hle
    obtain ⟨groups, -, hadds⟩ := task.exists_attempts_runStep step hw.keyed
    exact hle.trans hadds.beamDropped.ge
  · exact fun w hle => hle.trans (task.settles_settle w).beamDropped
  · exact wellKept_workAfter m
  · exact Nat.le_refl _

theorem leadsTo_workAfter (h : table.RefersBack) {m n : Nat} (hmn : m ≤ n) :
    (task.workAfter useful table cancelAt m).LeadsTo
      (task.workAfter useful table cancelAt n) := by
  rw [workAfter_of_le hmn]
  exact foldl_runBlock_induction_of_sound
    (P := fun w => (task.workAfter useful table cancelAt m).LeadsTo w)
    (fun _ _ step _ _ hw hl => hl.trans (hw.leadsTo_runStep task step))
    (fun w _ hl => hl.trans (task.settles_settle w).leadsTo) (sound_workAfter h m) (.refl _)

end Plan

end Task

end GuidedChart
