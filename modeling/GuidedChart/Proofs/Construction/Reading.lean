import GuidedChart.Proofs.Construction.Order
import GuidedChart.Proofs.Construction.Settling

/-!
# Reading a cell

A step reads its sources at one moment of the run, which is given by the number of blocks that are
done and the number of steps of the next block that are done (`Task.workAt`). A step files findings
in its target and in the cell that is lifted to (`Task.writes_of_mem_addsTo`), and the order of the
plan keeps later steps off what was read (`Task.pairwise_plan`). So a cell is complete when it is
read, and stays as it is; except for a promotion, which reads a cell of the span that is being
filled, it has been pruned as well (`Task.readsComplete`).
-/

namespace GuidedChart

namespace Task

section Moments

variable (task : Task) (useful : CategoryId → Nat → Bool)

/-- The step of a plan after so many blocks and so many steps of the next block. -/
def stepAt? (n j : Nat) : Option Step :=
  (task.plan useful)[n]?.bind (·[j]?)

/-- The work after so many blocks and so many steps of the next block. -/
def workAt (table : MeaningTable) (cancelAt : Option Nat) (n j : Nat) : Work :=
  (((task.plan useful)[n]?.getD []).take j).foldl task.runStep
    (task.workAfter useful table cancelAt n)

/-- The cells in which a step files something, whatever was filed there before. -/
def addsTo (work : Work) (step : Step) : List Cell :=
  (task.runStep { work with touched := .empty } step).touched.toList

end Moments

variable {task : Task} {useful : CategoryId → Nat → Bool} {table : MeaningTable}
  {cancelAt : Option Nat} {n j : Nat} {step : Step}

theorem stepAt?_eq_some_iff :
    task.stepAt? useful n j = some step ↔
      ∃ block, (task.plan useful)[n]? = some block ∧ block[j]? = some step := by
  rw [stepAt?, Option.bind_eq_some_iff]

theorem workAt_succ (h : task.stepAt? useful n j = some step) :
    task.workAt useful table cancelAt n (j + 1) =
      task.runStep (task.workAt useful table cancelAt n j) step := by
  obtain ⟨block, hblock, hstep⟩ := stepAt?_eq_some_iff.1 h
  obtain ⟨hlt, rfl⟩ := List.getElem?_eq_some_iff.1 hstep
  rw [workAt, workAt, hblock, Option.getD_some, List.take_succ_eq_append_getElem hlt,
    List.foldl_append]
  rfl

/-- After the last step of a block the beam is applied. -/
theorem workAfter_succ {block : List Step} (h : (task.plan useful)[n]? = some block) :
    task.workAfter useful table cancelAt (n + 1) =
      task.settle (task.workAt useful table cancelAt n block.length) := by
  obtain ⟨hlt, rfl⟩ := List.getElem?_eq_some_iff.1 h
  rw [workAt, h, Option.getD_some, List.take_length, workAfter,
    List.take_succ_eq_append_getElem hlt, List.foldl_append]
  rfl

/-- What holds of a work at the beginning, and is kept by every step of the plan and by the beam,
holds at every moment. -/
theorem workAt_induction {P : Work → Prop}
    (hstep : ∀ steps ∈ task.plan useful, ∀ step ∈ steps, ∀ w, P w → P (task.runStep w step))
    (hsettle : ∀ w, P w → P (task.settle w)) (h : P (.start table cancelAt)) (n j : Nat) :
    P (task.workAt useful table cancelAt n j) := by
  unfold workAt
  refine List.foldlRecOn _ task.runStep (workAfter_induction hstep hsettle h n)
    fun w hw step hs => ?_
  have hmem := List.mem_of_mem_take hs
  cases hblock : (task.plan useful)[n]? with
  | none =>
    rw [hblock] at hmem
    cases hmem
  | some block =>
    rw [hblock] at hmem
    exact hstep block (List.mem_of_getElem? hblock) step hmem w hw

/-- What holds of two runs at the beginning, and is kept by every step of the plan and by the beam,
holds of them at every moment. -/
theorem workAt_rel {R : Work → Work → Prop} {other : Option Nat}
    (hstep : ∀ steps ∈ task.plan useful, ∀ step ∈ steps, ∀ v w, R v w →
      R (task.runStep v step) (task.runStep w step))
    (hsettle : ∀ v w, R v w → R (task.settle v) (task.settle w))
    (h : R (.start table cancelAt) (.start table other)) (n j : Nat) :
    R (task.workAt useful table cancelAt n j) (task.workAt useful table other n j) := by
  have hafter : R (task.workAfter useful table cancelAt n) (task.workAfter useful table other n) :=
    foldl_runBlock_rel (fun steps hs => hstep steps (List.mem_of_mem_take hs)) hsettle h
  refine List.foldl_rel hafter fun step hs v w hvw => ?_
  have hmem := List.mem_of_mem_take hs
  cases hblock : (task.plan useful)[n]? with
  | none =>
    rw [hblock] at hmem
    cases hmem
  | some block =>
    rw [hblock] at hmem
    exact hstep block (List.mem_of_getElem? hblock) step hmem v w hvw

/-- What holds of two runs at one moment, and is kept by each step and each beam that is still to
come, holds of them at the end. -/
theorem workAfter_rel_of_workAt {R : Work → Work → Prop} (other : Option Nat) {N : Nat}
    (hN : N ≤ (task.plan useful).length)
    (hstep : ∀ n j step, n < N → task.stepAt? useful n j = some step →
      R (task.workAt useful table cancelAt n j) (task.workAt useful table other n j) →
        R (task.runStep (task.workAt useful table cancelAt n j) step)
          (task.runStep (task.workAt useful table other n j) step))
    (hsettle : ∀ n block, n < N → (task.plan useful)[n]? = some block →
      R (task.workAt useful table cancelAt n block.length)
          (task.workAt useful table other n block.length) →
        R (task.settle (task.workAt useful table cancelAt n block.length))
          (task.settle (task.workAt useful table other n block.length)))
    (hn : n < N)
    (h : R (task.workAt useful table cancelAt n j) (task.workAt useful table other n j)) :
    R (task.workAfter useful table cancelAt N) (task.workAfter useful table other N) := by
  -- to the end of a block, and through the beam after it
  have hblock : ∀ m i, m < N →
      R (task.workAt useful table cancelAt m i) (task.workAt useful table other m i) →
        R (task.workAfter useful table cancelAt (m + 1))
          (task.workAfter useful table other (m + 1)) := by
    intro m i hm hmoment
    have hget := List.getElem?_eq_getElem (Nat.lt_of_lt_of_le hm hN)
    -- from the last step on, it is the end of the block
    have hend : ∀ l due, (task.plan useful)[m].length ≤ l →
        task.workAt useful table due m l =
          task.workAt useful table due m (task.plan useful)[m].length := by
      intro l due hl
      rw [workAt, workAt, hget, Option.getD_some, List.take_of_length_le hl, List.take_length]
    have hlater : ∀ l, i ≤ l →
        R (task.workAt useful table cancelAt m l) (task.workAt useful table other m l) := by
      intro l hl
      induction l, hl using Nat.le_induction with
      | base => exact hmoment
      | succ l _ ih =>
        cases hat : task.stepAt? useful m l with
        | some step =>
          rw [workAt_succ hat, workAt_succ hat]
          exact hstep m l step hm hat ih
        | none =>
          rw [stepAt?, hget, Option.bind_some, List.getElem?_eq_none_iff] at hat
          rw [hend l _ hat, hend l _ hat] at ih
          rwa [hend _ _ (Nat.le_succ_of_le hat), hend _ _ (Nat.le_succ_of_le hat)]
    have hlast := hlater _ (Nat.le_max_left i (task.plan useful)[m].length)
    rw [hend _ _ (Nat.le_max_right ..), hend _ _ (Nat.le_max_right ..)] at hlast
    rw [workAfter_succ hget, workAfter_succ hget]
    exact hsettle m _ hm hget hlast
  have hall : ∀ m, n + 1 ≤ m → m ≤ N →
      R (task.workAfter useful table cancelAt m) (task.workAfter useful table other m) := by
    intro m hm
    induction m, hm using Nat.le_induction with
    | base => exact fun _ => hblock n j hn h
    | succ m _ ih => exact fun hlt => hblock m 0 hlt (ih (Nat.le_of_lt hlt))
  exact hall N hn (Nat.le_refl N)

/-- What holds at one moment of a run, and is kept by each step and each beam that is still to come,
holds at the end. -/
theorem workAfter_induction_of_workAt {P : Work → Prop} {N : Nat}
    (hN : N ≤ (task.plan useful).length)
    (hstep : ∀ n j step, n < N → task.stepAt? useful n j = some step →
      P (task.workAt useful table cancelAt n j) →
        P (task.runStep (task.workAt useful table cancelAt n j) step))
    (hsettle : ∀ n block, n < N → (task.plan useful)[n]? = some block →
      P (task.workAt useful table cancelAt n block.length) →
        P (task.settle (task.workAt useful table cancelAt n block.length)))
    (hn : n < N) (h : P (task.workAt useful table cancelAt n j)) :
    P (task.workAfter useful table cancelAt N) :=
  workAfter_rel_of_workAt (R := fun w _ => P w) cancelAt hN hstep hsettle hn h

theorem wellKept_workAt (n j : Nat) : (task.workAt useful table cancelAt n j).WellKept :=
  workAt_induction (fun _ _ step _ _ hw => hw.runStep task step) (fun _ hw => hw.settle task)
    (Work.wellKept_start table cancelAt) n j

theorem tidy_workAt (n j : Nat) : (task.workAt useful table cancelAt n j).Tidy task := by
  have hboth : (task.workAt useful table cancelAt n j).WellKept ∧
      (task.workAt useful table cancelAt n j).Tidy task := by
    apply workAt_induction (P := fun w => w.WellKept ∧ w.Tidy task)
    · intro steps _ step _ w hw
      exact ⟨hw.1.runStep task step, hw.2.runStep hw.1.keyed step⟩
    · intro w hw
      exact ⟨hw.1.settle task, hw.2.settle⟩
    · exact ⟨Work.wellKept_start table cancelAt, Work.tidy_start task table cancelAt⟩
  exact hboth.2

/-! ## What a step files -/

theorem writes_of_mem_findings {work : Work} {cs : List (List Child)}
    {groups : List (List Finding)} (h : List.Forall₂ (task.Attempts step work) cs groups)
    {f : Finding} (hf : f ∈ groups.flatten) : task.Writes step f.key.cell := by
  obtain ⟨children, -, single, -, hp, -⟩ := exists_finds_of_mem h hf
  exact mem_of_mem_places (mem_placements.1 hp).1

theorem writes_of_mem_addsTo {work : Work} (hkeyed : work.chart.Keyed) {cell : Cell}
    (h : cell ∈ task.addsTo work step) : task.Writes step cell := by
  have hkeyed' : ({ work with touched := .empty } : Work).chart.Keyed := hkeyed
  obtain ⟨groups, hall, hadds⟩ := task.exists_attempts_runStep step hkeyed'
  rcases (hadds.touched cell).1 h with hnone | ⟨f, hf, rfl⟩
  · cases hnone
  · exact writes_of_mem_findings hall hf

/-- A cell that a step does not write to is left as it is. -/
theorem runStep_of_not_writes {work : Work} (hkeyed : work.chart.Keyed) {cell : Cell}
    (h : ¬ task.Writes step cell) :
    (task.runStep work step).chart.recordsOf cell = work.chart.recordsOf cell ∧
      (cell ∉ work.touched.toList → cell ∉ (task.runStep work step).touched.toList) := by
  obtain ⟨groups, hall, hadds⟩ := task.exists_attempts_runStep step hkeyed
  have hne : ∀ f ∈ groups.flatten, f.key.cell ≠ cell := by
    rintro f hf rfl
    exact h (writes_of_mem_findings hall hf)
  refine ⟨hadds.recordsOf_eq hne, fun hcell hmem => ?_⟩
  rcases (hadds.touched cell).1 hmem with hold | ⟨f, hf, he⟩
  · exact hcell hold
  · exact hne f hf he

/-- A cell that some steps do not write to is left as it is by all of them. -/
theorem foldl_runStep_of_not_writes {steps : List Step} {work : Work} (hw : work.WellKept)
    {cell : Cell} (h : ∀ step ∈ steps, ¬ task.Writes step cell) :
    (steps.foldl task.runStep work).chart.recordsOf cell = work.chart.recordsOf cell ∧
      (cell ∉ work.touched.toList → cell ∉ (steps.foldl task.runStep work).touched.toList) := by
  induction steps generalizing work with
  | nil => exact ⟨rfl, id⟩
  | cons step steps ih =>
    obtain ⟨hrecords, htouched⟩ := runStep_of_not_writes hw.keyed (h step List.mem_cons_self)
    obtain ⟨hrecords', htouched'⟩ := ih (hw.runStep task step) fun step hs =>
      h step (List.mem_cons_of_mem _ hs)
    exact ⟨hrecords'.trans hrecords, fun hcell => htouched' (htouched hcell)⟩

/-- A cell that was pruned and that some blocks do not write to is left as it is by all of them. -/
theorem foldl_runBlock_of_not_writes {blocks : List (List Step)} {work : Work} (hw : work.WellKept)
    {cell : Cell} (hcell : cell ∉ work.touched.toList)
    (h : ∀ steps ∈ blocks, ∀ step ∈ steps, ¬ task.Writes step cell) :
    (blocks.foldl task.runBlock work).chart.recordsOf cell = work.chart.recordsOf cell := by
  have hboth : (blocks.foldl task.runBlock work).chart.recordsOf cell =
      work.chart.recordsOf cell ∧ cell ∉ (blocks.foldl task.runBlock work).touched.toList := by
    apply foldl_runBlock_induction_of_wellKept (P := fun w =>
      w.chart.recordsOf cell = work.chart.recordsOf cell ∧ cell ∉ w.touched.toList)
    · intro steps hsteps step hstep w hwell ⟨hrecords, hout⟩
      obtain ⟨hsame, htouched⟩ := runStep_of_not_writes hwell.keyed (h steps hsteps step hstep)
      exact ⟨hsame.trans hrecords, htouched hout⟩
    · intro w ⟨hrecords, hout⟩
      refine ⟨?_, nofun⟩
      rw [recordsOf_settle, if_neg hout]
      exact hrecords
    · exact hw
    · exact ⟨rfl, hcell⟩
  exact hboth.1

/-! ## Steps before and after a read -/

/-- No step writes to what it reads, or to what was read before it. -/
theorem spares_of_stepAt? (h : task.parser.grammar.Accepted) {m k : Nat} {later : Step}
    (hstep : task.stepAt? useful n j = some step) (hlater : task.stepAt? useful m k = some later)
    (hle : n < m ∨ n = m ∧ j ≤ k) : task.Spares step later := by
  obtain ⟨block, hblock, hstep⟩ := stepAt?_eq_some_iff.1 hstep
  obtain ⟨block', hblock', hlater⟩ := stepAt?_eq_some_iff.1 hlater
  obtain ⟨hwithin, hacross⟩ := List.pairwise_flatten.1 (task.pairwise_plan useful h)
  obtain ⟨hn, rfl⟩ := List.getElem?_eq_some_iff.1 hblock
  obtain ⟨hj, rfl⟩ := List.getElem?_eq_some_iff.1 hstep
  obtain ⟨hm, rfl⟩ := List.getElem?_eq_some_iff.1 hblock'
  obtain ⟨hk, rfl⟩ := List.getElem?_eq_some_iff.1 hlater
  rcases hle with hlt | ⟨rfl, hle⟩
  · exact List.pairwise_iff_getElem.1 hacross n m hn hm hlt _ (List.getElem_mem hj) _
      (List.getElem_mem hk)
  · rcases Nat.lt_or_eq_of_le hle with hlt | rfl
    · exact List.pairwise_iff_getElem.1 (hwithin _ (List.getElem_mem hn)) j k hj hk hlt
    · exact spares_self (legal_of_mem_plan h (List.getElem_mem hn) (List.getElem_mem hj))

/-- What a step that is no promotion reads is not filled in the block of the step. -/
theorem not_writes_of_mem_block (h : task.parser.grammar.Accepted) {block : List Step}
    (hblock : block ∈ task.plan useful) (hstep : step ∈ block)
    (hphase : step.rule.phase? ≠ some .promotion) {other : Step} (hother : other ∈ block)
    {source : Cell} (hs : source ∈ step.sources) : ¬ task.Writes other source := by
  rcases List.mem_append.1 hblock with hb | hb
  · obtain ⟨length, -, rfl⟩ := List.mem_map.1 hb
    obtain ⟨start, -, hstep⟩ := List.mem_flatMap.1 hstep
    obtain ⟨start', -, hother⟩ := List.mem_flatMap.1 hother
    obtain ⟨within, hstep⟩ := Grammar.exists_spanStep_of_mem hstep
    obtain ⟨within', hother⟩ := Grammar.exists_spanStep_of_mem hother
    cases within with
    | false =>
      obtain ⟨category, i, k, rfl, hlt⟩ := hstep.exists_shorter hs
      intro hw
      rw [writes_anchored, hother.target_eq] at hw
      obtain ⟨-, rfl, rfl⟩ := Cell.anchored.inj hw
      omega
    | true =>
      cases hstep with
      | promotion hrule hchild =>
        exact absurd (Grammar.mem_rulesOf.1 (h.promotions_perm.mem_iff.1 hrule)).2 hphase
  · obtain ⟨depth, -, rfl⟩ := List.mem_map.1 hb
    exact spares_of_mem_depthSteps hstep hother (Nat.le_refl depth) source hs

/-- What a step that is no promotion reads was pruned, and is left as it is from then on. -/
theorem recordsOf_of_read (h : task.parser.grammar.Accepted) {N : Nat} (hn : n < N)
    (hstep : task.stepAt? useful n j = some step)
    (hphase : step.rule.phase? ≠ some .promotion) {source : Cell} (hs : source ∈ step.sources) :
    source ∉ (task.workAt useful table cancelAt n j).touched.toList ∧
      (task.workAfter useful table cancelAt N).chart.recordsOf source =
        (task.workAt useful table cancelAt n j).chart.recordsOf source := by
  obtain ⟨block, hblock, hat⟩ := stepAt?_eq_some_iff.1 hstep
  have hmem : block ∈ task.plan useful := List.mem_of_getElem? hblock
  have hblockSpares : ∀ other ∈ block, ¬ task.Writes other source := fun other ho =>
    not_writes_of_mem_block h hmem (List.mem_of_getElem? hat) hphase ho hs
  have hwork : task.workAt useful table cancelAt n j =
      (block.take j).foldl task.runStep (task.workAfter useful table cancelAt n) := by
    rw [workAt, hblock, Option.getD_some]
  have htouched : source ∉ (task.workAt useful table cancelAt n j).touched.toList := by
    rw [hwork]
    refine (foldl_runStep_of_not_writes (wellKept_workAfter n) fun other ho =>
      hblockSpares other (List.mem_of_mem_take ho)).2 ?_
    rw [touched_workAfter]
    exact List.not_mem_nil
  refine ⟨htouched, ?_⟩
  -- the rest of the block, and the blocks after it
  have hblockDone : task.workAfter useful table cancelAt (n + 1) =
      task.settle ((block.drop j).foldl task.runStep
        (task.workAt useful table cancelAt n j)) := by
    rw [workAfter_succ hblock, hwork, ← List.foldl_append, List.take_append_drop, workAt, hblock,
      Option.getD_some, List.take_length]
  have hwell : (task.workAt useful table cancelAt n j).WellKept := wellKept_workAt n j
  obtain ⟨hrecords, hout⟩ := foldl_runStep_of_not_writes hwell fun other ho =>
    hblockSpares other (List.mem_of_mem_drop ho)
  have hnext : (task.workAfter useful table cancelAt (n + 1)).chart.recordsOf source =
      (task.workAt useful table cancelAt n j).chart.recordsOf source := by
    rw [hblockDone, recordsOf_settle, if_neg (hout htouched), hrecords]
  rw [workAfter_of_le (Nat.succ_le_of_lt hn), ← hnext]
  refine foldl_runBlock_of_not_writes (wellKept_workAfter (n + 1)) ?_ ?_
  · rw [touched_workAfter]
    exact List.not_mem_nil
  · intro steps hsteps later hlater
    obtain ⟨m, hm, rfl⟩ := List.mem_iff_getElem.1 hsteps
    obtain ⟨k, hk, rfl⟩ := List.mem_iff_getElem.1 hlater
    refine spares_of_stepAt? h hstep (m := n + 1 + m) (k := k) (stepAt?_eq_some_iff.2
      ⟨_, ?_, List.getElem?_eq_getElem hk⟩) (Or.inl (by omega)) source hs
    have hget := List.getElem?_eq_getElem hm
    rw [List.getElem?_drop, List.getElem?_take] at hget
    split at hget
    · exact hget
    · cases hget

/-! ## Complete before read -/

/-- What the steps of the first blocks of a run read is complete when they read it. -/
structure ReadsComplete (task : Task) (useful : CategoryId → Nat → Bool) (table : MeaningTable)
    (cancelAt : Option Nat) (N : Nat) : Prop where
  /-- Neither the step that reads a cell nor a later one adds anything to it. -/
  spared : ∀ n j step, n < N → task.stepAt? useful n j = some step → ∀ source ∈ step.sources,
    ∀ m k later, m < N → task.stepAt? useful m k = some later → n < m ∨ n = m ∧ j ≤ k →
      source ∉ task.addsTo (task.workAt useful table cancelAt m k) later ∧
        (task.workAt useful table cancelAt m (k + 1)).chart.recordsOf source =
          (task.workAt useful table cancelAt m k).chart.recordsOf source
  /-- Unless the step is a promotion, the beam has been applied since the last addition. -/
  pruned : ∀ n j step, n < N → task.stepAt? useful n j = some step →
    step.rule.phase? ≠ some .promotion → ∀ source ∈ step.sources,
      source ∉ (task.workAt useful table cancelAt n j).touched.toList ∧
        (task.workAt useful table cancelAt n j).Pruned task source
  /-- Unless the step is a promotion, the cell stays as it was read. -/
  kept : ∀ n j step, n < N → task.stepAt? useful n j = some step →
    step.rule.phase? ≠ some .promotion → ∀ source ∈ step.sources,
      (task.workAfter useful table cancelAt N).chart.recordsOf source =
        (task.workAt useful table cancelAt n j).chart.recordsOf source

theorem readsComplete (h : task.parser.grammar.Accepted) (N : Nat) :
    task.ReadsComplete useful table cancelAt N where
  spared n j step _ hstep source hs m k later _ hlater hle := by
    have hwell : (task.workAt useful table cancelAt m k).WellKept := wellKept_workAt m k
    have hspared := spares_of_stepAt? h hstep hlater hle source hs
    refine ⟨fun hadds => hspared (writes_of_mem_addsTo hwell.keyed hadds), ?_⟩
    rw [workAt_succ hlater]
    exact (runStep_of_not_writes hwell.keyed hspared).1
  pruned n j step hn hstep hphase source hs := by
    have htouched : source ∉ (task.workAt useful table cancelAt n j).touched.toList :=
      (recordsOf_of_read h hn hstep hphase hs).1
    exact ⟨htouched, tidy_workAt n j source htouched⟩
  kept n j step hn hstep hphase source hs := (recordsOf_of_read h hn hstep hphase hs).2

/-- In every pass, what a step reads is complete when it reads it. -/
theorem exists_readsComplete_build (task : Task) (h : task.parser.grammar.Accepted)
    (table : MeaningTable) (cancelAt : Option Nat) :
    ∃ N, task.EndsAt task.parser.depthBounds.admits table cancelAt N ∧
      task.ReadsComplete task.parser.depthBounds.admits table cancelAt N := by
  obtain ⟨N, hN⟩ := task.exists_endsAt_run task.parser.depthBounds.admits table cancelAt
  exact ⟨N, hN, readsComplete h N⟩

end Task

/-- The last block over one number reads it twice, for its sum and for its product with itself; the
product comes after the sum and finds the number as it was. -/
theorem Task.exists_readsComplete_build_arithmetic :
    let task : Task := ⟨.arithmetic, ["three"], .second, none⟩
    let useful := task.parser.depthBounds.admits
    ∃ sum product, task.stepAt? useful 2 0 = some sum ∧ task.stepAt? useful 2 1 = some product ∧
      .floating 0 0 ∈ sum.sources ∧
      .floating 0 0 ∉ task.addsTo (task.workAt useful .empty none 2 1) product ∧
      (task.workAt useful .empty none 2 0).Pruned task (.floating 0 0) := by
  intro task useful
  obtain ⟨N, hN, hcomplete⟩ :=
    task.exists_readsComplete_build Grammar.accepted_arithmetic .empty none
  have hlength : N = 3 := by
    rw [hN.eq_length (by decide +kernel)]
    decide +kernel
  obtain ⟨sum, hsum⟩ := Option.isSome_iff_exists.1
    (show (task.stepAt? useful 2 0).isSome = true by decide +kernel)
  obtain ⟨product, hproduct⟩ := Option.isSome_iff_exists.1
    (show (task.stepAt? useful 2 1).isSome = true by decide +kernel)
  have hsources : (task.stepAt? useful 2 0).map (·.sources) =
      some [.floating 0 0, .floating 0 0] := by decide +kernel
  have hphase : (task.stepAt? useful 2 0).map (·.rule.phase?) = some (some .floatingBinary) := by
    decide +kernel
  rw [hsum, Option.map_some, Option.some.injEq] at hsources hphase
  have hmem : Cell.floating 0 0 ∈ sum.sources := by
    rw [hsources]
    exact List.mem_cons_self
  have hlast : 2 < N := by omega
  refine ⟨sum, product, hsum, hproduct, hmem, ?_, ?_⟩
  · exact (hcomplete.spared 2 0 sum hlast hsum _ hmem 2 1 product hlast hproduct (by omega)).1
  · refine (hcomplete.pruned 2 0 sum hlast hsum ?_ _ hmem).2
    rw [hphase]
    decide

end GuidedChart
