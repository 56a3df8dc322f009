import GuidedChart.Proofs.Construction.Contributions
import GuidedChart.Proofs.Construction.Order

/-!
# What a finished chart holds

A later pass that is permitted everything, is not cancelled and drops nothing holds in each cell
what its steps come to there, each derivation as often as it is come to. Because cells are complete
before they are read, that can be said of the finished chart alone: a step comes to the same, read
from the chart at the end or when it was done (`Task.Completes`). For a cell only the steps on its
own span or depth count (`Task.derivations_anchored_perm`, `Task.derivations_floating_perm`).
-/

namespace GuidedChart

namespace Task

variable {task : Task} {step : Step} {cell : Cell} {held later : Cell → List Derivation}

/-! ## Steps and what they read -/

theorem fills_eq_nil (h : ¬ task.Writes step cell) : task.fills held cell step = [] := by
  refine List.flatMap_eq_nil_iff.2 fun ds _ => if_neg ?_
  rintro ⟨hcell, -⟩
  exact h hcell

theorem fills_perm (h : ∀ source ∈ step.sources, (held source).Perm (later source)) :
    (task.fills held cell step).Perm (task.fills later cell step) := by
  refine (combinations_perm ?_).flatMap_right _
  rw [List.forall₂_map_left_iff, List.forall₂_map_right_iff, List.forall₂_same]
  exact h

/-! ## The invariant of a run -/

/-- These steps have been done, and each cell holds what they come to there. -/
structure Completes (task : Task) (done : List Step) (work : Work) : Prop where
  keyed : work.chart.Keyed
  visible : work.chart.Visible
  cancelAt : work.cancelAt = none
  derivations : work.report.beamDropped = 0 → ∀ cell,
    (work.chart.derivations cell).Perm (done.flatMap (task.fills work.chart.derivations cell))

namespace Completes

variable {done : List Step} {work : Work}

theorem start (task : Task) (table : MeaningTable) : task.Completes [] (.start table none) where
  keyed := (Work.wellKept_start table none).keyed
  visible _ _ hr := nomatch hr
  cancelAt := rfl
  derivations _ _ := .nil

theorem runStep (h : task.Completes done work) (hl : task.pass ≠ .first)
    (ha : task.allowed = none) (hs : ∀ s ∈ done ++ [step], task.Spares s step) :
    task.Completes (done ++ [step]) (task.runStep work step) := by
  obtain ⟨groups, -, hg⟩ := task.exists_attempts_runStep step h.keyed
  refine ⟨?_, ?_, hg.cancelAt.trans h.cancelAt, fun hb cell => ?_⟩
  · rw [hg.chart]
    exact h.keyed.addAll _ _
  · rw [hg.chart]
    exact h.visible.addAll _ _
  · have hadds : ∀ c, ((task.runStep work step).chart.derivations c).Perm
        (work.chart.derivations c ++ task.fills work.chart.derivations c step) :=
      Work.derivations_runStep_perm h.keyed h.visible hl ha h.cancelAt step
    -- what has been read is as it was when it was read
    have hread : ∀ s ∈ done ++ [step], (task.fills work.chart.derivations cell s).Perm
        (task.fills (task.runStep work step).chart.derivations cell s) := by
      intro s hmem
      refine fills_perm fun source hsource => ?_
      have hsame := hadds source
      rw [fills_eq_nil (hs s hmem source hsource), List.append_nil] at hsame
      exact hsame.symm
    refine (hadds cell).trans (List.Perm.trans ?_ (List.Perm.flatMap_left _ hread))
    rw [List.flatMap_append, List.flatMap_singleton]
    exact (h.derivations (hg.beamDropped.symm.trans hb) cell).append_right _

theorem settle (h : task.Completes done work) (hl : task.pass ≠ .first) :
    task.Completes done (task.settle work) := by
  have hsettles := task.settles_settle work
  refine ⟨hsettles.chart.keyed h.keyed, ?_, hsettles.cancelAt.trans h.cancelAt, fun hb cell => ?_⟩
  · have hfold : ∀ (cells : List Cell) (w : Work), w.chart.Visible →
        (cells.foldl task.cut w).chart.Visible := by
      intro cells
      induction cells with
      | nil => exact fun w hw => hw
      | cons c cells ih =>
        intro w hw
        refine ih _ ?_
        rw [chart_cut hl]
        exact hw.keepBest c _
    exact hfold work.touched.toList work h.visible
  · obtain ⟨hzero, hsmall⟩ := length_le_of_beamDropped_settle hl hb
    have hsame : (task.settle work).chart.derivations = work.chart.derivations := by
      funext c
      rw [Chart.derivations, entries_settle hl hsmall, Chart.derivations]
    rw [hsame]
    exact h.derivations hzero cell

end Completes

section Run

variable {useful : CategoryId → Nat → Bool} {table : MeaningTable}

theorem completes_workAfter (h : task.parser.grammar.Accepted) (hl : task.pass ≠ .first)
    (ha : task.allowed = none) (n : Nat) :
    task.Completes ((task.plan useful).take n).flatten (task.workAfter useful table none n) := by
  refine foldl_runBlock_done (fun done step rest he w hw => ?_)
    (fun done w hw => hw.settle hl) (Completes.start task table)
  have hsub : (done ++ step :: rest).Sublist (task.plan useful).flatten := by
    rw [← he]
    exact (List.take_sublist n _).flatten
  have hpairwise := (task.pairwise_plan useful h).sublist hsub
  have hlegal : step.Legal task.parser.grammar := by
    have hmem : step ∈ (task.plan useful).flatten :=
      hsub.subset (List.mem_append_right _ List.mem_cons_self)
    obtain ⟨steps, hsteps, hstep⟩ := List.mem_flatten.1 hmem
    exact legal_of_mem_plan h hsteps hstep
  refine hw.runStep hl ha fun s hs => ?_
  rcases List.mem_append.1 hs with hs | hs
  · exact (List.pairwise_append.1 hpairwise).2.2 s hs step List.mem_cons_self
  · rw [List.mem_singleton.1 hs]
    exact spares_self hlegal

/-- At the end of a pass that drops nothing, each cell holds what the steps come to that were
done: those on anchored cells in any case, and all of them if the ceiling did not stop the pass. -/
theorem exists_derivations_perm (h : task.parser.grammar.Accepted) (hl : task.pass ≠ .first)
    (ha : task.allowed = none) (hb : (task.runWith useful table none).report.beamDropped = 0) :
    ∃ depths ≤ task.parser.config.maxDepth + 1,
      ((task.runWith useful table none).report.hitCeiling = false →
        depths = task.parser.config.maxDepth + 1) ∧
      ∀ cell, ((task.runWith useful table none).chart.derivations cell).Perm
        ((task.anchoredSchedule.flatten ++
            (List.range' 0 depths).flatMap (task.depthSteps useful)).flatMap
          (task.fills (task.runWith useful table none).chart.derivations cell)) := by
  obtain ⟨n, hn⟩ := task.exists_endsAt_run useful table none
  have hlength : (task.plan useful).length =
      task.anchoredSchedule.length + (task.parser.config.maxDepth + 1) := by
    simp [plan]
  have hle := hn.le_length
  have hge : task.anchoredSchedule.length ≤ n := by
    rcases Nat.lt_or_ge n (task.plan useful).length with hlt | hge
    · exact (hn.stops hlt).1
    · omega
  refine ⟨n - task.anchoredSchedule.length, by omega, fun hno => ?_, fun cell => ?_⟩
  · have heq := hn.eq_length hno
    omega
  · have htake : ((task.plan useful).take n).flatten = task.anchoredSchedule.flatten ++
        (List.range' 0 (n - task.anchoredSchedule.length)).flatMap (task.depthSteps useful) := by
      rw [plan, List.take_append, List.take_of_length_le hge, ← List.map_take,
        List.take_range'_of_length_ge (by omega), List.flatten_append, List.flatMap_def]
    rw [hn.beamDropped] at hb
    rw [hn.chart, ← htake]
    exact (completes_workAfter h hl ha n).derivations hb cell

end Run

/-! ## Cell by cell -/

/-- The spans of so many tokens, in the order in which they are worked on. -/
def spans (numTokens : Nat) : List (Nat × Nat) :=
  (List.range' 1 numTokens).flatMap fun length =>
    (List.range (numTokens - length + 1)).map fun start => (start, start + length)

theorem mem_spans {numTokens start stop : Nat} :
    (start, stop) ∈ spans numTokens ↔ start < stop ∧ stop ≤ numTokens := by
  simp only [spans, List.mem_flatMap, List.mem_map, List.mem_range'_1, List.mem_range,
    Prod.mk.injEq]
  constructor
  · rintro ⟨length, hlength, s, hs, rfl, rfl⟩
    omega
  · intro h
    exact ⟨stop - start, by omega, start, by omega, rfl, by omega⟩

theorem nodup_spans (numTokens : Nat) : (spans numTokens).Nodup := by
  refine List.pairwise_flatMap.2 ⟨fun length _ => ?_,
    (List.pairwise_lt_range' 1).imp fun {length length'} hlt p hp q hq => ?_⟩
  · refine List.nodup_range.map fun s s' he => ?_
    exact (Prod.mk.inj he).1
  · obtain ⟨s, -, rfl⟩ := List.mem_map.1 hp
    obtain ⟨s', -, rfl⟩ := List.mem_map.1 hq
    intro he
    obtain ⟨rfl, hstop⟩ := Prod.mk.inj he
    omega

theorem flatten_anchoredSchedule (task : Task) :
    task.anchoredSchedule.flatten = (spans task.tokens.length).flatMap fun span =>
      task.parser.grammar.spanSteps task.tokens span.1 (span.2 - span.1) := by
  simp only [anchoredSchedule, Grammar.anchoredSchedule, spans, ← List.flatMap_def,
    List.flatMap_assoc, List.flatMap_map, Nat.add_sub_cancel_left]

section Cells

variable {category start stop depth : Nat}

/-- Only the steps on its own span come to something in an anchored cell. -/
theorem flatMap_fills_anchored (hlt : start < stop) (hle : stop ≤ task.tokens.length) :
    task.anchoredSchedule.flatten.flatMap (task.fills held (.anchored category start stop)) =
      (task.parser.grammar.spanSteps task.tokens start (stop - start)).flatMap
        (task.fills held (.anchored category start stop)) := by
  rw [flatten_anchoredSchedule, List.flatMap_assoc]
  refine flatMap_eq_of_mem (nodup_spans _) (mem_spans.2 ⟨hlt, hle⟩) ?_
  rintro ⟨i, j⟩ hspan hne
  refine List.flatMap_eq_nil_iff.2 fun step hstep => fills_eq_nil fun hw => hne ?_
  obtain ⟨within, hstep⟩ := Grammar.exists_spanStep_of_mem hstep
  rw [writes_anchored, hstep.target_eq] at hw
  obtain ⟨-, rfl, hstop⟩ := Cell.anchored.inj hw
  have hij := (mem_spans.1 hspan).1
  exact Prod.ext rfl (by omega)

/-- What a step on a span comes to in its target it comes to in the floating cell it is lifted
to. -/
theorem fills_floating_of_anchored
    (h : step.target = .anchored step.rule.lhs.id start stop) :
    task.fills held (.floating category depth) step =
      if depth = 0 ∧ task.parser.lifts category = true then
        task.fills held (.anchored category start stop) step
      else [] := by
  have hwrites : task.Writes step (.floating category depth) ↔
      (depth = 0 ∧ task.parser.lifts category = true) ∧ step.rule.lhs.id = category := by
    rw [writes_floating, h]
    simp [Cell.isAnchored, Cell.span, Span.isAnchored, Cell.category, and_assoc]
  split
  · rename_i hlifts
    refine List.flatMap_congr fun ds _ => ?_
    have hcell : (.floating category depth ∈ step.target :: (task.lift? step.target).toList) ↔
        .anchored category start stop ∈ step.target :: (task.lift? step.target).toList := by
      refine hwrites.trans (Iff.trans ?_ writes_anchored.symm)
      rw [h, and_iff_right hlifts, Cell.anchored.injEq]
      simp
    simp only [comesTo, hcell]
  · rename_i hlifts
    exact fills_eq_nil fun hw => hlifts (hwrites.1 hw).1

theorem flatMap_fills_lifted :
    task.anchoredSchedule.flatten.flatMap (task.fills held (.floating category depth)) =
      if depth = 0 ∧ task.parser.lifts category = true then
        (spans task.tokens.length).flatMap fun span =>
          (task.parser.grammar.spanSteps task.tokens span.1 (span.2 - span.1)).flatMap
            (task.fills held (.anchored category span.1 span.2))
      else [] := by
  have hspan : ∀ span ∈ spans task.tokens.length,
      (task.parser.grammar.spanSteps task.tokens span.1 (span.2 - span.1)).flatMap
          (task.fills held (.floating category depth)) =
        if depth = 0 ∧ task.parser.lifts category = true then
          (task.parser.grammar.spanSteps task.tokens span.1 (span.2 - span.1)).flatMap
            (task.fills held (.anchored category span.1 span.2))
        else [] := by
    rintro ⟨i, j⟩ hspan
    have hij := (mem_spans.1 hspan).1
    have hstep : ∀ step ∈ task.parser.grammar.spanSteps task.tokens i (j - i),
        task.fills held (.floating category depth) step =
          if depth = 0 ∧ task.parser.lifts category = true then
            task.fills held (.anchored category i j) step else [] := by
      intro step hstep
      refine fills_floating_of_anchored ?_
      obtain ⟨within, hstep⟩ := Grammar.exists_spanStep_of_mem_sub (Nat.le_of_lt hij) hstep
      exact hstep.target_eq
    rw [List.flatMap_congr hstep]
    split
    · rfl
    · exact List.flatMap_eq_nil_iff.2 fun _ _ => rfl
  rw [flatten_anchoredSchedule, List.flatMap_assoc, List.flatMap_congr hspan]
  split
  · rfl
  · exact List.flatMap_eq_nil_iff.2 fun _ _ => rfl

variable {useful : CategoryId → Nat → Bool} {table : MeaningTable}

/-- An anchored cell holds what the steps on its span come to. -/
theorem derivations_anchored_perm (h : task.parser.grammar.Accepted) (hl : task.pass ≠ .first)
    (ha : task.allowed = none) (hb : (task.runWith useful table none).report.beamDropped = 0)
    (hlt : start < stop) (hle : stop ≤ task.tokens.length) :
    ((task.runWith useful table none).chart.derivations (.anchored category start stop)).Perm
      ((task.parser.grammar.spanSteps task.tokens start (stop - start)).flatMap
        (task.fills (task.runWith useful table none).chart.derivations
          (.anchored category start stop))) := by
  obtain ⟨depths, -, -, hperm⟩ := exists_derivations_perm h hl ha hb
  refine (hperm _).trans ?_
  have hnone : ((List.range' 0 depths).flatMap (task.depthSteps useful)).flatMap
      (task.fills (task.runWith useful table none).chart.derivations
        (.anchored category start stop)) = [] := by
    refine List.flatMap_eq_nil_iff.2 fun step hstep => fills_eq_nil fun hw => ?_
    obtain ⟨depth, -, hstep⟩ := List.mem_flatMap.1 hstep
    rw [writes_anchored, (Grammar.depthStep_of_mem hstep).target_eq] at hw
    cases hw
  rw [List.flatMap_append, hnone, List.append_nil, flatMap_fills_anchored hlt hle]

/-- A floating cell holds what the steps of its depth come to; at depth zero it also holds what the
anchored cells of a category hold that is lifted. -/
theorem derivations_floating_perm (h : task.parser.grammar.Accepted) (hl : task.pass ≠ .first)
    (ha : task.allowed = none) (hb : (task.runWith useful table none).report.beamDropped = 0)
    (hc : (task.runWith useful table none).report.hitCeiling = false)
    (hle : depth ≤ task.parser.config.maxDepth) :
    ((task.runWith useful table none).chart.derivations (.floating category depth)).Perm
      ((if depth = 0 ∧ task.parser.lifts category = true then
          (spans task.tokens.length).flatMap fun span =>
            (task.runWith useful table none).chart.derivations
              (.anchored category span.1 span.2)
        else []) ++
        (task.depthSteps useful depth).flatMap
          (task.fills (task.runWith useful table none).chart.derivations
            (.floating category depth))) := by
  obtain ⟨depths, -, hdepths, hperm⟩ := exists_derivations_perm h hl ha hb
  have hfloating : ((List.range' 0 depths).flatMap (task.depthSteps useful)).flatMap
      (task.fills (task.runWith useful table none).chart.derivations
        (.floating category depth)) =
      (task.depthSteps useful depth).flatMap
        (task.fills (task.runWith useful table none).chart.derivations
          (.floating category depth)) := by
    rw [List.flatMap_assoc, hdepths hc]
    refine flatMap_eq_of_mem List.nodup_range' (by simpa using Nat.lt_succ_of_le hle) ?_
    intro d _ hne
    refine List.flatMap_eq_nil_iff.2 fun step hstep => fills_eq_nil fun hw => hne ?_
    rw [writes_floating, (Grammar.depthStep_of_mem hstep).target_eq] at hw
    rcases hw with hw | ⟨-, hanchored, -⟩
    · exact (Cell.floating.inj hw).2
    · cases hanchored
  refine (hperm _).trans ?_
  rw [List.flatMap_append, hfloating, flatMap_fills_lifted]
  refine List.Perm.append_right _ ?_
  split
  · refine List.Perm.flatMap_left _ ?_
    rintro ⟨i, j⟩ hspan
    obtain ⟨hlt, hle⟩ := mem_spans.1 hspan
    exact (derivations_anchored_perm h hl ha hb hlt hle).symm
  · exact .refl _

end Cells

end Task

end GuidedChart
