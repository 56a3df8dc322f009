import GuidedChart.Proofs.Construction.Trailing

/-!
# What a pass holds that is cancelled

A second pass that is cancelled fills root cells to the end, with what is there, and no other cell,
so what it has outside the root cells is a part of what it would have come to (`Task.Curtails`). The
root cells hold a part as well, and the roots are complete: one that rests on nothing but what had
been filed before is found (`Task.RootComplete`).

The latter is so unless the pass is kept to a list of ways to root cells that names numbers not
given yet. Such a list may open to the cancelled pass a way that is closed to the other, and close
one that is open (`Parser.exists_derivation_of_cancelled`).
-/

namespace GuidedChart

/-! ## Whole passes -/

namespace Task

variable {task : Task} {useful : CategoryId → Nat → Bool} {table : MeaningTable} {time : Nat}

theorem beamDropped_settle_workAt
    (hb : (task.workAfter useful table none (task.plan useful).length).report.beamDropped = 0)
    {n : Nat} {block : List Step} (hblock : (task.plan useful)[n]? = some block) :
    (task.settle (task.workAt useful table none n block.length)).report.beamDropped = 0 := by
  rw [← workAfter_succ hblock]
  exact Nat.le_zero.1
    (hb ▸ beamDropped_workAfter_le (Nat.succ_le_of_lt (List.getElem?_eq_some_iff.1 hblock).1))

/-- A pass is not stopped before its first block. -/
theorem EndsAt.pos {cancelAt : Option Nat} {N : Nat} (h : task.EndsAt useful table cancelAt N) :
    0 < N := by
  refine Nat.pos_of_ne_zero ?_
  rintro rfl
  have hplan : 0 < (task.plan useful).length := by
    simp [plan]
  exact absurd (h.stops hplan).2.1 (Nat.not_lt_zero _)

section Later

variable (hl : task.pass ≠ .first) (ht : task.HidesNothing) (h : table.RefersBack)

include hl ht h

theorem trails_workAt (n j : Nat) :
    Work.Trails task time (task.workAt useful table none n j)
      (task.workAt useful table (some time) n j) :=
  workAt_rel (fun _ hsteps _ hstep _ _ htrails =>
      htrails.runStep hl (level_of_mem_plan hsteps hstep))
    (fun _ _ htrails => htrails.settle hl ht) (Work.Trails.start task h time) n j

theorem trails_workAfter (n : Nat) :
    Work.Trails task time (task.workAfter useful table none n)
      (task.workAfter useful table (some time) n) :=
  trails_workAt hl ht h n 0

/-- Where the beam drops nothing from a pass that is never cancelled, it finds nothing to drop
outside the root cells of one that is cancelled. -/
theorem length_le_workAt
    (hb : (task.workAfter useful table none (task.plan useful).length).report.beamDropped = 0)
    {n : Nat} {block : List Step} (hblock : (task.plan useful)[n]? = some block) {cell : Cell}
    (hcell : cell.category ≠ task.parser.grammar.root) :
    ∀ record ∈ (task.workAt useful table (some time) n block.length).chart.entries cell,
      record.derivations.toList.length ≤ task.parser.config.beamSize := by
  have htrails : Work.Trails task time (task.workAt useful table none n block.length)
      (task.workAt useful table (some time) n block.length) := trails_workAt hl ht h n _
  have hz := beamDropped_settle_workAt hb hblock
  have hbounds := htrails.bounded (Nat.le_zero.1 (hz ▸ (task.settles_settle _).beamDropped))
  exact htrails.length_le hl hz (hbounds.within cell hcell)

/-- Wherever a cancelled pass ends, it has nothing outside the root cells that the other one has not
in the end. If it is stopped earlier, it had been cancelled, and so it would not add to those cells
any more. -/
theorem derivations_subperm_of_endsAt {N : Nat} (hN : task.EndsAt useful table (some time) N)
    (hfull : task.EndsAt useful table none (task.plan useful).length)
    (hb : (task.workAfter useful table none (task.plan useful).length).report.beamDropped = 0)
    {cell : Cell} (hcell : cell.category ≠ task.parser.grammar.root) :
    ((task.workAfter useful table (some time) N).chart.derivations cell).Subperm
      ((task.workAfter useful table none (task.plan useful).length).chart.derivations cell) := by
  have htrails : Work.Trails task time (task.workAfter useful table none (task.plan useful).length)
      (task.workAfter useful table (some time) (task.plan useful).length) :=
    trails_workAfter hl ht h _
  have hwithin := (htrails.bounded hb).within cell hcell
  rcases hN.le_length.eq_or_lt with rfl | hlt
  · exact hwithin
  · obtain ⟨hge, hover, -⟩ := hN.stops hlt
    have hcancelled : (task.workAfter useful table (some time) N).isCancelled = true := by
      by_contra hc
      have hsame := (trails_workAfter hl ht h N).same (Bool.eq_false_iff.2 hc)
      rw [hsame] at hover
      exact absurd (hfull.below N hge hlt) (Nat.not_le_of_lt hover)
    have hkeeps : (task.workDuring useful table (some time) N 0 0).Keeps task.parser.grammar.root
        (task.workAfter useful table (some time) (task.plan useful).length) :=
      keeps_workDuring hl h ht (Nat.le_refl _) (fun m block _ hblock cell =>
        length_le_workAt hl ht h hb hblock) hlt
    rw [workDuring_zero] at hkeeps
    have hrecords := hkeeps.recordsOf hcancelled cell hcell
    rwa [Chart.derivations, Chart.entries, hrecords] at hwithin

/-- If the list names nothing for root cells that was not numbered when the pass is cancelled, it
follows the one that is never cancelled up to its end. -/
theorem follows_workAfter {N : Nat} (hN : task.EndsAt useful table (some time) N)
    (hb : (task.workAfter useful table none N).report.beamDropped = 0)
    (hknown : ∀ n j k, n < N →
      (task.workDuring useful table (some time) n j k).isCancelled = true →
        task.ListsKnown (task.workDuring useful table (some time) n j k).table) :
    task.Follows (task.workAfter useful table none N)
      (task.workAfter useful table (some time) N) := by
  have hboth : Work.Trails task time (task.workAfter useful table none N)
      (task.workAfter useful table (some time) N) ∧
      ((task.workAfter useful table none N).report.beamDropped = 0 →
        task.Follows (task.workAfter useful table none N)
          (task.workAfter useful table (some time) N)) := by
    -- that the beam drops nothing is known of the end only, so it is an assumption on the way
    apply workAfter_rel_of_workAt (n := 0) (j := 0) (R := fun full short =>
      Work.Trails task time full short ∧ (full.report.beamDropped = 0 → task.Follows full short))
    · exact hN.le_length
    · rintro n j step hn hstep ⟨htrails, hfollows⟩
      obtain ⟨block, hblock, hat⟩ := stepAt?_eq_some_iff.1 hstep
      have hlevel : step.Level :=
        level_of_mem_plan (List.mem_of_getElem? hblock) (List.mem_of_getElem? hat)
      obtain ⟨groups, -, hg⟩ := htrails.soundFull.exists_attempts task step
      refine ⟨htrails.runStep hl hlevel, fun hz => ?_⟩
      have hz' := hg.beamDropped ▸ hz
      refine (hfollows hz').runStep htrails hl hlevel hz' fun k => ?_
      rw [← workDuring_eq hstep]
      exact hknown n j k hn
    · rintro n block - - ⟨htrails, hfollows⟩
      refine ⟨htrails.settle hl ht, fun hz => ?_⟩
      exact (hfollows (Nat.le_zero.1 (hz ▸ (task.settles_settle _).beamDropped))).settle htrails hl
        hz
    · exact hN.pos
    · refine ⟨trails_workAt hl ht h 0 0, fun _ => .start task table time fun hc => ?_⟩
      have hfirst := hknown 0 0 0 hN.pos
      rw [workDuring_zero] at hfirst
      exact hfirst hc
  exact hboth.2 hb

end Later

/-- If the ceiling does not stop a pass, it does not stop the pass where it is cancelled. -/
theorem EndsAt.eq_length_of_follows {N : Nat} (hN : task.EndsAt useful table (some time) N)
    (hfull : task.EndsAt useful table none (task.plan useful).length)
    (htrails : Work.Trails task time (task.workAfter useful table none N)
      (task.workAfter useful table (some time) N))
    (hfollows : task.Follows (task.workAfter useful table none N)
      (task.workAfter useful table (some time) N)) :
    N = (task.plan useful).length := by
  refine Nat.le_antisymm hN.le_length (Nat.le_of_not_lt fun hlt => ?_)
  obtain ⟨hge, hover, -⟩ := hN.stops hlt
  exact absurd ((hfollows.numEntries_le htrails).trans (hfull.below N hge hlt))
    (Nat.not_le_of_lt hover)

end Task

/-- The work of a pass after so many blocks of its plan, so many steps of the next block and so many
applications of the next step. -/
def Task.moment (task : Task) (table : MeaningTable) (cancelAt : Option Nat) (n j k : Nat) : Work :=
  task.workDuring task.parser.depthBounds.admits table cancelAt n j k

/-- What a pass does that is cancelled at this time and ends after so many blocks. -/
structure Task.Curtails (task : Task) (table : MeaningTable) (time N : Nat) : Prop where
  /-- From the time on, no record outside the root cells is made or extended. -/
  frozen : ∀ n j k, n < N → (task.moment table (some time) n j k).isCancelled = true →
    ∀ cell, cell.category ≠ task.parser.grammar.root →
      (task.build table (some time)).chart.recordsOf cell =
        (task.moment table (some time) n j k).chart.recordsOf cell
  /-- Every application to a root cell is carried out as if there were no time. -/
  attended : ∀ n j k step children, task.stepAt? task.parser.depthBounds.admits n j = some step →
    ((task.moment table (some time) n j 0).readings step)[k]? = some children →
    step.target.category = task.parser.grammar.root →
      task.moment table (some time) n j (k + 1) =
        (task.apply step.rule step.target children
          ((task.moment table (some time) n j k).dueAt none)).dueAt (some time)
  /-- Outside the root cells nothing is found that would not have been found in the same cell. -/
  within : ∀ cell, cell.category ≠ task.parser.grammar.root →
    ((task.build table (some time)).chart.derivations cell).Subperm
      ((task.build table none).chart.derivations cell)

/-- What a pass leaves behind in the root cells that is cancelled at this time and ends after so
many blocks, beside what it would have left if it had not been cancelled. -/
structure Task.RootComplete (task : Task) (table : MeaningTable) (time N : Nat) : Prop where
  /-- The pass goes through its whole plan. -/
  finished : N = (task.plan task.parser.depthBounds.admits).length
  /-- No root is found that would not have been found in the same cell. -/
  within : ∀ cell, cell.category = task.parser.grammar.root →
    ((task.build table (some time)).chart.derivations cell).Subperm
      ((task.build table none).chart.derivations cell)
  /-- A root is found if all it is made of outside the root cells had been filed in time. -/
  rooted : ∀ cell, cell.category = task.parser.grammar.root →
    ∀ d ∈ (task.build table none).chart.derivations cell,
      d.RestsOn task.parser.grammar.root (fun source node => ∃ n j k, n < N ∧
        (task.moment table (some time) n j k).clock ≤ time ∧
          node ∈ (task.moment table (some time) n j k).chart.derivations source) cell →
      d ∈ (task.build table (some time)).chart.derivations cell

/-- Whenever a second pass is cancelled that would have dropped nothing and not have been stopped by
the ceiling, it does no more outside the root cells, where it has a part of what it would have had,
and goes on in them. Its roots are complete unless it is kept to a list that names, in ways to root
cells, numbers that are not given yet. -/
theorem Parser.rootComplete {grammar : Grammar} {config : Config} {scorer : Scorer}
    {parser : Parser} (hparser : Parser.ofConfig grammar config scorer = .ok parser)
    {ex : Example} {allowed : Option (Numbering Ingredient)} {table : MeaningTable}
    (htable : table.RefersBack)
    (hdrops : ((parser.secondTask ex allowed).build table none).report.beamDropped = 0)
    (hceiling : ((parser.secondTask ex allowed).build table none).report.hitCeiling = false)
    (time : Nat) :
    ∃ N, (parser.secondTask ex allowed).EndsAt parser.depthBounds.admits table (some time) N ∧
      (parser.secondTask ex allowed).Curtails table time N ∧
      ((∀ n j k, n < N →
          ((parser.secondTask ex allowed).moment table (some time) n j k).isCancelled = true →
            (parser.secondTask ex allowed).ListsKnown
              ((parser.secondTask ex allowed).moment table (some time) n j k).table) →
        (parser.secondTask ex allowed).RootComplete table time N) := by
  obtain ⟨rfl, rfl, hpruner⟩ := Parser.eq_of_ofConfig hparser
  let task := parser.secondTask ex allowed
  let useful := parser.depthBounds.admits
  have hl : task.pass ≠ .first := nofun
  have ht : task.HidesNothing := Config.beamSize_pos_of_pruner hpruner
  obtain ⟨M, hM⟩ := task.exists_endsAt_run useful table none
  obtain rfl := hM.eq_length hceiling
  obtain ⟨N, hN⟩ := task.exists_endsAt_run useful table (some time)
  have hb : (task.workAfter useful table none (task.plan useful).length).report.beamDropped = 0 :=
    hM.beamDropped.symm.trans hdrops
  have hfull : (task.build table none).chart =
      (task.workAfter useful table none (task.plan useful).length).chart := hM.chart
  have hshort : (task.build table (some time)).chart =
      (task.workAfter useful table (some time) N).chart := hN.chart
  have hkeeps : ∀ n j k, n < N → (task.moment table (some time) n j k).Keeps parser.grammar.root
      (task.workAfter useful table (some time) N) := fun n j k =>
    Task.keeps_workDuring hl htable ht hN.le_length fun m block _ hblock cell =>
      Task.length_le_workAt hl ht htable hb hblock
  refine ⟨N, hN, ⟨fun n j k hn hc cell hcell => ?_, fun n j k step children hstep hc hroot => ?_,
    fun cell hcell => ?_⟩, fun hknown => ?_⟩
  · rw [hshort]
    exact (hkeeps n j k hn).recordsOf hc cell hcell
  · rw [Task.moment, Task.workDuring_zero] at hc
    exact Task.workDuring_succ_of_root hstep hc hroot
  · rw [hfull, hshort]
    exact Task.derivations_subperm_of_endsAt hl ht htable hN hM hb hcell
  · have htrails : Work.Trails task time (task.workAfter useful table none N)
        (task.workAfter useful table (some time) N) := Task.trails_workAfter hl ht htable N
    have hfollows := Task.follows_workAfter hl ht htable hN
      (Nat.le_zero.1 (hb ▸ Task.beamDropped_workAfter_le hN.le_length)) hknown
    obtain rfl := hN.eq_length_of_follows hM htrails hfollows
    refine ⟨rfl, fun cell _ => ?_, fun cell hroot d hd hrests => ?_⟩
    · rw [hfull, hshort]
      exact hfollows.within cell
    · rw [hfull] at hd
      rw [hshort]
      refine hfollows.rooted cell hroot d hd fun source node hnode hne => ?_
      obtain ⟨n, j, k, hn, -, hmem⟩ := hrests source node hnode hne
      obtain ⟨meaning, htraced⟩ := htrails.traced hd
      have hcategory := hnode.category_eq htraced.category_eq
      exact (hkeeps n j k hn).derivations source (hcategory ▸ hne) hmem

/-- Cancelled after the first of two numbers, a pass adds that number to itself and has no other
sum; left alone, it comes to four. -/
theorem Parser.rootComplete_arithmetic :
    let allowed := Numbering.ofList [⟨.anchored 0 0 1, 0, none, none⟩,
      ⟨.anchored 0 1 2, 0, none, none⟩, ⟨.floating 0 0, 0, none, none⟩,
      ⟨.floating 1 1, 1, some 0, some 0⟩]
    let table := (MeaningTable.empty.intern (.value (.number 3))).1
    let task := Parser.arithmetic.secondTask ⟨["three", "three"], none⟩ (some allowed)
    ((task.build table none).chart.derivations (.floating 1 1)).length = 4 ∧
      ((task.build table (some 1)).chart.derivations (.floating 1 1)).length = 1 ∧
      (task.moment table (some 1) 0 0 1).isCancelled = true ∧
      ∃ N, task.Curtails table 1 N ∧ task.RootComplete table 1 N := by
  intro allowed table task
  have htable : table.RefersBack := MeaningTable.refersBack_empty.intern trivial
  have hlist : task.ListsKnown table := by
    rintro ways ⟨⟩
    decide +kernel
  have hpass : ∃ N, task.EndsAt Parser.arithmetic.depthBounds.admits table (some 1) N ∧
      task.Curtails table 1 N ∧ ((∀ n j k, n < N →
        (task.moment table (some 1) n j k).isCancelled = true →
          task.ListsKnown (task.moment table (some 1) n j k).table) →
        task.RootComplete table 1 N) :=
    Parser.rootComplete Parser.ofConfig_arithmetic htable (by decide +kernel) (by decide +kernel) 1
  obtain ⟨N, -, hcurtails, hcomplete⟩ := hpass
  exact ⟨by decide +kernel, by decide +kernel, by decide +kernel, N, hcurtails,
    hcomplete fun n j k _ _ => hlist.mono (task.senses_workDuring n j k)⟩

/-- Two numbers, one of them a root by itself, and the roots that repeat a root or a number. -/
def Grammar.repeats : Grammar where
  categories := ["$Num", "$ROOT"]
  rules :=
    [⟨0, ⟨"$Num", 0⟩, [], true, .constant (.value (.number 5))⟩,
      ⟨1, ⟨"$ROOT", 1⟩, [], true, .constant (.value (.number 1))⟩,
      ⟨2, ⟨"$ROOT", 1⟩, [.nonterminal ⟨"$ROOT", 1⟩], true, .identity⟩,
      ⟨3, ⟨"$ROOT", 1⟩, [.nonterminal ⟨"$Num", 0⟩], true, .identity⟩]
  promotions := []

theorem Grammar.accepted_repeats : Grammar.repeats.Accepted := by
  have hnumber : GrammarBuilder.empty.addRule "$Num" [] true (.constant (.value (.number 5))) =
      .ok (⟨["$Num"], repeats.rules.take 1⟩, 0) := rfl
  have hroot : GrammarBuilder.addRule ⟨["$Num"], repeats.rules.take 1⟩ "$ROOT" [] true
      (.constant (.value (.number 1))) = .ok (⟨["$Num", "$ROOT"], repeats.rules.take 2⟩, 1) := rfl
  have hagain : GrammarBuilder.addRule ⟨["$Num", "$ROOT"], repeats.rules.take 2⟩ "$ROOT" ["$ROOT"]
      true .identity = .ok (⟨["$Num", "$ROOT"], repeats.rules.take 3⟩, 2) := rfl
  have hrepeat : GrammarBuilder.addRule ⟨["$Num", "$ROOT"], repeats.rules.take 3⟩ "$ROOT" ["$Num"]
      true .identity = .ok (⟨["$Num", "$ROOT"], repeats.rules⟩, 3) := rfl
  exact ⟨_, (((GrammarBuilder.Made.empty.addRule hnumber).addRule hroot).addRule hagain).addRule
    hrepeat, rfl⟩

/-- A list may name a number that the table does not have yet. Left alone, a pass numbers the five
before the one; if it is cancelled at once, the one is the first number. So a list that lets number
zero be repeated lets the cancelled pass repeat the one, and a list that lets number one be repeated
lets only the other pass do so. -/
theorem Parser.exists_derivation_of_cancelled :
    let parser : Parser := ⟨.repeats, { maxDepth := 1 }, [.emptyValue], fun _ => 0.0⟩
    let task (id : MeaningId) : Task := parser.secondTask ⟨["x"], none⟩ (some (Numbering.ofList
      [⟨.floating 0 0, 0, none, none⟩, ⟨.floating 1 0, 1, none, none⟩,
        ⟨.floating 1 1, 2, some id, none⟩]))
    Grammar.repeats.Accepted ∧
      Parser.ofConfig .repeats { maxDepth := 1 } (fun _ => 0.0) = .ok parser ∧
      (∀ id ∈ [0, 1], ((task id).build .empty none).report.beamDropped = 0 ∧
        ((task id).build .empty none).report.hitCeiling = false) ∧
      (∃ d ∈ ((task 0).build .empty (some 0)).chart.derivations (.floating 1 1),
        d ∉ ((task 0).build .empty none).chart.derivations (.floating 1 1)) ∧
      ∃ d ∈ ((task 1).build .empty none).chart.derivations (.floating 1 1),
        d.RestsOn parser.grammar.root (fun _ _ => False) (.floating 1 1) ∧
          d ∉ ((task 1).build .empty (some 0)).chart.derivations (.floating 1 1) := by
  intro parser task
  have hmore : ((task 0).build .empty (some 0)).chart.derivations (.floating 1 1) ≠ [] := by
    rw [ne_eq, ← List.isEmpty_iff]
    decide +kernel
  have hnone : ((task 0).build .empty none).chart.derivations (.floating 1 1) = [] := by
    rw [← List.isEmpty_iff]
    decide +kernel
  have hless : ((task 1).build .empty (some 0)).chart.derivations (.floating 1 1) = [] := by
    rw [← List.isEmpty_iff]
    decide +kernel
  have hsome : ((task 1).build .empty none).chart.derivations (.floating 1 1) ≠ [] := by
    rw [ne_eq, ← List.isEmpty_iff]
    decide +kernel
  have hroots : ∀ d ∈ ((task 1).build .empty none).chart.derivations (.floating 1 1),
      d.rule.lhs.id = parser.grammar.root ∧ ∀ child ∈ d.children,
        child.rule.lhs.id = parser.grammar.root ∧ child.children.isEmpty = true := by
    decide +kernel
  obtain ⟨d, hd⟩ := List.exists_mem_of_ne_nil _ hmore
  obtain ⟨e, he⟩ := List.exists_mem_of_ne_nil _ hsome
  obtain ⟨hroot, hchildren⟩ := hroots e he
  have heverywhere : e.Everywhere (·.rule.lhs.id = parser.grammar.root) := by
    refine ⟨hroot, fun child hc => ⟨(hchildren child hc).1, fun grandchild hg => ?_⟩⟩
    rw [List.isEmpty_iff.1 (hchildren child hc).2] at hg
    cases hg
  refine ⟨Grammar.accepted_repeats, rfl, by decide +kernel, ⟨d, hd, ?_⟩,
    ⟨e, he, heverywhere.restsOn _ _, ?_⟩⟩
  · rw [hnone]
    exact List.not_mem_nil
  · rw [hless]
    exact List.not_mem_nil

end GuidedChart
