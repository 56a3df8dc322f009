import GuidedChart.Proofs.Chart.Renaming
import GuidedChart.Proofs.Construction.Contributions
import GuidedChart.Proofs.Construction.Mirror
import GuidedChart.Proofs.Identification
import GuidedChart.Proofs.Renumbering
import GuidedChart.Parser.Parse

/-!
# The table a pass starts from

A pass goes on numbering meanings where the table that it is given leaves off. The table has no
other influence: from any table whatever, a pass without an allow-list builds the same chart as from
an empty one, up to the numbers by which the meanings go, and reports the same
(`Task.exists_renamed_build`).

The two passes are compared through the table that the pass from the empty table ends with: after
every step, the table of the other pass is what the first one's comes to on top of the given table
(`Work.Renumbered`).
-/

namespace GuidedChart

def Child.rename (ρ : MeaningId → MeaningId) (child : Child) : Child :=
  { child with key := child.key.rename ρ }

namespace Task

section Children

variable (task : Task) (ρ : MeaningId → MeaningId) (rule : Rule) (target : Cell) (cs : List Child)

theorem ingredient_map_rename :
    ingredient rule target (cs.map (Child.rename ρ)) = (ingredient rule target cs).rename ρ := by
  have hchild : ∀ i : Nat, (cs.map (Child.rename ρ))[i]?.map (·.key.meaning) =
      (cs[i]?.map (·.key.meaning)).map ρ := by
    intro i
    rw [List.getElem?_map, Option.map_map, Option.map_map]
    rfl
  simp only [ingredient, hchild, Ingredient.rename]

theorem application_map_rename :
    application rule target (cs.map (Child.rename ρ)) = application rule target cs := by
  rw [application, List.map_map]
  rfl

theorem overlaps_map_rename : task.overlaps (cs.map (Child.rename ρ)) = task.overlaps cs := by
  unfold overlaps
  cases task.parser.config.maxAnchorOverlap with
  | none => rfl
  | some limit =>
    match cs with
    | [] | [_] | [_, _] | _ :: _ :: _ :: _ => rfl

end Children

end Task

/-! ## Works -/

/-- The second work, with the meanings renumbered, is the first one on top of another table. The
numbers are those of a table that the first work is still to come to. -/
structure Work.Renumbered (base : MeaningTable) (final : List Meaning) (v w : Work) : Prop where
  keyed : v.chart.Keyed
  keyed' : w.chart.Keyed
  chart : v.chart.Renamed (base.renumber final).number w.chart
  table : w.table = (base.renumber v.table.keys.toList).table
  touched : w.touched = v.touched
  report : w.report = v.report
  clock : w.clock = v.clock
  cancelAt : w.cancelAt = v.cancelAt

namespace Work.Renumbered

variable {base : MeaningTable} {final : List Meaning} {v w : Work}

theorem count (h : v.Renumbered base final w) (change : PassReport → PassReport) :
    (v.count change).Renumbered base final (w.count change) :=
  { h with report := congrArg change h.report }

theorem tick (h : v.Renumbered base final w) : v.tick.Renumbered base final w.tick :=
  { h with clock := congrArg (· + 1) h.clock }

theorem isCancelled (h : v.Renumbered base final w) : w.isCancelled = v.isCancelled := by
  rw [Work.isCancelled, Work.isCancelled, h.cancelAt, h.clock]

theorem children (h : v.Renumbered base final w) (cell : Cell) :
    w.children cell = (v.children cell).map (Child.rename (base.renumber final).number) := by
  rw [Work.children, Work.children, h.chart.entries, List.flatMap_map, List.map_flatMap]
  refine List.flatMap_congr fun record _ => ?_
  rw [List.map_map]
  rfl

theorem cut (h : v.Renumbered base final w) (task : Task) (cell : Cell) :
    (task.cut v cell).Renumbered base final (task.cut w cell) := by
  unfold Task.cut
  by_cases hp : task.pass = .first
  · simp only [if_pos hp]
    cases task.parser.config.firstPassBeam with
    | none => exact h
    | some k =>
      simp only [h.chart.numHidden]
      refine Renumbered.count ?_ _
      exact { h with
        keyed := (Chart.trims_truncate _ cell k).keyed h.keyed
        keyed' := (Chart.trims_truncate _ cell k).keyed h.keyed'
        chart := h.chart.truncate cell k }
  · simp only [if_neg hp, h.chart.numDropped]
    refine Renumbered.count ?_ _
    exact { h with
      keyed := (Chart.trims_keepBest _ cell _).keyed h.keyed
      keyed' := (Chart.trims_keepBest _ cell _).keyed h.keyed'
      chart := h.chart.keepBest cell _ }

theorem settle (h : v.Renumbered base final w) (task : Task) :
    (task.settle v).Renumbered base final (task.settle w) := by
  have hcut := List.foldl_rel (l := v.touched.toList) (f := task.cut) (g := task.cut)
    (r := Work.Renumbered base final) h fun cell _ _ _ hc => hc.cut task cell
  rw [Task.settle, Task.settle, h.touched]
  exact { hcut with touched := rfl }

/-! ## Findings -/

section Steps

variable (hn : final.Nodup) (hb : Meaning.ReferBack final)
include hn hb

theorem isSingleFormula (h : v.Renumbered base final w) (key : BackPointer) :
    w.chart.isSingleFormula (key.rename (base.renumber final).number) =
      v.chart.isSingleFormula key :=
  h.chart.isSingleFormula (base.number_renumber_injective hn hb) h.keyed h.keyed' key

theorem add (h : v.Renumbered base final w) (retention : Retention) (f : Finding) :
    (v.add retention f).Renumbered base final
      (w.add retention (f.rename (base.renumber final).number)) :=
  { h with
    keyed := h.keyed.add
    keyed' := h.keyed'.add
    chart := h.chart.add (base.number_renumber_injective hn hb) h.keyed h.keyed' retention f
    touched := congrArg (·.insert f.key.cell) h.touched }

variable {task : Task} (hfree : ∀ i, task.allows i = true)
include hfree

theorem file (h : v.Renumbered base final w) (f : Finding) :
    (task.file v f).Renumbered base final
      (task.file w (f.rename (base.renumber final).number)) := by
  have hadd := h.add hn hb task.retention f
  unfold Task.file
  simp only [f.cell_rename, hfree, if_true]
  split
  · have hsingle := hadd.isSingleFormula hn hb f.key
    rw [f.key_rename, hsingle]
    exact hadd.add hn hb task.retention
      { f with
        key := ⟨.floating f.key.cell.category 0, f.key.meaning⟩
        ingredient := { f.ingredient with cell := .floating f.key.cell.category 0 }
        sources := [f.key]
        sourcesSingle := (v.add task.retention f).chart.isSingleFormula f.key }
  · exact hadd

theorem consider (h : v.Renumbered base final w) (i : Ingredient) (sources : List BackPointer)
    (single : Bool) (c : Derivation)
    (hf : (task.consider i sources single v c).table.keys.toList <+: final) :
    (task.consider i sources single v c).Renumbered base final
      (task.consider (i.rename (base.renumber final).number)
        (sources.map (·.rename (base.renumber final).number)) single w c) := by
  let m := Meaning.ofOutcome c.formula.execute i.rule i.first i.second
  let m' := Meaning.ofOutcome c.formula.execute i.rule
    (i.first.map (base.renumber final).number) (i.second.map (base.renumber final).number)
  rw [Task.table_consider] at hf
  have hintern := base.intern_renumber hb hf
  rw [Meaning.rename_ofOutcome, ← h.table] at hintern
  have hnumber : (v.number m).Renumbered base final (w.number m') :=
    { h with table := congrArg Prod.fst hintern }
  by_cases hr : task.rejects single c = true
  · have hfirst : task.consider i sources single v c =
        (v.number m).count fun report => { report with pruned := report.pruned + 1 } := if_pos hr
    have hsecond : task.consider (i.rename (base.renumber final).number)
        (sources.map (·.rename (base.renumber final).number)) single w c =
        (w.number m').count fun report => { report with pruned := report.pruned + 1 } := if_pos hr
    rw [hfirst, hsecond]
    exact hnumber.count _
  · let f : Finding := ⟨⟨i.cell, (v.table.intern m).2⟩, task.finished c, i, sources, single⟩
    have hfirst : task.consider i sources single v c = task.file (v.number m) f := if_neg hr
    have hsecond : task.consider (i.rename (base.renumber final).number)
        (sources.map (·.rename (base.renumber final).number)) single w c =
        task.file (w.number m') (f.rename (base.renumber final).number) := by
      have hid : (f.rename (base.renumber final).number).key =
          ⟨i.cell, (w.table.intern m').2⟩ := by
        rw [hintern]
        rfl
      exact (if_neg hr).trans (congrArg (fun key => task.file (w.number m')
        { f.rename (base.renumber final).number with key }) hid.symm)
    rw [hfirst, hsecond]
    exact hnumber.file hn hb hfree f

theorem carryOut (h : v.Renumbered base final w) (rule : Rule) (target : Cell)
    (cs : List Child) (hf : (task.carryOut rule target cs v).table.keys.toList <+: final) :
    (task.carryOut rule target cs v).Renumbered base final (task.carryOut rule target
      (cs.map (Child.rename (base.renumber final).number)) w) := by
  have hsources : (cs.map (Child.rename (base.renumber final).number)).map (·.key) =
      (cs.map (·.key)).map (·.rename (base.renumber final).number) := by
    rw [List.map_map, List.map_map]
    rfl
  have hsingle : ((cs.map (·.key)).map (·.rename (base.renumber final).number)).all
      w.chart.isSingleFormula = (cs.map (·.key)).all v.chart.isSingleFormula := by
    rw [List.all_map]
    exact congrArg _ (funext fun key => h.isSingleFormula hn hb key)
  unfold Task.carryOut
  simp only [Task.ingredient_map_rename, Task.application_map_rename, hsources, hsingle]
  refine List.foldl_rel (r := fun v w : Work => v.table.keys.toList <+: final →
    v.Renumbered base final w) (fun _ => h) (fun c _ x y hxy hfx => ?_) hf
  exact (hxy ((task.calls_consider ..).grows.trans hfx)).consider hn hb hfree _ _ _ c hfx

theorem apply (h : v.Renumbered base final w) (rule : Rule) (target : Cell)
    (cs : List Child) (hf : (task.apply rule target cs v).table.keys.toList <+: final) :
    (task.apply rule target cs v).Renumbered base final (task.apply rule target
      (cs.map (Child.rename (base.renumber final).number)) w) := by
  have hverdict : task.verdict rule target (cs.map (Child.rename (base.renumber final).number)) w =
      task.verdict rule target cs v := by
    simp only [Task.verdict, Task.passesOver, h.isCancelled, hfree, Task.overlaps_map_rename]
  unfold Task.apply at hf ⊢
  rw [hverdict]
  cases hv : task.verdict rule target cs v with
  | passedOver => exact h.tick
  | disallowed | overlapping => exact (h.tick.count _).count _
  | admitted =>
    rw [hv] at hf
    exact (h.tick.count _).carryOut hn hb hfree rule target cs hf

theorem runStep (h : v.Renumbered base final w) (step : Step)
    (hf : (task.runStep v step).table.keys.toList <+: final) :
    (task.runStep v step).Renumbered base final (task.runStep w step) := by
  have hread : step.sources.map w.children = (step.sources.map v.children).map
      (List.map (Child.rename (base.renumber final).number)) := by
    rw [List.map_map]
    exact List.map_congr_left fun cell _ => h.children cell
  unfold Task.runStep at hf ⊢
  rw [hread, ← map_combinations, List.foldl_map]
  refine List.foldl_rel (r := fun v w : Work => v.table.keys.toList <+: final →
    v.Renumbered base final w) (fun _ => h) (fun cs _ x y hxy hfx => ?_) hf
  exact (hxy ((task.calls_apply ..).grows.trans hfx)).apply hn hb hfree _ _ cs hfx

theorem runBlock (h : v.Renumbered base final w) (steps : List Step)
    (hf : (task.runBlock v steps).table.keys.toList <+: final) :
    (task.runBlock v steps).Renumbered base final (task.runBlock w steps) := by
  rw [Task.runBlock, (task.settles_settle _).table] at hf
  refine Renumbered.settle (List.foldl_rel (r := fun v w : Work => v.table.keys.toList <+: final →
    v.Renumbered base final w) (fun _ => h) (fun step _ x y hxy hfx => ?_) hf) task
  exact (hxy ((task.calls_runStep ..).grows.trans hfx)).runStep hn hb hfree step hfx

theorem foldl_runBlock (h : v.Renumbered base final w) (blocks : List (List Step))
    (hf : (blocks.foldl task.runBlock v).table.keys.toList <+: final) :
    (blocks.foldl task.runBlock v).Renumbered base final (blocks.foldl task.runBlock w) := by
  refine List.foldl_rel (r := fun v w : Work => v.table.keys.toList <+: final →
    v.Renumbered base final w) (fun _ => h) (fun steps _ x y hxy hfx => ?_) hf
  exact (hxy ((task.calls_runBlock ..).grows.trans hfx)).runBlock hn hb hfree steps hfx

theorem runDepths (h : v.Renumbered base final w) (useful : CategoryId → Nat → Bool)
    (count depth : Nat) (hf : (task.runDepths useful count depth v).table.keys.toList <+: final) :
    (task.runDepths useful count depth v).Renumbered base final
      (task.runDepths useful count depth w) := by
  induction count generalizing depth v w with
  | zero => exact h
  | succ count ih =>
    unfold Task.runDepths at hf ⊢
    rw [h.chart.numEntries]
    split
    · exact h.count _
    · rename_i hc
      rw [if_neg hc] at hf
      exact ih (h.runBlock hn hb hfree _ ((task.calls_runDepths ..).grows.trans hf)) _ hf

end Steps

/-- At the end, when all numbers are given, the counts agree too. -/
theorem finish (h : v.Renumbered base v.table.keys.toList w)
    (hb : Meaning.ReferBack v.table.keys.toList) (task : Task) :
    (task.finish v).Renumbered base v.table.keys.toList (task.finish w) := by
  have hsettled := h.settle task
  have hfailure : ∀ id, (task.settle w).table.isFailure
      ((base.renumber v.table.keys.toList).number id) = (task.settle v).table.isFailure id := by
    intro id
    have hkey := base.key?_renumber hb id
    rw [← h.table, ← Numbering.item?_eq_getElem?_toList] at hkey
    rw [(task.settles_settle v).table, (task.settles_settle w).table]
    exact MeaningTable.isFailure_eq_of_key? hkey
  have hentries : (task.settle w).chart.records.filter (!·.hidden) =
      ((task.settle v).chart.records.filter (!·.hidden)).map
        (Record.rename (base.renumber v.table.keys.toList).number) := by
    rw [hsettled.chart.records, List.filter_map]
    rfl
  have hfailures : ((task.settle w).chart.records.filter (!·.hidden)).countP
      ((task.settle w).table.isFailure ·.key.meaning) =
        ((task.settle v).chart.records.filter (!·.hidden)).countP
          ((task.settle v).table.isFailure ·.key.meaning) := by
    rw [hentries, List.countP_map]
    exact congrArg (List.countP · _) (funext fun record => hfailure record.key.meaning)
  have hderivations : ((task.settle w).chart.records.filter (!·.hidden)).flatMap
      (·.derivations.toList) =
        ((task.settle v).chart.records.filter (!·.hidden)).flatMap (·.derivations.toList) := by
    rw [hentries, List.flatMap_map]
    rfl
  have hnumber := (congrArg List.length hentries).trans (List.length_map _)
  refine { hsettled with report := ?_ }
  simp only [Task.finish, Work.count, hsettled.report, hsettled.chart.cells, hfailures,
    hderivations, hnumber]

end Work.Renumbered

/-! ## Passes -/

/-- The second output is the first one with its meanings renamed: the cells and the records in their
order, with everything that is kept in them, and the report. -/
structure PassOutput.Renamed (ρ : MeaningId → MeaningId) (first second : PassOutput) : Prop where
  chart : first.chart.Renamed ρ second.chart
  /-- The ways to a meaning are the same ones renamed, in the same order. -/
  ingredients : ∀ key, second.chart.ingredientsOf (key.rename ρ) =
    (first.chart.ingredientsOf key).map (Ingredient.rename ρ)
  backPointers : ∀ key, second.chart.backPointersOf (key.rename ρ) =
    (first.chart.backPointersOf key).map (BackPointer.rename ρ)
  key? : ∀ id, second.table.key? (ρ id) = (first.table.key? id).map (Meaning.rename ρ)
  report : second.report = first.report

/-- The candidates do not depend on the names. -/
theorem PassOutput.Renamed.rootDerivations {ρ : MeaningId → MeaningId} {first second : PassOutput}
    (h : first.Renamed ρ second) (parser : Parser) (numTokens : Nat) :
    parser.rootDerivations second numTokens = parser.rootDerivations first numTokens :=
  List.flatMap_congr fun cell _ => h.chart.derivations cell

namespace Task

theorem renumbered_start (base : MeaningTable) (final : List Meaning) (cancelAt : Option Nat) :
    (Work.start .empty cancelAt).Renumbered base final (Work.start base cancelAt) where
  keyed := nofun
  keyed' := nofun
  chart := .refl_empty
  table := rfl
  touched := rfl
  report := rfl
  clock := rfl
  cancelAt := rfl

/-- From whatever table a pass starts that may take every way, it builds the chart that it builds
from an empty one, up to a renaming of the meanings that gives different names to different ones,
and reports the same. -/
theorem exists_renamed_build (parser : Parser) (tokens : List String) (pass : Pass)
    (table : MeaningTable) (cancelAt : Option Nat) :
    ∃ ρ : MeaningId → MeaningId, Function.Injective ρ ∧
      PassOutput.Renamed ρ ((⟨parser, tokens, pass, none⟩ : Task).build .empty cancelAt)
        ((⟨parser, tokens, pass, none⟩ : Task).build table cancelAt) := by
  let task : Task := ⟨parser, tokens, pass, none⟩
  have hfree : ∀ i, task.allows i = true := fun i => by simp [allows, task]
  let ended (table : MeaningTable) : Work :=
    task.runDepths parser.depthBounds.admits (parser.config.maxDepth + 1) 0
      (task.anchoredSchedule.foldl task.runBlock (.start table cancelAt))
  let final := (ended .empty).table.keys.toList
  have hn : final.Nodup := Numbering.nodup_toList _
  have htable : ∀ base, (task.build base cancelAt).table = (ended base).table := fun base =>
    (task.settles_settle (ended base)).table
  have hb : Meaning.ReferBack final := by
    have hback := task.refersBack_build MeaningTable.refersBack_empty cancelAt
    rwa [MeaningTable.RefersBack, htable] at hback
  have hended : (ended .empty).Renumbered table final (ended table) := by
    have hblocks := (renumbered_start table final cancelAt).foldl_runBlock hn hb hfree
      task.anchoredSchedule (task.calls_runDepths ..).grows
    exact hblocks.runDepths hn hb hfree _ _ _ (List.prefix_refl _)
  have hfinished := hended.finish hb task
  have hρ := table.number_renumber_injective hn hb
  refine ⟨_, hρ, hfinished.chart,
    hfinished.chart.ingredientsOf hρ hfinished.keyed hfinished.keyed',
    hfinished.chart.backPointersOf hρ hfinished.keyed hfinished.keyed',
    fun id => ?_, hfinished.report⟩
  rw [htable, htable, hended.table, table.key?_renumber hb, MeaningTable.key?,
    Numbering.item?_eq_getElem?_toList]

end Task

end GuidedChart
