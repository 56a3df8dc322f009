import GuidedChart.Parser.Basic
import GuidedChart.Proofs.Construction.History
import GuidedChart.Proofs.Construction.Settling
import GuidedChart.Proofs.Grammar.Accepted

/-!
# What the beams leave of a history

A pass files its history, and its beams take some of it away. At the end of a first pass every
meaning is there that ever came up: those that came up first in their cells stand with the first
derivation that was filed for them, and the others are hidden and empty (`PassOutput.Witnesses`). At
the end of a second pass nothing is hidden, and what is left of the derivations is within the beam
(`PassOutput.Beamed`). In both, what is left and what the beams have dropped is together what was
filed, whatever was cut when, and wherever the pass was cancelled or stopped
(`Parser.beams_accounted`).

All of this is kept by every finding and every cut, so it holds of every ledger (`Task.Ledger`).
That the beams reach every cell in the end is another matter: no cell has been added to since it
was cut (`Task.prune_recordsOf_build`).
-/

namespace GuidedChart

namespace Record

/-- A record that has its derivation, or is hidden, takes no other as a representative. -/
theorem derivations_extend_representative {record : Record}
    (h : record.hidden = false → record.derivations.toList ≠ []) (f : Finding) :
    (record.extend .representative f).derivations = record.derivations := by
  have hretains : record.retains .representative = false := by
    unfold retains
    cases hh : record.hidden with
    | true => rfl
    | false => simpa using h hh
  simp only [extend, hretains, Bool.false_eq_true, if_false]

/-- What is hidden after the beam of the first pass was hidden before, or is not among the first
`k` records. -/
theorem hidden_of_getElem?_hideBeyond {k : Nat} {records : List Record} {i : Nat} {record : Record}
    (h : (hideBeyond k records)[i]? = some record) (hh : record.hidden = true) :
    (∃ old, records[i]? = some old ∧ old.hidden = true) ∨ k ≤ i := by
  fun_induction hideBeyond k records generalizing i with
  | case1 => cases h
  | case2 k r rs hr ih =>
    cases i with
    | zero => exact Or.inl ⟨r, rfl, hr⟩
    | succ i => exact (ih h).imp id (Nat.le_succ_of_le ·)
  | case3 => exact Or.inr (Nat.zero_le i)
  | case4 r rs hr k ih =>
    cases i with
    | zero =>
      cases h
      exact absurd hh hr
    | succ i => exact (ih h).imp id Nat.succ_le_succ

/-- Where the first `k` records may be read, it is these that the beam of the first pass leaves. -/
theorem filter_hideBeyond_of_visible {k : Nat} {records : List Record}
    (h : ∀ record ∈ records.take k, record.hidden = false) :
    (hideBeyond k records).filter (!·.hidden) = records.take k := by
  rw [filter_hideBeyond]
  induction records generalizing k with
  | nil => rfl
  | cons r rs ih =>
    cases k with
    | zero => rfl
    | succ k =>
      obtain ⟨hr, hrs⟩ := List.forall_mem_cons.1 h
      rw [List.filter_cons_of_pos (by simp [hr]), List.take_succ_cons, List.take_succ_cons, ih hrs]

end Record

namespace Task.Ledger

variable {task : Task} {filed : List Filing} {chart : Chart} {dropped : Nat}

/-! ## Records -/

theorem collects (h : task.Ledger filed chart dropped) :
    chart.Collects (filed.map (·.finding)) := by
  induction h with
  | start => exact .empty
  | file filing h ih =>
    rw [List.map_append, List.map_singleton]
    exact ih.add h.made.keyed task.retention filing.finding
  | truncate cell _ _ _ ih => exact ih.truncate cell _
  | keepBest cell _ _ ih => exact ih.keepBest cell _

/-- A chart holds what was filed, and no beam takes a record away. -/
theorem holds_iff (h : task.Ledger filed chart dropped) (key : BackPointer) :
    chart.Holds key ↔ key ∈ Filing.keys filed := by
  rw [Filing.keys_eq]
  exact h.collects.holds_iff key

theorem size_eq (h : task.Ledger filed chart dropped) :
    chart.size = (Filing.keys filed).length := by
  rw [Filing.keys_eq]
  exact h.collects.size_eq

/-- The records of a cell are in the order in which their meanings came up. -/
theorem map_key_recordsOf (h : task.Ledger filed chart dropped) (cell : Cell) :
    (chart.recordsOf cell).map (·.key) = Filing.keysOf filed cell := by
  rw [Filing.keysOf, Filing.keys_eq]
  exact h.collects.keys cell

/-! ## First passes -/

section First

variable (hp : task.pass = .first)

include hp

/-- An entry that was dropped is a record still. -/
theorem numEntries_add (h : task.Ledger filed chart dropped) :
    chart.numEntries + dropped = chart.size := by
  induction h with
  | start => rfl
  | @file past chart dropped filing _ ih =>
    have hnum : (chart.add task.retention filing.finding).numEntries = chart.numEntries +
      if (chart.lookup? filing.finding.key).isSome then 0 else 1 := rfl
    have hsize : (chart.add task.retention filing.finding).size = chart.size +
      if (chart.lookup? filing.finding.key).isSome then 0 else 1 := rfl
    omega
  | @truncate past chart dropped k cell _ _ h ih =>
    have hnum : (chart.truncate cell k).numEntries =
      chart.numEntries - chart.numHidden cell k := rfl
    have hsize : (chart.truncate cell k).size = chart.size := rfl
    have hle : chart.numHidden cell k ≤ chart.numEntries :=
      (Nat.sub_le _ k).trans (h.made.counted.length_entries_le cell)
    omega
  | keepBest _ hne => exact absurd hp hne

/-- A record holds what was filed first for it, until it is hidden. -/
theorem exists_first? (h : task.Ledger filed chart dropped) {key : BackPointer} {record : Record}
    (hr : chart.lookup? key = some record) :
    ∃ filing, Filing.first? filed key = some filing ∧ record.derivations.toList =
      if record.hidden then [] else [filing.finding.derivation] := by
  have hretention : task.retention = .representative := if_pos hp
  induction h generalizing record with
  | start => cases hr
  | @file past chart dropped filing h ih =>
    rw [Filing.first?_append_singleton]
    rw [hretention] at hr
    obtain ⟨hkey, hold⟩ | ⟨rfl, hl, rfl⟩ | ⟨old, rfl, hl, rfl⟩ := Chart.cases_of_lookup?_add hr
    · rw [if_neg hkey, Option.or_none]
      exact ih hold
    · have hnew : Filing.first? past filing.finding.key = none := by
        rw [Filing.first?_eq_none_iff, ← h.holds_iff]
        rintro ⟨old, ho⟩
        rw [hl] at ho
        cases ho
      exact ⟨filing, by rw [hnew, if_pos rfl]; rfl, rfl⟩
    · obtain ⟨first, hfirst, hold⟩ := ih hl
      refine ⟨first, by rw [hfirst]; rfl, ?_⟩
      rw [Record.derivations_extend_representative fun hh => ?_]
      · exact hold
      · rw [hold, hh]
        exact List.cons_ne_nil _ _
  | @truncate past chart dropped k cell _ _ _ ih =>
    obtain ⟨old, ho, rfl | rfl⟩ := Chart.exists_of_lookup?_truncate hr
    · exact ih ho
    · obtain ⟨first, hfirst, -⟩ := ih ho
      exact ⟨first, hfirst, rfl⟩
  | keepBest _ hne => exact absurd hp hne

/-- The beam hides no record that is among the first ones of its cell. -/
theorem exists_le_of_hidden (h : task.Ledger filed chart dropped) {cell : Cell} {i : Nat}
    {record : Record} (hr : (chart.recordsOf cell)[i]? = some record)
    (hh : record.hidden = true) : ∃ k, task.parser.config.firstPassBeam = some k ∧ k ≤ i := by
  induction h generalizing record with
  | start => cases hr
  | @file past chart dropped filing h ih =>
    by_cases hcell : filing.finding.key.cell = cell
    · subst hcell
      by_cases hf : chart.Holds filing.finding.key
      · rw [Chart.recordsOf_add_of_holds h.made.keyed hf, List.getElem?_map] at hr
        obtain ⟨old, ho, rfl⟩ := Option.map_eq_some_iff.1 hr
        refine ih ho ?_
        split at hh <;> exact hh
      · rw [Chart.recordsOf_add_of_not_holds hf, List.getElem?_append] at hr
        split at hr
        · exact ih hr hh
        · rw [List.getElem?_singleton] at hr
          split at hr
          · cases hr
            cases hh
          · cases hr
    · rw [Chart.recordsOf_add_of_ne _ _ _ hcell] at hr
      exact ih hr hh
  | @truncate past chart dropped k other _ hk _ ih =>
    rw [Chart.recordsOf_truncate] at hr
    split at hr
    · rcases Record.hidden_of_getElem?_hideBeyond hr hh with ⟨old, ho, hold⟩ | hle
      · exact ih ho hold
      · exact ⟨k, hk, hle⟩
    · exact ih hr hh
  | keepBest _ hne => exact absurd hp hne

theorem visible_of_none (h : task.Ledger filed chart dropped)
    (hbeam : task.parser.config.firstPassBeam = none) {cell : Cell} {record : Record}
    (hm : record ∈ chart.recordsOf cell) : record.hidden = false := by
  obtain ⟨i, hi⟩ := List.mem_iff_getElem?.1 hm
  refine Bool.eq_false_iff.2 fun hh => ?_
  obtain ⟨k, hk, -⟩ := h.exists_le_of_hidden hp hi hh
  rw [hbeam] at hk
  cases hk

theorem visible_of_mem_take (h : task.Ledger filed chart dropped) {k : Nat}
    (hbeam : task.parser.config.firstPassBeam = some k) {cell : Cell} {record : Record}
    (hm : record ∈ (chart.recordsOf cell).take k) : record.hidden = false := by
  obtain ⟨i, hi⟩ := List.mem_iff_getElem?.1 hm
  rw [List.getElem?_take] at hi
  split at hi
  · rename_i hlt
    refine Bool.eq_false_iff.2 fun hh => ?_
    obtain ⟨k', hk, hle⟩ := h.exists_le_of_hidden hp hi hh
    rw [hbeam] at hk
    cases hk
    exact absurd hlt (Nat.not_lt.2 hle)
  · cases hi

end First

/-! ## Second passes -/

section Second

variable (hp : task.pass ≠ .first)

include hp

theorem readable (hk : 0 < task.parser.config.beamSize) (h : task.Ledger filed chart dropped) :
    chart.Readable := by
  induction h with
  | start => exact nofun
  | file filing _ ih => exact ih.add
  | truncate _ hfirst => exact absurd hfirst hp
  | keepBest cell _ _ ih => exact ih.keepBest cell hk

/-- A derivation that was filed is there, or it was dropped. -/
theorem numDerivations_add (hk : 0 < task.parser.config.beamSize)
    (h : task.Ledger filed chart dropped) : chart.numDerivations + dropped = filed.length := by
  have hretention : task.retention = .all := if_neg hp
  induction h with
  | start => rfl
  | file filing h ih =>
    rw [hretention, Chart.numDerivations_add (h.readable hp hk).visible, List.length_append,
      List.length_singleton, ← ih, Nat.add_right_comm]
  | truncate _ hfirst => exact absurd hfirst hp
  | @keepBest past chart dropped cell _ _ ih =>
    rw [← ih, ← Chart.numDerivations_keepBest chart cell task.parser.config.beamSize]
    omega

end Second

end Task.Ledger

/-! ## Whole passes -/

/-- In the end the beam has nothing left to do in any cell. -/
theorem Task.prune_recordsOf_build (task : Task) (table : MeaningTable) (cancelAt : Option Nat)
    (cell : Cell) : task.prune ((task.build table cancelAt).chart.recordsOf cell) =
      (task.build table cancelAt).chart.recordsOf cell := by
  obtain ⟨n, hn⟩ := task.exists_endsAt_run task.parser.depthBounds.admits table cancelAt
  have hchart : (task.build table cancelAt).chart =
      (task.workAfter task.parser.depthBounds.admits table cancelAt n).chart := hn.chart
  rw [hchart]
  refine tidy_workAfter n cell ?_
  rw [touched_workAfter]
  exact List.not_mem_nil

namespace PassOutput

/-- What is to be found at the end of a first pass with this beam that has filed so much. -/
structure Witnesses (output : PassOutput) (beam : Option Nat) (filed : List Filing) : Prop where
  /-- A record that may be read holds the derivation that was filed first for it. -/
  visible : ∀ record ∈ output.chart.records, record.hidden = false →
    ∃ filing, Filing.first? filed record.key = some filing ∧
      record.derivations.toList = [filing.finding.derivation]
  hidden : ∀ record ∈ output.chart.records, record.hidden = true → record.derivations.toList = []
  /-- The entries of a cell are the meanings that came up first in it. -/
  entries : ∀ cell, (output.chart.entries cell).map (·.key) =
    match beam with
    | some k => (Filing.keysOf filed cell).take k
    | none => Filing.keysOf filed cell
  length_le : ∀ k, beam = some k → ∀ cell, (output.chart.entries cell).length ≤ k
  /-- There is a record for every meaning that ever came up in a cell. -/
  records : output.chart.records.length = (Filing.keys filed).length
  accounted : output.report.entries + output.report.beamDropped = output.chart.records.length
  counted : output.report.entries = output.chart.numEntries

/-- What is to be found at the end of a second pass with this beam that has filed so much. -/
structure Beamed (output : PassOutput) (beamSize : Nat) (filed : List Filing) : Prop where
  visible : ∀ record ∈ output.chart.records, record.hidden = false
  size_pos : ∀ record ∈ output.chart.records, 1 ≤ record.derivations.size
  size_le : ∀ record ∈ output.chart.records, record.derivations.size ≤ beamSize
  accounted : output.report.derivations + output.report.beamDropped =
    (Filing.accepted filed).length + (Filing.lifts filed).length
  counted : output.report.entries = output.chart.numEntries

end PassOutput

namespace Task

variable (task : Task) (table : MeaningTable) (cancelAt : Option Nat)

theorem entries_report_build : (task.build table cancelAt).report.entries =
    (task.build table cancelAt).chart.numEntries :=
  (task.ledger_build table cancelAt).made.counted.length_filter_records

/-- The entries of a cell at the end of a first pass. -/
theorem map_key_entries_build (hp : task.pass = .first) (cell : Cell) :
    ((task.build table cancelAt).chart.entries cell).map (·.key) =
      match task.parser.config.firstPassBeam with
      | some k => (Filing.keysOf (task.history table cancelAt) cell).take k
      | none => Filing.keysOf (task.history table cancelAt) cell := by
  have hledger := task.ledger_build table cancelAt
  have hpruned := task.prune_recordsOf_build table cancelAt cell
  rw [← hledger.map_key_recordsOf, Chart.entries]
  rw [prune, if_pos hp] at hpruned
  cases hbeam : task.parser.config.firstPassBeam with
  | none =>
    rw [List.filter_eq_self.2 fun record hm => by rw [hledger.visible_of_none hp hbeam hm]; rfl]
  | some k =>
    rw [hbeam] at hpruned
    have hentries : (Record.hideBeyond k ((task.build table cancelAt).chart.recordsOf cell)).filter
        (!·.hidden) = ((task.build table cancelAt).chart.recordsOf cell).take k :=
      Record.filter_hideBeyond_of_visible fun record hm => hledger.visible_of_mem_take hp hbeam hm
    dsimp only at hpruned ⊢
    rw [hpruned] at hentries
    rw [hentries, List.map_take]

theorem witnesses_build (hp : task.pass = .first) :
    (task.build table cancelAt).Witnesses task.parser.config.firstPassBeam
      (task.history table cancelAt) := by
  have hledger := task.ledger_build table cancelAt
  have hfirst : ∀ record ∈ (task.build table cancelAt).chart.records,
      ∃ filing, Filing.first? (task.history table cancelAt) record.key = some filing ∧
        record.derivations.toList =
          if record.hidden then [] else [filing.finding.derivation] := by
    intro record hm
    obtain ⟨key, hl⟩ := Chart.mem_records.1 hm
    rw [hledger.made.keyed key record hl]
    exact hledger.exists_first? hp hl
  have hentries := task.map_key_entries_build table cancelAt hp
  have hrecords := hledger.made.length_records
  refine
    { visible := fun record hm hh => ?_
      hidden := fun record hm hh => ?_
      entries := hentries
      length_le := fun k hk cell => ?_
      records := hrecords.trans hledger.size_eq
      accounted := ?_
      counted := task.entries_report_build table cancelAt }
  · obtain ⟨filing, hfiling, hd⟩ := hfirst record hm
    rw [hh] at hd
    exact ⟨filing, hfiling, hd⟩
  · obtain ⟨filing, -, hd⟩ := hfirst record hm
    rwa [hh] at hd
  · have hlength := congrArg List.length (hentries cell)
    simp only [hk, List.length_map, List.length_take] at hlength
    omega
  · rw [hrecords, task.entries_report_build]
    exact hledger.numEntries_add hp

theorem beamed_build (hp : task.pass ≠ .first) (hk : 0 < task.parser.config.beamSize) :
    (task.build table cancelAt).Beamed task.parser.config.beamSize
      (task.history table cancelAt) := by
  have hledger := task.ledger_build table cancelAt
  refine
    { visible := fun record hm => ?_
      size_pos := fun record hm => ?_
      size_le := fun record hm => ?_
      accounted := ?_
      counted := task.entries_report_build table cancelAt }
  · obtain ⟨key, hl⟩ := Chart.mem_records.1 hm
    exact (hledger.readable hp hk key record hl).1
  · obtain ⟨key, hl⟩ := Chart.mem_records.1 hm
    rw [← Array.length_toList]
    exact List.length_pos_iff.2 (hledger.readable hp hk key record hl).2
  · obtain ⟨key, hl⟩ := Chart.mem_records.1 hm
    have hcell := Chart.mem_recordsOf.2 ⟨key.meaning, hl⟩
    rw [← task.prune_recordsOf_build, prune, if_neg hp] at hcell
    obtain ⟨old, -, rfl⟩ := List.mem_map.1 hcell
    exact Record.size_keepBest_le _ old
  · rw [Filing.length_accepted_add_lifts]
    exact hledger.numDerivations_add hp hk

end Task

/-- However a pass of a parser comes to its end, its beams have kept within their bounds, and what
they have dropped is what is missing from its history. -/
theorem Parser.beams_accounted {grammar : Grammar} {config : Config} {scorer : Scorer}
    {parser : Parser} (hparser : Parser.ofConfig grammar config scorer = .ok parser)
    (tokens : List String) (allowed : Option (Numbering Ingredient)) (table : MeaningTable)
    (cancelAt : Option Nat) :
    ((⟨parser, tokens, .first, allowed⟩ : Task).build table cancelAt).Witnesses
        config.firstPassBeam
        ((⟨parser, tokens, .first, allowed⟩ : Task).history table cancelAt) ∧
      ((⟨parser, tokens, .second, allowed⟩ : Task).build table cancelAt).Beamed config.beamSize
        ((⟨parser, tokens, .second, allowed⟩ : Task).history table cancelAt) := by
  obtain ⟨-, rfl, hpruner⟩ := Parser.eq_of_ofConfig hparser
  exact ⟨Task.witnesses_build _ table cancelAt rfl,
    Task.beamed_build _ table cancelAt nofun (Config.beamSize_pos_of_pruner hpruner)⟩

/-- The parser for sums and products, with one meaning to a cell in the first pass. -/
def Parser.narrow : Parser :=
  { Parser.arithmetic with config := { maxDepth := 1, firstPassBeam := some 1 } }

theorem Parser.ofConfig_narrow :
    Parser.ofConfig .arithmetic { maxDepth := 1, firstPassBeam := some 1 } (fun _ => 0.0) =
      .ok .narrow := rfl

/-- Of the sum and the product of a number with itself, the first pass hides the product; the second
pass keeps both, with the number and its lift. -/
theorem Parser.beams_accounted_narrow :
    let first : Task := ⟨.narrow, ["three"], .first, none⟩
    let second : Task := ⟨.narrow, ["three"], .second, none⟩
    (first.build .empty none).Witnesses (some 1) (first.history .empty none) ∧
      (second.build .empty none).Beamed 200 (second.history .empty none) ∧
      (first.build .empty none).report.entries = 3 ∧
      (first.build .empty none).report.beamDropped = 1 ∧
      Filing.keysOf (first.history .empty none) (.floating 1 1) =
        [⟨.floating 1 1, 1⟩, ⟨.floating 1 1, 2⟩] ∧
      (second.build .empty none).report.derivations = 4 ∧
      (Filing.lifts (second.history .empty none)).length = 1 := by
  have haccounted := Parser.beams_accounted Parser.ofConfig_narrow ["three"] none .empty none
  exact ⟨haccounted.1, haccounted.2, by decide +kernel, by decide +kernel, by decide +kernel,
    by decide +kernel, by decide +kernel⟩

end GuidedChart
