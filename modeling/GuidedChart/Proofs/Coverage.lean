import GuidedChart.Proofs.Construction.Run
import GuidedChart.Proofs.Grammar.Accepted

/-!
# The first pass covers the second

A first pass without a beam, whose own strategies look at values only, holds every meaning that a
second pass over the same tokens can come to (`Task.entries_covered`), although it keeps one
derivation for each meaning and applies every strategy where the flags say that this is safe.

The invariant is about derivations (`Work.Covers`): each derivation of the second pass has a record
of its sense in the first, and if that record is flagged, its derivations have the formula of that
derivation. So where a flag lets a strategy look at the formula, it looks at the formula that the
second pass would have shown it.
-/

namespace GuidedChart

open GuidedChart.Derivation (sense)

/-- A first pass that hides nothing and has strategies of its own only for values, and a later pass
over the same tokens. -/
structure Task.Surveys (a b : Task) : Prop where
  parser : b.parser = a.parser
  tokens : b.tokens = a.tokens
  first : a.pass = .first
  later : b.pass ≠ .first
  beam : a.parser.config.firstPassBeam = none
  strategies : ∀ name ∈ a.parser.config.firstPassStrategies, name = Strategy.emptyValue.name

/-- There is a record of the sense of the derivation; and if the record is flagged, all it keeps has
the formula of the derivation. -/
def Work.Covered (work : Work) (cell : Cell) (d : Derivation) : Prop :=
  ∃ m, work.table.sense? m = some d.sense ∧ work.chart.Holds ⟨cell, m⟩ ∧
    (work.chart.isSingleFormula ⟨cell, m⟩ = true →
      ∀ e ∈ work.chart.derivationsOf ⟨cell, m⟩, e.formula = d.formula)

/-- Every derivation of the second work is covered in the first. -/
structure Work.Covers (first second : Work) : Prop where
  soundFirst : first.Sound
  soundSecond : second.Sound
  openFirst : first.Open
  inTime : first.cancelAt = none
  covered : ∀ key, ∀ d ∈ second.chart.derivationsOf key, first.Covered key.cell d

namespace Task

/-! ## The first pass forbids nothing -/

section First

variable {task : Task} (h : task.pass = .first)

include h

theorem allows_of_first (i : Ingredient) : task.allows i = true := by
  simp [allows, h]

theorem admits_of_first (rule : Rule) (target : Cell) (children : List Child) :
    task.admits rule target children = true := by
  simp [admits, allows, overlaps, h]

end First

namespace Surveys

variable {a b : Task} (h : a.Surveys b)

include h

theorem hidesNothing : a.HidesNothing := by
  rw [HidesNothing, if_pos h.first, h.beam]

theorem hidesNothing_later (hbeam : 0 < a.parser.config.beamSize) : b.HidesNothing := by
  rw [HidesNothing, if_neg h.later, h.parser]
  exact hbeam

theorem mem_places {rule : Rule} {target cell : Cell} {others : List Child}
    (hc : cell ∈ target :: (b.lift? target).toList) :
    cell ∈ a.places (ingredient rule target others) := by
  have hlift : b.lift? target = a.lift? target := by
    rw [lift?, lift?, h.parser]
  rw [hlift] at hc
  rcases List.mem_cons.1 hc with rfl | hc
  · exact List.mem_cons_self
  · exact List.mem_cons_of_mem _ (List.mem_filter.2 ⟨hc, allows_of_first h.first _⟩)

/-- What a later pass does not discard, the first pass does not either: where it looks at values it
sees the same value, and where it looks at formulas it sees the same formula. -/
theorem rejects_eq_false {single single' : Bool} {c c' : Derivation} (hs : c'.sense = c.sense)
    (hf : single' = true → c'.formula = c.formula) (hr : b.rejects single c = false) :
    a.rejects single' c' = false := by
  have hb : b.pruner single = a.parser.pruner := by
    simp [pruner, h.later, h.parser, Pruner.restrict]
  have hv : c'.formula.value? = c.formula.value? := by
    rw [← Derivation.value?_sense, hs, Derivation.value?_sense]
  rw [rejects, hb] at hr
  rw [← Bool.not_eq_true] at hr ⊢
  refine fun hd => hr ?_
  -- every strategy may apply over flagged children, whose formulas are those of the later pass
  cases hag : a.parser.config.aggressivePruning && single' with
  | true =>
    rw [Bool.and_eq_true] at hag
    simp only [rejects, pruner, h.first, hag.1, hag.2, Pruner.restrict] at hd
    rw [hf hag.2] at hd
    exact hd
  | false =>
    have ha : a.pruner single' =
        a.parser.pruner.restrict (some a.parser.config.firstPassStrategies) := by
      simp [pruner, h.first, hag]
    rw [rejects, ha, Pruner.discards_congr
      (fun s hs => Pruner.eq_emptyValue_of_mem_restrict h.strategies hs) hv] at hd
    exact Pruner.discards_of_restrict hd

end Surveys

end Task

namespace Work

/-! ## What is covered stays covered -/

/-- A record that keeps its flag keeps its formula. -/
theorem Covered.gains {before after : Work} {retention : Retention} {fs : List Finding}
    {cell : Cell} {d : Derivation} (h : before.Covered cell d) (hs : before.Sound)
    (ho : before.Open) (hg : before.Gains retention after fs) : after.Covered cell d := by
  obtain ⟨m, hm, hk, hflag⟩ := h
  refine ⟨m, hg.sense?_of_sense? hm, hg.leadsTo.chart.holds _ hk, fun hsingle e he => ?_⟩
  obtain ⟨e', he'⟩ := List.exists_mem_of_ne_nil _ (ho.readable.derivationsOf_ne_nil hk)
  rw [← hflag (hg.isSingleFormula hk hsingle) e' he']
  have hu : after.chart.Uniform := hg.chart ▸ hs.uniform.addAll retention fs
  refine hu _ hsingle e he e' ?_
  rw [hg.chart]
  exact (Chart.derivationsOf_prefix_addAll _).subset he'

theorem Covered.settles {before after : Work} {cell : Cell} {d : Derivation}
    (h : before.Covered cell d) (hs : before.Settles after) : after.Covered cell d := by
  obtain ⟨m, hm, hk, hflag⟩ := h
  refine ⟨m, hs.table ▸ hm, (hs.chart.holds _).2 hk, fun hsingle e he => ?_⟩
  rw [hs.chart.isSingleFormula] at hsingle
  exact hflag hsingle e (hs.chart.derivationsOf he)

namespace Covers

variable {v w : Work}

/-- Each child of the second work has one of its sense in the same cell of the first; with the same
formula, if that one is flagged. -/
theorem exists_child (h : v.Covers w) {cell : Cell} {child : Child}
    (hc : child ∈ w.children cell) :
    ∃ c ∈ v.children cell, (c.key.cell = child.key.cell ∧
        v.table.sense? c.key.meaning = some c.derivation.sense) ∧
      c.derivation.sense = child.derivation.sense ∧
      (v.chart.isSingleFormula c.key = true → c.derivation.formula = child.derivation.formula) := by
  have hd := mem_derivationsOf_of_mem_children h.soundSecond.keyed hc
  have hcell := cell_of_mem_children h.soundSecond.keyed hc
  obtain ⟨m, hm, hk, hflag⟩ := h.covered _ _ hd
  rw [hcell] at hk hflag
  obtain ⟨e, he⟩ := List.exists_mem_of_ne_nil _ (h.openFirst.readable.derivationsOf_ne_nil hk)
  have he' := h.soundFirst.sense? _ e he
  exact ⟨⟨⟨cell, m⟩, e⟩,
    mem_children_of_readable h.soundFirst.keyed h.openFirst.readable he, ⟨hcell.symm, he'⟩,
    Option.some.inj (he'.symm.trans hm), fun hsingle => hflag hsingle e he⟩

/-! ## A step of both passes -/

/-- What a rule comes to over children of the second pass, it comes to in the first pass over
representatives of them; with the same formula, if what is found there is flagged. -/
theorem exists_finding {a b : Task} (hab : a.Surveys b) (h : v.Covers w) {step : Step}
    {groups : List (List Finding)}
    (hv : List.Forall₂ (a.Attempts step v) (v.readings step) groups) {children : List Child}
    (hc : children ∈ w.readings step) {single : Bool} {d : Derivation}
    (hd : d ∈ b.accepted single (Task.application step.rule step.target children)) {cell : Cell}
    (hcell : cell ∈ step.target :: (b.lift? step.target).toList) :
    ∃ others, List.Forall₂ (fun child other => other.key.cell = child.key.cell ∧
        v.table.sense? other.key.meaning = some child.derivation.sense) children others ∧
      ∃ f ∈ groups.flatten, f.key.cell = cell ∧ f.derivation.sense = d.sense ∧
        (f.sourcesSingle = true → f.derivation.formula = d.formula) ∧
        ∃ g ∈ groups.flatten, (f = g ∨ g.IsLift f) ∧
          ∃ single', a.Finds step.rule step.target others single' g := by
  obtain ⟨c, hcand, hrej, rfl⟩ := Task.mem_accepted.1 hd
  obtain ⟨others, ho, hall⟩ := exists_readings hc fun child _ cell _ hchild =>
    h.exists_child hchild
  obtain ⟨single', hflag, hfiled⟩ := Task.exists_finding_of_admits hv ho h.inTime
    (Task.admits_of_first hab.first _ _ _)
  have hsenses : (children.map (·.derivation)).map sense =
      (others.map (·.derivation)).map sense := by
    rw [List.map_map, List.map_map]
    exact map_eq_map_of_forall₂ hall fun _ _ _ hst => hst.2.1.symm
  rw [hab.tokens] at hcand
  obtain ⟨c', hcand', hsense, hformula⟩ := Application.exists_candidate_congr hsenses hcand
  have hformula' : single' = true → c'.formula = c.formula := by
    intro hs
    refine hformula ?_
    rw [List.map_map, List.map_map]
    exact map_eq_map_of_forall₂ hall fun _ other hm hst => (hst.2.2 (hflag hs other hm)).symm
  have hrej' : a.rejects single' c' = false := hab.rejects_eq_false hsense hformula' hrej
  obtain ⟨f, hf, hplacement, g, hg, hfinds, hlift⟩ := hfiled (cell, a.finished c')
    (Task.mem_placements.2 ⟨hab.mem_places hcell, Task.mem_accepted.2 ⟨c', hcand', hrej', rfl⟩⟩)
  obtain ⟨hfcell, hderiv⟩ := Prod.mk.inj hplacement
  have hsingle : f.sourcesSingle = true → single' = true := by
    rw [← hfinds.sourcesSingle]
    rcases hlift with rfl | hl
    · exact id
    · exact hl.sourcesSingle
  refine ⟨others, hall.imp fun child other hst => ⟨hst.1.1, hst.2.1 ▸ hst.1.2⟩, f, hf, hfcell, ?_,
    fun hs => ?_, g, hg, hlift, single', hfinds⟩
  · rw [hderiv, Task.sense_finished, Task.sense_finished, hsense]
  · rw [hderiv, Task.formula_finished, Task.formula_finished, hformula' (hsingle hs)]

/-- What a step of the second pass finds is covered after the same step of the first pass. -/
theorem covered_of_attempts {a b : Task} (hab : a.Surveys b) (h : v.Covers w) {step : Step}
    {groups groups' : List (List Finding)}
    (hw : List.Forall₂ (b.Attempts step w) (w.readings step) groups)
    (hv : List.Forall₂ (a.Attempts step v) (v.readings step) groups') {v' : Work}
    (hg : v.Gains a.retention v' groups'.flatten) {f : Finding} (hf : f ∈ groups.flatten) :
    v'.Covered f.key.cell f.derivation := by
  obtain ⟨children, hc, single, -, hp, -⟩ := Task.exists_finds_of_mem hw hf
  obtain ⟨hplace, hacc⟩ := Task.mem_placements.1 hp
  obtain ⟨others, -, f', hf', hcell, hsense, hformula, -⟩ :=
    h.exists_finding hab hv hc hacc (Task.mem_of_mem_places hplace)
  refine ⟨f'.key.meaning, ?_, ?_, fun hs e he => ?_⟩
  · rw [hg.sense? f' hf', hsense]
  · rw [hg.chart]
    exact Chart.holds_addAll.2 (Or.inr ⟨f', hf', by rw [← hcell]⟩)
  · rw [hg.chart, ← hcell] at hs he
    obtain ⟨hsource, heq⟩ :=
      Chart.formula_eq_of_addAll h.openFirst.readable h.soundFirst.uniform hf' hs
    rw [heq e he, hformula hsource]

theorem runStep {a b : Task} (hab : a.Surveys b) (h : v.Covers w) (step : Step) :
    (a.runStep v step).Covers (b.runStep w step) := by
  obtain ⟨groups', hv, hgv⟩ := h.soundFirst.exists_attempts a step
  obtain ⟨groups, hw, hgw⟩ := h.soundSecond.exists_attempts b step
  refine ⟨h.soundFirst.runStep a step, h.soundSecond.runStep b step,
    h.openFirst.runStep h.soundFirst a step, hgv.cancelAt.trans h.inTime, fun key d hd => ?_⟩
  rw [hgw.chart] at hd
  rcases Chart.mem_derivationsOf_addAll hd with hd | ⟨f, hf, rfl, rfl⟩
  · exact (h.covered key d hd).gains h.soundFirst h.openFirst hgv
  · exact covered_of_attempts hab h hw hv hgv hf

theorem settle {a b : Task} (hab : a.Surveys b) (h : v.Covers w) :
    (a.settle v).Covers (b.settle w) := by
  have hv := a.settles_settle v
  have hw := b.settles_settle w
  exact ⟨h.soundFirst.settle a, h.soundSecond.settle b, h.openFirst.settle hab.hidesNothing,
    hv.cancelAt.trans h.inTime, fun key d hd =>
      (h.covered key d (hw.chart.derivationsOf hd)).settles hv⟩

/-! ## Entries -/

/-- Each key of a second work that hides nothing has one of its sense in the first work. -/
theorem exists_holds (h : v.Covers w) (ho : w.Open) {key : BackPointer} (hk : w.chart.Holds key) :
    ∃ m, v.chart.Holds ⟨key.cell, m⟩ ∧ ∃ s, v.table.sense? m = some s ∧
      w.table.sense? key.meaning = some s := by
  obtain ⟨d, hd⟩ := List.exists_mem_of_ne_nil _ (ho.readable.derivationsOf_ne_nil hk)
  obtain ⟨m, hm, hheld, -⟩ := h.covered key d hd
  exact ⟨m, hheld, d.sense, hm, h.soundSecond.sense? key d hd⟩

/-- A second work that hides nothing has no more entries than the first. -/
theorem numEntries_le (h : v.Covers w) (ho : w.Open) :
    w.chart.numEntries ≤ v.chart.numEntries :=
  numEntries_le_of_senses h.soundFirst h.openFirst h.soundSecond ho fun _ hk => h.exists_holds ho hk

end Covers

end Work

/-! ## Whole passes -/

namespace Task

variable {a b : Task} {useful : CategoryId → Nat → Bool} {table table' : MeaningTable}
  {cancelAt : Option Nat}

theorem Surveys.covers_workAfter (h : a.Surveys b) (ht : table.RefersBack)
    (ht' : table'.RefersBack) (n : Nat) :
    (a.workAfter useful table none n).Covers (b.workAfter useful table' cancelAt n) := by
  rw [workAfter, workAfter, plan_congr useful h.parser h.tokens]
  refine foldl_runBlock_rel (fun _ _ step _ v w hvw => hvw.runStep h step)
    (fun v w hvw => hvw.settle h) ?_
  exact ⟨Work.sound_start ht none, Work.sound_start ht' cancelAt, Work.open_start table none, rfl,
    fun key d hd => absurd hd (Work.not_mem_derivationsOf_start table' cancelAt key d)⟩

/-- What the later pass holds after some blocks, the first pass holds after as many or more. -/
theorem Surveys.exists_holds (h : a.Surveys b) (hb : b.HidesNothing) (ht : table.RefersBack)
    (ht' : table'.RefersBack) {k n : Nat} (hkn : k ≤ n) {key : BackPointer}
    (hk : (b.workAfter useful table' cancelAt k).chart.Holds key) :
    ∃ m s, (a.workAfter useful table none n).chart.Holds ⟨key.cell, m⟩ ∧
      (a.workAfter useful table none n).table.sense? m = some s ∧
      (b.workAfter useful table' cancelAt k).table.sense? key.meaning = some s := by
  have hlead : (a.workAfter useful table none k).LeadsTo (a.workAfter useful table none n) :=
    leadsTo_workAfter ht hkn
  have hcov : (a.workAfter useful table none k).Covers (b.workAfter useful table' cancelAt k) :=
    h.covers_workAfter ht ht' k
  obtain ⟨m, hheld, s, hm, hs⟩ := hcov.exists_holds (open_workAfter ht' hb k) hk
  exact ⟨m, s, hlead.chart.holds _ hheld, MeaningTable.sense?_of_prefix hlead.senses hm, hs⟩

/-- If the ceiling does not stop the first pass, it does not stop a later one. -/
theorem Surveys.eq_length (h : a.Surveys b) (hb : b.HidesNothing) (ht : table.RefersBack)
    (ht' : table'.RefersBack) (hno : (a.runWith useful table none).report.hitCeiling = false)
    {k : Nat} (hk : b.EndsAt useful table' cancelAt k) : k = (a.plan useful).length := by
  obtain ⟨n, hn⟩ := a.exists_endsAt_run useful table none
  have hplan : b.plan useful = a.plan useful := plan_congr useful h.parser h.tokens
  rw [← hplan]
  refine hk.eq_length_of_le fun i hi hlt => ?_
  have hcov : (a.workAfter useful table none i).Covers (b.workAfter useful table' cancelAt i) :=
    h.covers_workAfter ht ht' i
  -- the ceiling is looked at where the first chart, which is no smaller, lies below it
  have hbelow := hn.below i ?_ ?_
  · rw [h.parser]
    exact (hcov.numEntries_le (open_workAfter ht' hb i)).trans hbelow
  · rwa [anchoredSchedule, h.parser, h.tokens] at hi
  · rwa [hn.eq_length hno, ← hplan]

theorem Surveys.exists_covering (h : a.Surveys b) (hb : b.HidesNothing) (ht : table.RefersBack)
    (ht' : table'.RefersBack) (hno : (a.runWith useful table none).report.hitCeiling = false)
    {cell : Cell} {record : Record}
    (hrecord : record ∈ (b.runWith useful table' cancelAt).chart.entries cell) :
    ∃ covering ∈ (a.runWith useful table none).chart.entries cell, ∃ s,
      (a.runWith useful table none).table.sense? covering.key.meaning = some s ∧
        (b.runWith useful table' cancelAt).table.sense? record.key.meaning = some s := by
  obtain ⟨n, hn⟩ := a.exists_endsAt_run useful table none
  obtain ⟨k, hk⟩ := b.exists_endsAt_run useful table' cancelAt
  have hkn : k ≤ n := by
    rw [hn.eq_length hno, ← plan_congr useful h.parser h.tokens]
    exact hk.le_length
  rw [hk.chart] at hrecord
  rw [hn.chart, hn.table_eq, hk.table_eq]
  obtain ⟨⟨meaning, hl⟩, -⟩ := Chart.mem_entries.1 hrecord
  obtain ⟨m, s, ⟨covering, hm⟩, hs, hs'⟩ := h.exists_holds hb ht ht' hkn ⟨record, hl⟩
  have hkey : record.key = ⟨cell, meaning⟩ := (sound_workAfter ht' k).keyed _ _ hl
  have hcovering : covering.key = ⟨cell, m⟩ := (sound_workAfter ht n).keyed _ _ hm
  have hopen : (a.workAfter useful table none n).Open := open_workAfter ht h.hidesNothing n
  refine ⟨covering, Chart.mem_entries.2 ⟨⟨m, hm⟩, (hopen.readable _ _ hm).1⟩, s, ?_, ?_⟩
  · rwa [hcovering]
  · rwa [hkey]

end Task

/-- Whatever a second pass comes to, the first pass has it: every entry of the second chart has its
sense among the entries of the same cell in the first chart. Each pass may start from an empty table
or from one that a pass has left (`MeaningTable.refersBack_empty`, `Task.refersBack_build`). -/
theorem Parser.entries_covered {grammar : Grammar} {config : Config} {scorer : Scorer}
    {parser : Parser} (hparser : Parser.ofConfig grammar config scorer = .ok parser)
    (hbeam : config.firstPassBeam = none)
    (hstrategies : ∀ name ∈ config.firstPassStrategies, name = Strategy.emptyValue.name)
    (tokens : List String) {table table' : MeaningTable} (ht : table.RefersBack)
    (ht' : table'.RefersBack) (cancelAt : Option Nat)
    (hceiling :
      ((⟨parser, tokens, .first, none⟩ : Task).build table none).report.hitCeiling = false)
    {cell : Cell} {record : Record}
    (hrecord : record ∈
      ((⟨parser, tokens, .second, none⟩ : Task).build table' cancelAt).chart.entries cell) :
    ∃ covering ∈ ((⟨parser, tokens, .first, none⟩ : Task).build table none).chart.entries cell,
      ∃ sense,
        ((⟨parser, tokens, .first, none⟩ : Task).build table none).table.sense?
          covering.key.meaning = some sense ∧
        ((⟨parser, tokens, .second, none⟩ : Task).build table' cancelAt).table.sense?
          record.key.meaning = some sense := by
  obtain ⟨-, rfl, hpruner⟩ := Parser.eq_of_ofConfig hparser
  have hsurveys : (⟨parser, tokens, .first, none⟩ : Task).Surveys ⟨parser, tokens, .second, none⟩ :=
    ⟨rfl, rfl, rfl, nofun, hbeam, hstrategies⟩
  exact hsurveys.exists_covering
    (hsurveys.hidesNothing_later (Config.beamSize_pos_of_pruner hpruner)) ht ht' hceiling hrecord

/-- The second pass over one number finds its sum with itself, so the first pass does. -/
theorem Parser.entries_covered_arithmetic :
    ∃ record ∈ ((⟨.arithmetic, ["three"], .second, none⟩ : Task).build .empty none).chart.entries
        (.floating 1 1),
      ∃ covering ∈ ((⟨.arithmetic, ["three"], .first, none⟩ : Task).build .empty none).chart.entries
          (.floating 1 1),
        ∃ sense,
          ((⟨.arithmetic, ["three"], .first, none⟩ : Task).build .empty none).table.sense?
            covering.key.meaning = some sense ∧
          ((⟨.arithmetic, ["three"], .second, none⟩ : Task).build .empty none).table.sense?
            record.key.meaning = some sense := by
  have hsome : (((⟨.arithmetic, ["three"], .second, none⟩ : Task).build .empty
      none).chart.entries (.floating 1 1)).isEmpty = false := by decide +kernel
  obtain ⟨record, hrecord⟩ := List.exists_mem_of_ne_nil _ (List.isEmpty_eq_false_iff.1 hsome)
  exact ⟨record, hrecord, Parser.entries_covered Parser.ofConfig_arithmetic rfl (by decide)
    ["three"] MeaningTable.refersBack_empty MeaningTable.refersBack_empty none
    (by decide +kernel) hrecord⟩

end GuidedChart
