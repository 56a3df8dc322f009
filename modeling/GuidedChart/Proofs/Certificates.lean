import GuidedChart.Proofs.Coverage
import GuidedChart.Proofs.Parsing

/-!
# What a flag of the first pass certifies

The first pass keeps one derivation for each meaning, and flags a record when everything that was
found for it had one formula. A second pass may keep more derivations, and the first pass may have
discarded some of those; but what the second pass holds is covered in the first at every moment
(`Work.Covers`), and what is covered stays covered to the end (`Task.covered_workAfter`). So a flag
that is there in the end is true of every derivation that a second pass holds for the same meaning,
whatever that pass was kept to, and whatever its beam dropped
(`Parser.formula_eq_of_singleFormula`).
-/

namespace GuidedChart

namespace Task

variable {a b : Task} {useful : CategoryId → Nat → Bool} {table table' : MeaningTable}
  {cancelAt : Option Nat}

/-- What is covered after some blocks is covered after more of them. -/
theorem covered_workAfter (ht : table.RefersBack) (ha : a.HidesNothing) {k n : Nat} (hkn : k ≤ n)
    {cell : Cell} {d : Derivation} (h : (a.workAfter useful table cancelAt k).Covered cell d) :
    (a.workAfter useful table cancelAt n).Covered cell d := by
  have hboth : (a.workAfter useful table cancelAt n).Open ∧
      (a.workAfter useful table cancelAt n).Covered cell d := by
    rw [workAfter_of_le hkn]
    apply foldl_runBlock_induction_of_sound (P := fun w => w.Open ∧ w.Covered cell d)
    · intro steps _ step _ w hsound ⟨hopen, hcovered⟩
      obtain ⟨groups, -, hgains⟩ := hsound.exists_attempts a step
      exact ⟨hopen.runStep hsound a step, hcovered.gains hsound hopen hgains⟩
    · intro w _ ⟨hopen, hcovered⟩
      exact ⟨hopen.settle ha, hcovered.settles (a.settles_settle w)⟩
    · exact sound_workAfter ht k
    · exact ⟨open_workAfter ht ha k, h⟩
  exact hboth.2

/-- A flag at the end of the first pass is true of what a later pass holds for the same meaning. -/
theorem Surveys.exists_representative (h : a.Surveys b) (ht : table.RefersBack)
    (ht' : table'.RefersBack) (hno : (a.runWith useful table none).report.hitCeiling = false)
    {flagged record : Record} (hflagged : flagged ∈ (a.runWith useful table none).chart.records)
    (hsingle : flagged.singleFormula = true)
    (hrecord : record ∈ (b.runWith useful table' cancelAt).chart.records)
    (hcell : record.key.cell = flagged.key.cell) {s : Sense}
    (hs : (a.runWith useful table none).table.sense? flagged.key.meaning = some s)
    (hs' : (b.runWith useful table' cancelAt).table.sense? record.key.meaning = some s) :
    ∃ representative, flagged.derivations[0]? = some representative ∧
      ∀ d ∈ record.derivations.toList, d.formula = representative.formula := by
  obtain ⟨n, hn⟩ := a.exists_endsAt_run useful table none
  obtain ⟨k, hk⟩ := b.exists_endsAt_run useful table' cancelAt
  have hkn : k ≤ n := by
    rw [hn.eq_length hno, ← plan_congr useful h.parser h.tokens]
    exact hk.le_length
  have hsound : (a.workAfter useful table none n).Sound := sound_workAfter ht n
  have hsound' : (b.workAfter useful table' cancelAt k).Sound := sound_workAfter ht' k
  have hopen : (a.workAfter useful table none n).Open := open_workAfter ht h.hidesNothing n
  rw [hn.chart, Chart.mem_records] at hflagged
  rw [hk.chart, Chart.mem_records] at hrecord
  rw [hn.table_eq] at hs
  rw [hk.table_eq] at hs'
  obtain ⟨key, hl⟩ := hflagged
  obtain ⟨key', hl'⟩ := hrecord
  obtain rfl : flagged.key = key := hsound.keyed key flagged hl
  obtain rfl : record.key = key' := hsound'.keyed key' record hl'
  -- the representative is the first derivation that is kept
  have hpos : 0 < flagged.derivations.size := by
    have hne := List.length_pos_iff.2 (hopen.readable _ _ hl).2
    rwa [Array.length_toList] at hne
  refine ⟨flagged.derivations[0], Array.getElem?_eq_getElem hpos, fun d hd => ?_⟩
  rw [← Chart.derivationsOf_of_lookup? hl'] at hd
  have hcovered : (a.workAfter useful table none n).Covered record.key.cell d :=
    covered_workAfter ht h.hidesNothing hkn ((h.covers_workAfter ht ht' k).covered _ d hd)
  obtain ⟨m, hm, -, hflag⟩ := hcovered
  -- the covering record is the flagged one, since it has the same sense
  have hsense : d.sense = s := Option.some.inj ((hsound'.sense? _ d hd).symm.trans hs')
  have hsame : m = flagged.key.meaning :=
    MeaningTable.sense?_inj hsound.refersBack (hsense ▸ hm) hs
  rw [hcell, hsame] at hflag
  refine (hflag ?_ _ ?_).symm
  · rw [← hsingle]
    exact Chart.isSingleFormula_of_lookup? hl
  · rw [Chart.derivationsOf_of_lookup? hl]
    exact Array.getElem_mem_toList hpos

end Task

/-- A flag of the first pass certifies the second: if a record of the first chart is flagged, every
derivation that a second pass holds for the same meaning of the same cell has the formula of its
representative. The second pass may be kept to some ingredients, it may be cancelled, and each pass
may start from an empty table or from one that a pass has left. -/
theorem Parser.formula_eq_of_singleFormula {grammar : Grammar} {config : Config} {scorer : Scorer}
    {parser : Parser} (hparser : Parser.ofConfig grammar config scorer = .ok parser)
    (hbeam : config.firstPassBeam = none)
    (hstrategies : ∀ name ∈ config.firstPassStrategies, name = Strategy.emptyValue.name)
    (ex : Example) {table table' : MeaningTable} (ht : table.RefersBack) (ht' : table'.RefersBack)
    (hceiling : ((parser.firstTask ex).build table none).report.hitCeiling = false)
    (allowed : Option (Numbering Ingredient)) (cancelAt : Option Nat) {flagged record : Record}
    (hflagged : flagged ∈ ((parser.firstTask ex).build table none).chart.records)
    (hsingle : flagged.singleFormula = true)
    (hrecord : record ∈ ((parser.secondTask ex allowed).build table' cancelAt).chart.records)
    (hcell : record.key.cell = flagged.key.cell) {s : Sense}
    (hs : ((parser.firstTask ex).build table none).table.sense? flagged.key.meaning = some s)
    (hs' : ((parser.secondTask ex allowed).build table' cancelAt).table.sense?
      record.key.meaning = some s) :
    ∃ representative, flagged.derivations[0]? = some representative ∧
      ∀ d ∈ record.derivations.toList, d.formula = representative.formula := by
  obtain ⟨-, rfl, -⟩ := Parser.eq_of_ofConfig hparser
  have hsurveys : (parser.firstTask ex).Surveys (parser.secondTask ex allowed) :=
    ⟨rfl, rfl, rfl, nofun, hbeam, hstrategies⟩
  exact hsurveys.exists_representative ht ht' hceiling hflagged hsingle hrecord hcell hs hs'

/-- The number that was read is flagged in the first pass, so the second pass, which starts from the
table of the first, has one formula for it. -/
theorem Parser.formula_eq_of_singleFormula_arithmetic :
    let first := (Parser.arithmetic.firstTask .six).build .empty none
    let second := (Parser.arithmetic.secondTask .six none).build first.table none
    ∃ flagged record, first.chart.lookup? ⟨.anchored 0 0 1, 0⟩ = some flagged ∧
      second.chart.lookup? ⟨.anchored 0 0 1, 0⟩ = some record ∧
      ∃ representative, flagged.derivations[0]? = some representative ∧
        ∀ d ∈ record.derivations.toList, d.formula = representative.formula := by
  intro first second
  have hback : first.table.RefersBack :=
    Task.refersBack_build _ MeaningTable.refersBack_empty none
  have hback' : second.table.RefersBack := Task.refersBack_build _ hback none
  have hflagged : (first.chart.lookup? ⟨.anchored 0 0 1, 0⟩).map (·.singleFormula) = some true := by
    decide +kernel
  have hrecord : (second.chart.lookup? ⟨.anchored 0 0 1, 0⟩).isSome = true := by decide +kernel
  obtain ⟨flagged, hl, hsingle⟩ := Option.map_eq_some_iff.1 hflagged
  obtain ⟨record, hl'⟩ := Option.isSome_iff_exists.1 hrecord
  have hkey : flagged.key = ⟨.anchored 0 0 1, 0⟩ :=
    Task.keyed_build _ MeaningTable.refersBack_empty none _ _ hl
  have hkey' : record.key = ⟨.anchored 0 0 1, 0⟩ := Task.keyed_build _ hback none _ _ hl'
  have hmeaning : first.table.key? 0 = some (.value (.number 3)) := by decide +kernel
  have hmeaning' : second.table.key? 0 = some (.value (.number 3)) := by decide +kernel
  have hs : first.table.sense? flagged.key.meaning = some (.value (.number 3)) := by
    rw [hkey, MeaningTable.sense?_eq hback]
    simp [hmeaning, Meaning.sense]
  have hs' : second.table.sense? record.key.meaning = some (.value (.number 3)) := by
    rw [hkey', MeaningTable.sense?_eq hback']
    simp [hmeaning', Meaning.sense]
  have hcell : record.key.cell = flagged.key.cell := by rw [hkey, hkey']
  exact ⟨flagged, record, hl, hl', Parser.formula_eq_of_singleFormula Parser.ofConfig_arithmetic rfl
    (by decide) .six MeaningTable.refersBack_empty hback (by decide +kernel) none none
    (Chart.mem_records.2 ⟨_, hl⟩) hsingle (Chart.mem_records.2 ⟨_, hl'⟩) hcell hs hs'⟩

end GuidedChart
