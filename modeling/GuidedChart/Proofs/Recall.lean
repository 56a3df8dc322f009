import GuidedChart.Proofs.Parsing

/-!
# A guided parse recalls the target

Whatever beams do to both passes, a second pass that is kept to the provenance of the root entries
that answer the target comes to each of these entries again (`Parser.exists_recalled`), as long as
strategies look at values only.

The two passes are run side by side (`Work.Recalls`): each record of the first pass that lies behind
a root has, by the time it is made, its counterpart in the second. The first pass may have hidden
the record later and the second may have dropped the derivation it was built from; but some
derivation of the same sense is left, and a rule makes the same of it.
-/

namespace GuidedChart

open GuidedChart.Derivation (sense)

/-- A first pass and a later pass over the same tokens, both with strategies for values only, and no
limit to what children may share. -/
structure Task.Retraces (a b : Task) : Prop where
  parser : b.parser = a.parser
  tokens : b.tokens = a.tokens
  later : b.pass ≠ .first
  noLimit : a.parser.config.maxAnchorOverlap = none
  strategies : ∀ s ∈ a.parser.pruner, s = .emptyValue
  firstPass : ∀ s ∈ a.parser.pruner, s.name ∈ a.parser.config.firstPassStrategies

/-- The second work has every record of the first that will be found to lie behind a root. The final
work is what the first one leads to. -/
structure Work.Recalls (final : Work) (roots : List BackPointer) (first second : Work) : Prop where
  soundFirst : first.Sound
  soundSecond : second.Sound
  openSecond : second.Open
  inTime : second.cancelAt = none
  senses : final.table.senses <+: second.table.senses
  holds : first.LeadsTo final → ∀ key, first.chart.Holds key → final.chart.Behind roots key →
    second.chart.Holds key

namespace Task

variable {a b : Task}

namespace Retraces

variable (h : a.Retraces b)

include h

theorem restrict_eq : a.parser.pruner.restrict (some a.parser.config.firstPassStrategies) =
    a.parser.pruner :=
  List.filter_eq_self.2 fun s hs => List.contains_iff_mem.2 (h.firstPass s hs)

/-- Both passes discard the same, whatever the flags say. -/
theorem rejects_eq {single single' : Bool} {c c' : Derivation} (hs : c'.sense = c.sense) :
    b.rejects single' c' = a.rejects single c := by
  have ha : a.pruner single = a.parser.pruner := by
    unfold pruner
    split
    · exact h.restrict_eq
    · rfl
  have hb : b.pruner single' = a.parser.pruner := by
    simp [pruner, h.later, h.parser, Pruner.restrict]
  have hv : c'.formula.value? = c.formula.value? := by
    rw [← Derivation.value?_sense, hs, Derivation.value?_sense]
  rw [rejects, rejects, ha, hb]
  exact Pruner.discards_congr h.strategies hv

theorem overlaps_eq_false (children : List Child) : b.overlaps children = false := by
  simp [overlaps, h.parser, h.noLimit]

theorem lift?_eq (cell : Cell) : b.lift? cell = a.lift? cell := by
  rw [lift?, lift?, h.parser]

end Retraces

end Task

namespace Work.Recalls

variable {a b : Task} {final v w : Work} {roots : List BackPointer} {step : Step}

/-- A child that lies behind a root can be read in the second pass too. -/
theorem exists_child (h : Recalls final roots v w) (hlead : v.LeadsTo final) {cell : Cell}
    {child : Child} (hc : child ∈ v.children cell) (hb : final.chart.Behind roots child.key) :
    ∃ other ∈ w.children cell, other.key = child.key ∧
      other.derivation.sense = child.derivation.sense := by
  have hd := mem_derivationsOf_of_mem_children h.soundFirst.keyed hc
  have hcell := cell_of_mem_children h.soundFirst.keyed hc
  have hheld := h.holds hlead _ (Chart.holds_of_mem_derivationsOf hd) hb
  obtain ⟨e, he⟩ := List.exists_mem_of_ne_nil _ (h.openSecond.readable.derivationsOf_ne_nil hheld)
  refine ⟨⟨child.key, e⟩, ?_, rfl, ?_⟩
  · rw [← hcell]
    exact mem_children_of_readable h.soundSecond.keyed h.openSecond.readable he
  · have hs := MeaningTable.sense?_of_prefix (hlead.senses.trans h.senses)
      (h.soundFirst.sense? _ _ hd)
    rw [h.soundSecond.sense? _ e he] at hs
    exact Option.some.inj hs

/-- What the first pass finds in a step and what lies behind a root, the second pass finds too. -/
theorem holds_of_finding (hab : a.Retraces b) (h : Recalls final roots v w)
    (hallowed : ∀ key, final.chart.Behind roots key → ∀ i ∈ final.chart.ingredientsOf key,
      b.allows i = true)
    {groups groups' : List (List Finding)}
    (hv : List.Forall₂ (a.Attempts step v) (v.readings step) groups) {v' : Work}
    (hgv : v.Gains a.retention v' groups.flatten) (hlead : v'.LeadsTo final)
    (hw : List.Forall₂ (b.Attempts step w) (w.readings step) groups') {w' : Work}
    (hgw : w.Gains b.retention w' groups'.flatten) {f : Finding} (hf : f ∈ groups.flatten)
    (hb : final.chart.Behind roots f.key) : w'.chart.Holds f.key := by
  have hlead' : v.LeadsTo final := hgv.leadsTo.trans hlead
  have hallows : ∀ g ∈ groups.flatten, final.chart.Behind roots g.key →
      b.allows g.ingredient = true :=
    fun g hg hbehind => hallowed _ hbehind _ (hgv.mem_ingredientsOf hlead hg)
  obtain ⟨children, hc, single, -, hp, g, hg, hfinds, hlift⟩ := Task.exists_finds_of_mem hv hf
  have hbg : final.chart.Behind roots g.key := by
    rcases hlift with rfl | ⟨hl, -⟩
    · exact hb
    · exact hb.back (hgv.mem_backPointersOf hlead hf (hl.sources ▸ List.mem_singleton_self g.key))
  -- the same rule over what is left of the children
  obtain ⟨others, ho, hall⟩ := exists_readings hc fun child hchild cell _ hm =>
    h.exists_child hlead' hm (hbg.back (hgv.mem_backPointersOf hlead hg
      (hfinds.sources ▸ List.mem_map_of_mem hchild)))
  have hingredient : Task.ingredient step.rule step.target others =
      Task.ingredient step.rule step.target children :=
    Task.ingredient_congr (map_eq_map_of_forall₂ hall fun _ _ _ hst => hst.1.symm).symm
  have hsenses : (children.map (·.derivation)).map sense =
      (others.map (·.derivation)).map sense := by
    rw [List.map_map, List.map_map]
    exact map_eq_map_of_forall₂ hall fun _ _ _ hst => hst.2.symm
  obtain ⟨hplace, hacc⟩ := Task.mem_placements.1 hp
  obtain ⟨c, hcand, hrej, hfin⟩ := Task.mem_accepted.1 hacc
  obtain ⟨c', hcand', hsense, -⟩ := Application.exists_candidate_congr hsenses hcand
  have hadmits : b.admits step.rule step.target others = true := by
    rw [Task.admits, hingredient, ← hfinds.ingredient, hallows g hg hbg, hab.overlaps_eq_false]
    rfl
  obtain ⟨single', -, hfiled⟩ := Task.exists_finding_of_admits hw ho h.inTime hadmits
  have hplace' : f.key.cell ∈ b.places (Task.ingredient step.rule step.target others) := by
    rw [hingredient]
    rcases hlift with rfl | ⟨hl, hcell, -⟩
    · rw [hfinds.cell]
      exact List.mem_cons_self
    · refine List.mem_cons_of_mem _ (List.mem_filter.2 ⟨?_, ?_⟩)
      · change f.key.cell ∈ (b.lift? step.target).toList
        rw [hab.lift?_eq]
        exact Option.mem_toList.2 hcell
      · rw [← hfinds.ingredient, ← hl.ingredient]
        exact hallows f hf hb
  obtain ⟨f', hf', hpl, -⟩ := hfiled (f.key.cell, b.finished c') (Task.mem_placements.2
    ⟨hplace', Task.mem_accepted.2 ⟨c', hab.tokens ▸ hcand', hab.rejects_eq hsense ▸ hrej, rfl⟩⟩)
  obtain ⟨hcell, hderiv⟩ := Prod.mk.inj hpl
  have hsame : f'.derivation.sense = f.derivation.sense := by
    rw [hderiv, ← hfin, Task.sense_finished, Task.sense_finished, hsense]
  have hmeaning : f'.key.meaning = f.key.meaning := by
    refine MeaningTable.sense?_inj hgw.refersBack (hgw.sense? f' hf') ?_
    rw [hsame]
    exact MeaningTable.sense?_of_prefix (hlead.senses.trans (h.senses.trans hgw.senses))
      (hgv.sense? f hf)
  have hkey : f'.key = f.key := BackPointer.ext hcell hmeaning
  rw [hgw.chart]
  exact Chart.holds_addAll.2 (Or.inr ⟨f', hf', hkey⟩)

theorem runStep (hab : a.Retraces b) (h : Recalls final roots v w)
    (hallowed : ∀ key, final.chart.Behind roots key → ∀ i ∈ final.chart.ingredientsOf key,
      b.allows i = true) (step : Step) :
    Recalls final roots (a.runStep v step) (b.runStep w step) := by
  obtain ⟨groups, hv, hgv⟩ := h.soundFirst.exists_attempts a step
  obtain ⟨groups', hw, hgw⟩ := h.soundSecond.exists_attempts b step
  refine ⟨h.soundFirst.runStep a step, h.soundSecond.runStep b step,
    h.openSecond.runStep h.soundSecond b step, hgw.cancelAt.trans h.inTime,
    h.senses.trans hgw.senses, fun hlead key hk hb => ?_⟩
  rw [hgv.chart] at hk
  rcases Chart.holds_addAll.1 hk with hk | ⟨f, hf, rfl⟩
  · exact hgw.leadsTo.chart.holds _ (h.holds (hgv.leadsTo.trans hlead) key hk hb)
  · exact h.holds_of_finding hab hallowed hv hgv hlead hw hgw hf hb

theorem settle (hb : b.HidesNothing) (h : Recalls final roots v w) :
    Recalls final roots (a.settle v) (b.settle w) := by
  have hv := a.settles_settle v
  have hw := b.settles_settle w
  refine ⟨h.soundFirst.settle a, h.soundSecond.settle b, h.openSecond.settle hb,
    hw.cancelAt.trans h.inTime, hw.table ▸ h.senses, fun hlead key hk hbehind => ?_⟩
  exact (hw.chart.holds key).2
    (h.holds (hv.leadsTo.trans hlead) key ((hv.chart.holds key).1 hk) hbehind)

end Work.Recalls

/-! ## Whole passes -/

namespace Task

variable {a b : Task} {useful : CategoryId → Nat → Bool} {cancelAt : Option Nat}

theorem Retraces.recalls_workAfter (h : a.Retraces b) (hb : b.HidesNothing) {table : MeaningTable}
    (ht : table.RefersBack) {final : Work} (hfinal : final.table.RefersBack)
    {roots : List BackPointer}
    (hallowed : ∀ key, final.chart.Behind roots key → ∀ i ∈ final.chart.ingredientsOf key,
      b.allows i = true) (n : Nat) :
    Work.Recalls final roots (a.workAfter useful table cancelAt n)
      (b.workAfter useful final.table none n) := by
  rw [workAfter, workAfter, plan_congr useful h.parser h.tokens]
  refine foldl_runBlock_rel (fun _ _ step _ v w hvw => hvw.runStep h hallowed step)
    (fun v w hvw => hvw.settle hb) ?_
  exact ⟨Work.sound_start ht cancelAt, Work.sound_start hfinal none,
    Work.open_start final.table none, rfl, List.prefix_refl _,
    fun _ key hk => absurd hk (Work.not_holds_start table cancelAt key)⟩

/-- A root entry of the first pass has its entry in the second, with derivations of its sense. -/
theorem Retraces.exists_record (h : a.Retraces b) (hb : b.HidesNothing) {table : MeaningTable}
    (ht : table.RefersBack) {roots : List BackPointer}
    (hallowed : ∀ i, (∃ key, (a.runWith useful table cancelAt).chart.Behind roots key ∧
      i ∈ (a.runWith useful table cancelAt).chart.ingredientsOf key) → b.allows i = true)
    (hno : (b.runWith useful (a.runWith useful table cancelAt).table none).report.hitCeiling =
      false)
    {root : BackPointer} (hr : root ∈ roots)
    (hk : (a.runWith useful table cancelAt).chart.Holds root) :
    ∃ record ∈ (b.runWith useful (a.runWith useful table cancelAt).table none).chart.entries
        root.cell,
      record.key = root ∧ record.derivations.toList ≠ [] ∧ ∀ d ∈ record.derivations.toList,
        d.outcome = some d.formula.execute ∧
          (a.runWith useful table cancelAt).table.sense? root.meaning = some d.sense := by
  obtain ⟨n, hn⟩ := a.exists_endsAt_run useful table cancelAt
  rw [hn.chart] at hallowed hk
  rw [hn.table_eq] at hno ⊢
  obtain ⟨k, hend⟩ := b.exists_endsAt_run useful (a.workAfter useful table cancelAt n).table none
  have hsound : (a.workAfter useful table cancelAt n).Sound := sound_workAfter ht n
  -- the second pass goes through the whole plan, so it gets as far as the first one
  have hnk : n ≤ k := by
    rw [hend.eq_length hno, plan_congr useful h.parser h.tokens]
    exact hn.le_length
  rw [hend.chart]
  have hrecalls : Work.Recalls (a.workAfter useful table cancelAt n) roots
      (a.workAfter useful table cancelAt n)
      (b.workAfter useful (a.workAfter useful table cancelAt n).table none n) :=
    h.recalls_workAfter hb ht hsound.refersBack (fun key hbehind i hi =>
      hallowed i ⟨key, hbehind, hi⟩) n
  have hlead : (b.workAfter useful (a.workAfter useful table cancelAt n).table none n).LeadsTo
      (b.workAfter useful (a.workAfter useful table cancelAt n).table none k) :=
    leadsTo_workAfter hsound.refersBack hnk
  have hsound' : (b.workAfter useful (a.workAfter useful table cancelAt n).table none k).Sound :=
    sound_workAfter hsound.refersBack k
  have hopen : (b.workAfter useful (a.workAfter useful table cancelAt n).table none k).Open :=
    open_workAfter hsound.refersBack hb k
  obtain ⟨record, hl⟩ := hlead.chart.holds root
    (hrecalls.holds (.refl _) root hk ⟨root, hr, .refl⟩)
  refine ⟨record, Chart.mem_entries.2 ⟨⟨root.meaning, hl⟩, (hopen.readable _ _ hl).1⟩,
    hsound'.keyed _ _ hl, (hopen.readable _ _ hl).2, fun d hd => ?_⟩
  rw [← Chart.derivationsOf_of_lookup? hl] at hd
  refine ⟨hsound'.executed root d hd, ?_⟩
  obtain ⟨s, hs⟩ := hsound.known root hk
  have hsense := hsound'.sense? root d hd
  rw [MeaningTable.sense?_of_prefix (hrecalls.senses.trans hlead.senses) hs] at hsense
  rw [hs, hsense]

end Task

namespace Parser

variable {parser : Parser}

theorem retraces (hpruner : parser.config.pruner = .ok parser.pruner)
    (hsame : ∀ name, name ∈ parser.config.strategies ↔ name ∈ parser.config.firstPassStrategies)
    (hvalue : ∀ name ∈ parser.config.strategies, name = Strategy.emptyValue.name)
    (hoverlap : parser.config.maxAnchorOverlap = none) (ex : Example)
    (allowed : Option (Numbering Ingredient)) :
    (parser.firstTask ex).Retraces (parser.secondTask ex allowed) := by
  have hname : ∀ s ∈ parser.pruner, s.name ∈ parser.config.strategies := fun s hs =>
    Pruner.name_mem_of_ofNames (Config.eq_ok_of_pruner hpruner).1 hs
  refine ⟨rfl, rfl, nofun, hoverlap, fun s hs => ?_, fun s hs => (hsame _).1 (hname s hs)⟩
  have hn := hvalue _ (hname s hs)
  cases s with
  | emptyValue => rfl
  | duplicateArguments => exact absurd hn (by decide)

theorem holds_of_mem_targetRoots {output : PassOutput} (h : output.chart.Keyed) {numTokens : Nat}
    {target : Value} {root : BackPointer}
    (hr : root ∈ parser.targetRoots output numTokens target) :
    root.cell ∈ parser.rootCells numTokens ∧ output.chart.Holds root := by
  obtain ⟨cell, hcell, hr⟩ := List.mem_flatMap.1 hr
  obtain ⟨record, hrecord, rfl⟩ := List.mem_map.1 (List.mem_of_mem_filter hr)
  obtain ⟨⟨meaning, hl⟩, -⟩ := Chart.mem_entries.1 hrecord
  have hkey := h _ _ hl
  rw [hkey]
  exact ⟨hcell, record, hl⟩

end Parser

/-- However much the beams cut, and wherever the first pass was cancelled, each root entry that
answers the target has its entry in the second pass, with a candidate that answers the target. -/
theorem Parser.exists_recalled {grammar : Grammar} {config : Config} {scorer : Scorer}
    {parser : Parser} (hparser : Parser.ofConfig grammar config scorer = .ok parser)
    (hgrammar : grammar.Accepted)
    (hsame : ∀ name, name ∈ config.strategies ↔ name ∈ config.firstPassStrategies)
    (hvalue : ∀ name ∈ config.strategies, name = Strategy.emptyValue.name)
    (hoverlap : config.maxAnchorOverlap = none) (ex : Example) (target : Value)
    (cancelAt : Option Nat) :
    let first := (parser.firstTask ex).build .empty cancelAt
    let roots := parser.targetRoots first ex.tokens.length target
    ∃ allowed, first.chart.provenance roots = .ok allowed ∧
      let second := (parser.secondTask ex (some allowed)).build first.table none
      second.report.hitCeiling = false →
      ∀ root ∈ roots, ∃ record ∈ second.chart.entries root.cell, record.key = root ∧
        record.derivations.toList ≠ [] ∧ ∀ d ∈ record.derivations.toList,
          d ∈ parser.rootDerivations second ex.tokens.length ∧
            ∃ v, d.outcome = some (.ok v) ∧ target.Answers v := by
  obtain ⟨rfl, rfl, hpruner⟩ := Parser.eq_of_ofConfig hparser
  intro first roots
  let useful := parser.depthBounds.admits
  obtain ⟨allowed, hok, hmem⟩ := (parser.firstTask ex).exists_provenance useful cancelAt hgrammar
    MeaningTable.refersBack_empty roots
  refine ⟨allowed, hok, fun hno root hroot => ?_⟩
  have hhides : (parser.secondTask ex (some allowed)).HidesNothing :=
    Config.beamSize_pos_of_pruner hpruner
  obtain ⟨hcell, hheld⟩ := Parser.holds_of_mem_targetRoots
    (Task.keyed_build _ MeaningTable.refersBack_empty cancelAt) hroot
  let second := (parser.secondTask ex (some allowed)).build first.table none
  obtain ⟨record, hrecord, hkey, hne, hall⟩ : ∃ record ∈ second.chart.entries root.cell,
      record.key = root ∧ record.derivations.toList ≠ [] ∧ ∀ d ∈ record.derivations.toList,
        d.outcome = some d.formula.execute ∧ first.table.sense? root.meaning = some d.sense :=
    (Parser.retraces hpruner hsame hvalue hoverlap ex (some allowed)).exists_record hhides
      MeaningTable.refersBack_empty
      (fun i hi => Parser.allows_secondTask.2 ((hmem i).2 hi)) hno hroot hheld
  obtain ⟨v, hv, hanswers⟩ := Parser.exists_answer_of_mem_targetRoots
    (Task.refersBack_build _ MeaningTable.refersBack_empty cancelAt) hroot
  refine ⟨record, hrecord, hkey, hne, fun d hd => ⟨?_, v, ?_, hanswers⟩⟩
  · exact List.mem_flatMap.2 ⟨root.cell, hcell, List.mem_flatMap.2 ⟨record, hrecord, hd⟩⟩
  · obtain ⟨hexecuted, hsense⟩ := hall d hd
    rw [hsense] at hv
    exact Derivation.outcome_of_value?_sense hexecuted hv

/-- Asked for a sum, the first pass has a root that answers, and the second pass comes to it. -/
theorem Parser.exists_recalled_arithmetic :
    ∃ allowed,
      ((Parser.arithmetic.firstTask .six).build .empty none).chart.provenance
        (Parser.arithmetic.targetRoots ((Parser.arithmetic.firstTask .six).build .empty none)
          Example.six.tokens.length (.number 6)) = .ok allowed ∧
      ∃ d ∈ Parser.arithmetic.rootDerivations
          ((Parser.arithmetic.secondTask .six (some allowed)).build
            ((Parser.arithmetic.firstTask .six).build .empty none).table none)
          Example.six.tokens.length,
        ∃ v, d.outcome = some (.ok v) ∧ (Value.number 6).Answers v := by
  have hrecalled := Parser.exists_recalled Parser.ofConfig_arithmetic Grammar.accepted_arithmetic
    (fun _ => Iff.rfl) (by decide) rfl .six (.number 6) none
  obtain ⟨allowed, hok, hrecalled⟩ := hrecalled
  have hsome : (Parser.arithmetic.targetRoots ((Parser.arithmetic.firstTask .six).build .empty none)
      Example.six.tokens.length (.number 6)).isEmpty = false := by decide +kernel
  obtain ⟨root, hroot⟩ := List.exists_mem_of_ne_nil _ (List.isEmpty_eq_false_iff.1 hsome)
  have hceiling : (((Parser.arithmetic.firstTask .six).build .empty none).chart.provenance
      (Parser.arithmetic.targetRoots ((Parser.arithmetic.firstTask .six).build .empty none)
        Example.six.tokens.length (.number 6))).toOption.map (fun allowed =>
          ((Parser.arithmetic.secondTask .six (some allowed)).build
            ((Parser.arithmetic.firstTask .six).build .empty none).table none).report.hitCeiling) =
        some false := by decide +kernel
  rw [hok] at hceiling
  have hno : ((Parser.arithmetic.secondTask .six (some allowed)).build
      ((Parser.arithmetic.firstTask .six).build .empty none).table none).report.hitCeiling =
        false := Option.some.inj hceiling
  obtain ⟨record, -, -, hne, hall⟩ := hrecalled hno root hroot
  obtain ⟨d, hd⟩ := List.exists_mem_of_ne_nil _ hne
  exact ⟨allowed, hok, d, (hall d hd).1, (hall d hd).2⟩

end GuidedChart
