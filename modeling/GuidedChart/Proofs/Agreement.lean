import GuidedChart.Proofs.Construction.Contributions
import GuidedChart.Proofs.Coverage
import GuidedChart.Proofs.Parsing

/-!
# A guided parse agrees with a free one

As long as no beam of the free parse drops a derivation, a parse that is kept to the provenance of
the target has no candidate that the free parse does not have, and the candidates that answer the
target are the same in both, in the same order (`Parser.guided_agrees`).

Three passes are run side by side: the first pass, the second pass that is kept to what lies behind
the roots, and the free second pass (`Work.Agrees`). A derivation is wanted in a cell if something
of its sense lies behind a root there (`Work.Wants`). All that a wanted derivation is made of is
wanted, and every way to it is permitted (`Covers.exists_behind`), because the first pass comes to
the same sense over representatives of the children. So the wanted derivations of both second
passes are made of wanted derivations only, and of all of those.
-/

namespace GuidedChart

open GuidedChart.Derivation (sense)

/-- Does something of the sense of the derivation lie behind the roots, in this cell? -/
def Work.Wants (final : Work) (roots : List BackPointer) (cell : Cell) (d : Derivation) : Prop :=
  ∃ key, final.chart.Behind roots key ∧ key.cell = cell ∧
    final.table.sense? key.meaning = some d.sense

open Classical in
noncomputable def Work.wanted (final : Work) (roots : List BackPointer) (cell : Cell)
    (ds : List Derivation) : List Derivation :=
  ds.filter fun d => decide (final.Wants roots cell d)

namespace Work

section Wanted

variable {final : Work} {roots : List BackPointer} {cell : Cell} {ds : List Derivation}

theorem mem_wanted {d : Derivation} :
    d ∈ final.wanted roots cell ds ↔ d ∈ ds ∧ final.Wants roots cell d := by
  classical
  rw [wanted, List.mem_filter, decide_eq_true_eq]

theorem wanted_placeAll (es : List Derivation) :
    final.wanted roots cell (Derivation.placeAll ds es) =
      Derivation.placeAll (final.wanted roots cell ds) (final.wanted roots cell es) :=
  Derivation.filter_placeAll fun d e hs => by rw [Wants, Wants, hs]

end Wanted

end Work

namespace Work.Covers

variable {a b : Task} {v w final : Work} {roots : List BackPointer} {step : Step} {cell : Cell}
  {children : List Child} {d : Derivation}

/-- Behind a wanted derivation of a later pass there are representatives of its children, and the
ways in which the first pass came to its sense over them. -/
theorem exists_behind (hab : a.Surveys b) (h : v.Covers w)
    (hlead : (a.runStep v step).LeadsTo final) (hfinal : final.table.RefersBack)
    (hc : children ∈ w.readings step)
    (hd : d ∈ b.comesTo step.rule step.target cell (children.map (·.derivation)))
    (hw : final.Wants roots cell d) :
    ∃ others, List.Forall₂ (fun child other => other.key.cell = child.key.cell ∧
        final.table.sense? other.key.meaning = some child.derivation.sense ∧
        final.chart.Behind roots other.key) children others ∧
      (∃ key, final.chart.Behind roots key ∧
        Task.ingredient step.rule step.target others ∈ final.chart.ingredientsOf key) ∧
      ∃ key, final.chart.Behind roots key ∧
        { Task.ingredient step.rule step.target others with cell } ∈
          final.chart.ingredientsOf key := by
  have hcomes : cell ∈ step.target :: (b.lift? step.target).toList ∧
      d ∈ b.accepted false (Task.application step.rule step.target children) := by
    unfold Task.comesTo at hd
    split at hd
    · rename_i hcond
      exact ⟨hcond.1, hd⟩
    · cases hd
  obtain ⟨groups, hv, hg⟩ := h.soundFirst.exists_attempts a step
  obtain ⟨others, hall, f, hf, hcell, hsense, -, g, hgm, hlift, single, hfinds⟩ :=
    h.exists_finding hab hv hc hcomes.2 hcomes.1
  -- what the first pass finds here is what is wanted
  obtain ⟨key, hbehind, hkey, hs⟩ := hw
  have hfs : final.table.sense? f.key.meaning = some d.sense := by
    rw [← hsense]
    exact MeaningTable.sense?_of_prefix hlead.senses (hg.sense? f hf)
  have hbf : final.chart.Behind roots f.key := by
    have he : key = f.key :=
      BackPointer.ext (hkey.trans hcell.symm) (MeaningTable.sense?_inj hfinal hs hfs)
    rwa [← he]
  have hbg : final.chart.Behind roots g.key := by
    rcases hlift with rfl | hl
    · exact hbf
    · exact hbf.back (hg.mem_backPointersOf hlead hf (hl.sources ▸ List.mem_singleton_self g.key))
  have hothers : ∀ other ∈ others, final.chart.Behind roots other.key := fun other ho =>
    hbg.back (hg.mem_backPointersOf hlead hgm (hfinds.sources ▸ List.mem_map_of_mem ho))
  refine ⟨others, ?_, ⟨g.key, hbg, ?_⟩, f.key, hbf, ?_⟩
  · rw [List.forall₂_iff_get] at hall ⊢
    refine ⟨hall.1, fun i hi ho => ?_⟩
    obtain ⟨hcell', hs'⟩ := hall.2 i hi ho
    exact ⟨hcell', MeaningTable.sense?_of_prefix (hg.leadsTo.trans hlead).senses hs',
      hothers _ (List.get_mem ..)⟩
  · rw [← hfinds.ingredient]
    exact hg.mem_ingredientsOf hlead hgm
  · have hi := hg.mem_ingredientsOf hlead hf
    rcases hlift with rfl | hl
    · rw [hfinds.ingredient] at hi
      have ht : cell = step.target := hcell.symm.trans hfinds.cell
      rwa [ht]
    · rw [hl.ingredient, hfinds.ingredient, hcell] at hi
      exact hi

/-- What a wanted derivation is made of is wanted. -/
theorem wants_children (hab : a.Surveys b) (h : v.Covers w)
    (hlead : (a.runStep v step).LeadsTo final) (hfinal : final.table.RefersBack)
    (hc : children ∈ w.readings step)
    (hd : d ∈ b.comesTo step.rule step.target cell (children.map (·.derivation)))
    (hw : final.Wants roots cell d) :
    List.Forall₂ (fun e source => final.Wants roots source e) (children.map (·.derivation))
      step.sources := by
  obtain ⟨others, hall, -⟩ := h.exists_behind hab hlead hfinal hc hd hw
  have hread := mem_readings.1 hc
  rw [List.forall₂_map_left_iff]
  rw [List.forall₂_iff_get] at hall hread ⊢
  refine ⟨hread.1, fun i hi hs => ?_⟩
  obtain ⟨hcell, hsense, hbehind⟩ := hall.2 i hi (hall.1 ▸ hi)
  refine ⟨_, hbehind, ?_, hsense⟩
  rw [hcell]
  exact cell_of_mem_children h.soundSecond.keyed (hread.2 i hi hs)

/-- Every way to a wanted derivation is permitted. -/
theorem permits (hab : a.Surveys b) (h : v.Covers w)
    (hlead : (a.runStep v step).LeadsTo final) (hfinal : final.table.RefersBack)
    (hsenses : final.table.senses <+: w.table.senses)
    (hallowed : ∀ key, final.chart.Behind roots key → ∀ i ∈ final.chart.ingredientsOf key,
      b.allows i = true)
    (hc : children ∈ w.readings step)
    (hd : d ∈ b.comesTo step.rule step.target cell (children.map (·.derivation)))
    (hw : final.Wants roots cell d) : b.permits step.rule step.target cell children = true := by
  obtain ⟨others, hall, ⟨key, hk, hi⟩, key', hk', hi'⟩ :=
    h.exists_behind hab hlead hfinal hc hd hw
  have hkeys : others.map (·.key) = children.map (·.key) := by
    refine map_eq_map_of_forall₂ hall.flip fun other child hchild hst => ?_
    obtain ⟨hcell, hsense, -⟩ := hst
    obtain ⟨source, -, hm⟩ := exists_cell_of_mem_readings hc hchild
    have hmeaning : other.key.meaning = child.key.meaning :=
      MeaningTable.sense?_inj h.soundSecond.refersBack
        (MeaningTable.sense?_of_prefix hsenses hsense) (h.soundSecond.knows source child hm)
    exact BackPointer.ext hcell hmeaning
  rw [Task.ingredient_congr hkeys] at hi hi'
  rw [Task.permits, hallowed key hk _ hi, hallowed key' hk' _ hi']
  rfl

/-- The wanted contributions of a step are those over the wanted derivations of its sources. -/
theorem wanted_contributions (hab : a.Surveys b) (h : v.Covers w)
    (hlead : (a.runStep v step).LeadsTo final) (hfinal : final.table.RefersBack)
    (hpermits : ∀ children ∈ w.readings step,
      ∀ d ∈ b.comesTo step.rule step.target cell (children.map (·.derivation)),
        final.Wants roots cell d → b.permits step.rule step.target cell children = true) :
    final.wanted roots cell
        ((w.readings step).flatMap (b.contribution step.rule step.target cell)) =
      (combinations (step.sources.map fun source =>
        final.wanted roots source (w.chart.derivations source))).flatMap fun ds =>
          final.wanted roots cell (b.comesTo step.rule step.target cell ds) := by
  classical
  have hgate : ∀ children ∈ w.readings step,
      final.wanted roots cell (b.contribution step.rule step.target cell children) =
        final.wanted roots cell
          (b.comesTo step.rule step.target cell (children.map (·.derivation))) := by
    intro children hc
    unfold Task.contribution
    split
    · rfl
    · rename_i hno
      refine (List.eq_nil_iff_forall_not_mem.2 fun d hd => hno ?_).symm
      obtain ⟨hd, hw⟩ := mem_wanted.1 hd
      exact hpermits children hc d hd hw
  calc final.wanted roots cell
        ((w.readings step).flatMap (b.contribution step.rule step.target cell))
      = (w.readings step).flatMap fun children => final.wanted roots cell
          (b.contribution step.rule step.target cell children) := List.filter_flatMap ..
    _ = (w.readings step).flatMap fun children => final.wanted roots cell
          (b.comesTo step.rule step.target cell (children.map (·.derivation))) :=
        List.flatMap_congr hgate
    _ = (combinations (step.sources.map w.chart.derivations)).flatMap fun ds =>
          final.wanted roots cell (b.comesTo step.rule step.target cell ds) :=
        flatMap_readings w step fun ds =>
          final.wanted roots cell (b.comesTo step.rule step.target cell ds)
    _ = _ := flatMap_combinations_filter fun ds hds hne => ?_
  rw [← map_readings, List.mem_map] at hds
  obtain ⟨children, hc, rfl⟩ := hds
  obtain ⟨d, hd⟩ := List.exists_mem_of_ne_nil _ hne
  obtain ⟨hd, hw⟩ := mem_wanted.1 hd
  exact (h.wants_children hab hlead hfinal hc hd hw).imp fun e source he => decide_eq_true he

end Work.Covers

/-! ## Three passes side by side -/

/-- How a second pass that is kept to what lies behind the roots compares with a free one. -/
structure Work.Alike (final : Work) (roots : List BackPointer) (k : Nat) (kept free : Work) :
    Prop where
  within : ∀ cell, (kept.chart.derivations cell).Subperm (free.chart.derivations cell)
  wanted : ∀ cell, final.wanted roots cell (kept.chart.derivations cell) =
    final.wanted roots cell (free.chart.derivations cell)
  /-- What was not added to since the last beam is small enough for the next one. -/
  fits : ∀ cell, cell ∉ free.touched.toList → free.chart.Fits k cell

/-- The first pass covers both second passes, and they are alike if it leads to the final work and
the beam of the free pass has dropped nothing. -/
structure Work.Agrees (final : Work) (roots : List BackPointer) (k : Nat)
    (first kept free : Work) : Prop where
  coversKept : first.Covers kept
  coversFree : first.Covers free
  openKept : kept.Open
  openFree : free.Open
  inTimeKept : kept.cancelAt = none
  inTimeFree : free.cancelAt = none
  senses : final.table.senses <+: kept.table.senses
  alike : first.LeadsTo final → free.report.beamDropped = 0 → Alike final roots k kept free

/-- A first pass, a second pass that may use all that lies behind the roots, and a free second
pass. -/
structure Task.Frames (a b c : Task) (final : Work) (roots : List BackPointer) : Prop where
  kept : a.Surveys b
  free : a.Surveys c
  hidesNothing : 0 < a.parser.config.beamSize
  refersBack : final.table.RefersBack
  allows : ∀ key, final.chart.Behind roots key → ∀ i ∈ final.chart.ingredientsOf key,
    b.allows i = true
  allowsAll : ∀ i, c.allows i = true

namespace Work.Agrees

variable {a b c : Task} {final first kept free : Work} {roots : List BackPointer} {k : Nat}

theorem alike_runStep (h : Agrees final roots k first kept free)
    (hf : a.Frames b c final roots) (step : Step)
    (hlead : (a.runStep first step).LeadsTo final)
    (hzero : (c.runStep free step).report.beamDropped = 0) :
    Alike final roots k (b.runStep kept step) (c.runStep free step) := by
  have hdropped : free.report.beamDropped = 0 := by
    obtain ⟨groups, -, hg⟩ := h.coversFree.soundSecond.exists_attempts c step
    rwa [← hg.beamDropped]
  have halike := h.alike ((h.coversKept.soundFirst.leadsTo_runStep a step).trans hlead) hdropped
  have hcomes : c.comesTo = b.comesTo :=
    Task.comesTo_congr (hf.free.parser.trans hf.kept.parser.symm)
      (hf.free.tokens.trans hf.kept.tokens.symm) hf.kept.later hf.free.later
  have hpermits : ∀ cell children,
      c.permits step.rule step.target cell children = true := by
    intro cell children
    rw [Task.permits, hf.allowsAll, hf.allowsAll]
    rfl
  have hkept := fun cell => h.coversKept.soundSecond.derivations_runStep h.openKept hf.kept.later
    h.inTimeKept step cell
  have hfree := fun cell => h.coversFree.soundSecond.derivations_runStep h.openFree hf.free.later
    h.inTimeFree step cell
  refine ⟨fun cell => ?_, fun cell => ?_, fun cell hcell => ?_⟩
  · -- a part of what comes of it, over a part of what can be read
    have hread : (combinations (step.sources.map kept.chart.derivations)).Subperm
        (combinations (step.sources.map free.chart.derivations)) := by
      refine combinations_subperm ?_
      rw [List.forall₂_map_left_iff, List.forall₂_map_right_iff, List.forall₂_same]
      exact fun source _ => halike.within source
    have hpart : ((kept.readings step).flatMap
        (b.contribution step.rule step.target cell)).Subperm
        ((free.readings step).flatMap (c.contribution step.rule step.target cell)) := by
      rw [contributions_of_permits (hpermits cell), hcomes]
      exact (contributions_subperm b kept step cell).trans (flatMap_subperm hread _)
    rw [hkept, hfree]
    exact (Derivation.placeAll_perm _ _).subperm.trans
      (((halike.within cell).append hpart).trans (Derivation.placeAll_perm _ _).symm.subperm)
  · -- both passes file the wanted contributions, over the same wanted derivations
    have hsame : final.wanted roots cell ((kept.readings step).flatMap
        (b.contribution step.rule step.target cell)) = final.wanted roots cell
          ((free.readings step).flatMap (c.contribution step.rule step.target cell)) := by
      rw [h.coversKept.wanted_contributions hf.kept hlead hf.refersBack fun children hc d hd hw =>
          h.coversKept.permits hf.kept hlead hf.refersBack h.senses hf.allows hc hd hw,
        h.coversFree.wanted_contributions hf.free hlead hf.refersBack fun children _ _ _ _ =>
          hpermits cell children, hcomes]
      simp only [halike.wanted]
    rw [hkept, hfree, wanted_placeAll, wanted_placeAll, halike.wanted cell, hsame]
  · obtain ⟨huntouched, hsame⟩ :=
      h.coversFree.soundSecond.derivations_runStep_of_untouched h.openFree hf.free.later hcell
    exact (halike.fits cell huntouched).mono (hsame ▸ .refl _)

theorem runStep (h : Agrees final roots k first kept free) (hf : a.Frames b c final roots)
    (step : Step) :
    Agrees final roots k (a.runStep first step) (b.runStep kept step) (c.runStep free step) := by
  obtain ⟨groups, -, hg⟩ := h.coversKept.soundSecond.exists_attempts b step
  obtain ⟨groups', -, hg'⟩ := h.coversFree.soundSecond.exists_attempts c step
  exact ⟨h.coversKept.runStep hf.kept step, h.coversFree.runStep hf.free step,
    h.openKept.runStep h.coversKept.soundSecond b step,
    h.openFree.runStep h.coversFree.soundSecond c step, hg.cancelAt.trans h.inTimeKept,
    hg'.cancelAt.trans h.inTimeFree, h.senses.trans hg.senses, h.alike_runStep hf step⟩

/-! ### Beams -/

/-- Where the beam of the free pass drops nothing, neither beam changes what can be read. -/
theorem alike_settle (h : Agrees final roots a.parser.config.beamSize first kept free)
    (hf : a.Frames b c final roots) (hlead : (a.settle first).LeadsTo final)
    (hzero : (c.settle free).report.beamDropped = 0) :
    Alike final roots a.parser.config.beamSize (b.settle kept) (c.settle free) := by
  have hb : b.parser.config.beamSize = a.parser.config.beamSize := by rw [hf.kept.parser]
  have hc : c.parser.config.beamSize = a.parser.config.beamSize := by rw [hf.free.parser]
  obtain ⟨hdropped, hsmall⟩ := Task.length_le_of_beamDropped_settle hf.free.later hzero
  rw [hc] at hsmall
  have halike := h.alike ((a.settles_settle first).leadsTo.trans hlead) hdropped
  -- cells that are about to be cut fit because nothing is dropped, and all others did before
  have hfits : ∀ cell, free.chart.Fits a.parser.config.beamSize cell := by
    intro cell
    by_cases ht : cell ∈ free.touched.toList
    · exact Chart.fits_of_length_le h.openFree.readable h.coversFree.soundSecond.faithful
        h.coversFree.soundSecond.refersBack (hsmall cell ht)
    · exact halike.fits cell ht
  have hfree : ∀ cell, (c.settle free).chart.derivations cell = free.chart.derivations cell := by
    intro cell
    rw [Chart.derivations, Task.entries_settle hf.free.later (hc ▸ hsmall), Chart.derivations]
  have hkept : ∀ cell, (b.settle kept).chart.derivations cell = kept.chart.derivations cell := by
    intro cell
    rw [Chart.derivations, Task.entries_settle hf.kept.later, Chart.derivations]
    intro touched _ record hr
    rw [hb]
    exact ((hfits touched).mono (halike.within touched)).length_le
      h.coversKept.soundSecond.faithful hr
  refine ⟨fun cell => ?_, fun cell => ?_, fun cell _ => (hfits cell).mono (hfree cell ▸ .refl _)⟩
  · rw [hkept, hfree]
    exact halike.within cell
  · rw [hkept, hfree]
    exact halike.wanted cell

theorem settle (h : Agrees final roots a.parser.config.beamSize first kept free)
    (hf : a.Frames b c final roots) :
    Agrees final roots a.parser.config.beamSize (a.settle first) (b.settle kept)
      (c.settle free) := by
  have hb : b.HidesNothing := hf.kept.hidesNothing_later hf.hidesNothing
  have hc : c.HidesNothing := hf.free.hidesNothing_later hf.hidesNothing
  exact ⟨h.coversKept.settle hf.kept, h.coversFree.settle hf.free, h.openKept.settle hb,
    h.openFree.settle hc, (b.settles_settle kept).cancelAt.trans h.inTimeKept,
    (c.settles_settle free).cancelAt.trans h.inTimeFree,
    (b.settles_settle kept).table ▸ h.senses, h.alike_settle hf⟩

end Work.Agrees

/-! ## Whole passes -/

namespace Task

variable {a b c : Task} {roots : List BackPointer} {useful : CategoryId → Nat → Bool}
  {table table' : MeaningTable}

theorem Frames.agrees_workAfter {final : Work} (h : a.Frames b c final roots)
    (ht : table.RefersBack) (ht' : table'.RefersBack) (n : Nat) :
    Work.Agrees final roots a.parser.config.beamSize (a.workAfter useful table none n)
      (b.workAfter useful final.table none n) (c.workAfter useful table' none n) := by
  rw [workAfter, workAfter, workAfter, plan_congr useful h.kept.parser h.kept.tokens,
    plan_congr useful h.free.parser h.free.tokens]
  refine foldl_runBlock_rel₃ (fun _ _ step _ u v w huvw => huvw.runStep h step)
    (fun u v w huvw => huvw.settle h) ?_
  have hcovers : ∀ other : MeaningTable, other.RefersBack →
      (Work.start table none).Covers (Work.start other none) := fun other ho =>
    ⟨Work.sound_start ht none, Work.sound_start ho none, Work.open_start table none, rfl,
      fun key d hd => absurd hd (Work.not_mem_derivationsOf_start other none key d)⟩
  refine ⟨hcovers _ h.refersBack, hcovers _ ht', Work.open_start _ none, Work.open_start _ none,
    rfl, rfl, List.prefix_refl _, fun _ _ => ⟨fun _ => .refl _, fun _ => rfl, ?_⟩⟩
  intro cell _ ds hds _
  rw [List.subperm_nil.1 hds]
  exact Nat.zero_le _

/-- Two second passes over what a first pass has found, one kept to what lies behind the roots and
one free, end alike. -/
theorem exists_alike (hb : a.Surveys b) (hc : a.Surveys c) (hbeam : 0 < a.parser.config.beamSize)
    (ht : table.RefersBack) (ht' : table'.RefersBack)
    (hallows : ∀ key, (a.runWith useful table none).chart.Behind roots key →
      ∀ i ∈ (a.runWith useful table none).chart.ingredientsOf key, b.allows i = true)
    (hall : ∀ i, c.allows i = true)
    (hno : (a.runWith useful table none).report.hitCeiling = false)
    (hzero : (c.runWith useful table' none).report.beamDropped = 0) :
    ∃ final kept free : Work, (a.runWith useful table none).chart = final.chart ∧
      (a.runWith useful table none).table = final.table ∧
      (b.runWith useful (a.runWith useful table none).table none).chart = kept.chart ∧
      (c.runWith useful table' none).chart = free.chart ∧
      final.Covers kept ∧ final.Covers free ∧
      Work.Alike final roots a.parser.config.beamSize kept free := by
  obtain ⟨n, hn⟩ := a.exists_endsAt_run useful table none
  have hsound : (a.workAfter useful table none n).Sound := sound_workAfter ht n
  rw [hn.chart] at hallows
  have hframes : a.Frames b c (a.workAfter useful table none n) roots :=
    ⟨hb, hc, hbeam, hsound.refersBack, hallows, hall⟩
  have hhidesb : b.HidesNothing := hb.hidesNothing_later hbeam
  have hhidesc : c.HidesNothing := hc.hidesNothing_later hbeam
  -- no ceiling stops any of the passes
  obtain ⟨k, hk⟩ := b.exists_endsAt_run useful (a.workAfter useful table none n).table none
  obtain ⟨l, hl⟩ := c.exists_endsAt_run useful table' none
  have hkn : k = n :=
    (hb.eq_length hhidesb ht hsound.refersBack hno hk).trans (hn.eq_length hno).symm
  have hln : l = n := (hc.eq_length hhidesc ht ht' hno hl).trans (hn.eq_length hno).symm
  rw [hkn] at hk
  rw [hln] at hl
  have hagrees : Work.Agrees _ _ _ _ _ (c.workAfter useful table' none n) :=
    hframes.agrees_workAfter ht ht' n
  rw [hn.table_eq]
  exact ⟨_, _, _, hn.chart, rfl, hk.chart, hl.chart, hagrees.coversKept, hagrees.coversFree,
    hagrees.alike (.refl _) (hl.beamDropped ▸ hzero)⟩

end Task

/-! ## Candidates -/

/-- Was the derivation executed to a value that answers the target? -/
def Derivation.answers (target : Value) (d : Derivation) : Bool :=
  d.value?.any (target.Answers ·)

namespace Parser

variable {parser : Parser} {first : PassOutput} {final w : Work} {numTokens : Nat} {target : Value}
  {cell : Cell} {d : Derivation}

/-- What answers the target in a root cell of a later pass is wanted there: the first pass has an
entry of its sense, which is one of the roots. -/
theorem wants_of_answers (hchart : first.chart = final.chart) (htable : first.table = final.table)
    (h : final.Covers w) (hcell : cell ∈ parser.rootCells numTokens)
    (hd : d ∈ w.chart.derivations cell) (ha : d.answers target = true) :
    final.Wants (parser.targetRoots first numTokens target) cell d := by
  obtain ⟨meaning, hd⟩ := Chart.exists_derivationsOf_of_mem_derivations hd
  obtain ⟨m, hm, ⟨record, hl⟩, -⟩ := h.covered _ d hd
  obtain ⟨v, hv, hanswers⟩ := (Option.any_eq_true _ _).1 ha
  rw [Derivation.value?, h.soundSecond.executed _ d hd] at hv
  have hvalue : (final.table.key? m).bind Meaning.value? = some v := by
    rw [← MeaningTable.value?_sense? h.soundFirst.refersBack, hm, Option.bind_some,
      Derivation.value?_sense]
    exact hv
  have hroot : (⟨cell, m⟩ : BackPointer) ∈ parser.targetRoots first numTokens target := by
    refine List.mem_flatMap.2 ⟨cell, hcell, List.mem_filter.2 ⟨List.mem_map.2 ⟨record, ?_, ?_⟩, ?_⟩⟩
    · rw [hchart]
      exact Chart.mem_entries.2 ⟨⟨m, hl⟩, (h.openFirst.readable _ _ hl).1⟩
    · exact h.soundFirst.keyed _ _ hl
    · rw [answers, htable, hvalue]
      exact hanswers
  exact ⟨_, ⟨_, hroot, .refl⟩, rfl, hm⟩

/-- The derivations that answer the target are the same in a root cell of both second passes. -/
theorem filter_answers_eq (hchart : first.chart = final.chart)
    (htable : first.table = final.table) {k : Nat} {kept free : Work} (hkept : final.Covers kept)
    (hfree : final.Covers free)
    (h : Work.Alike final (parser.targetRoots first numTokens target) k kept free)
    (hcell : cell ∈ parser.rootCells numTokens) :
    (kept.chart.derivations cell).filter (·.answers target) =
      (free.chart.derivations cell).filter (·.answers target) := by
  have hwanted : ∀ {work : Work}, final.Covers work →
      (work.chart.derivations cell).filter (·.answers target) =
        (final.wanted (parser.targetRoots first numTokens target) cell
          (work.chart.derivations cell)).filter (·.answers target) := by
    intro work hwork
    rw [Work.wanted, List.filter_filter]
    refine List.filter_congr fun d hd => ?_
    cases ha : d.answers target with
    | false => rfl
    | true =>
      have hw := wants_of_answers hchart htable hwork hcell hd ha
      simp [hw]
  rw [hwanted hkept, hwanted hfree, h.wanted]

end Parser

/-- A guided parse loses no answer and invents none. If the ceiling does not stop the first pass and
the beam of the free parse drops nothing, the candidates of the guided parse are among those of the
free parse, and the candidates that answer the target are the same, in the same order. -/
theorem Parser.guided_agrees {grammar : Grammar} {config : Config} {scorer : Scorer}
    {parser : Parser} (hparser : Parser.ofConfig grammar config scorer = .ok parser)
    (hgrammar : grammar.Accepted) (hignore : config.ignoreFirstPass = false)
    (hcheat : config.cheat = false) (hbackoff : config.backoff = false)
    (hbeam : config.firstPassBeam = none)
    (hstrategies : ∀ name ∈ config.firstPassStrategies, name = Strategy.emptyValue.name)
    {ex : Example} {target : Value} (htarget : ex.target = some target) :
    ∃ guided free, parser.parse ex true = .ok guided ∧ parser.parse ex false = .ok free ∧
      ∃ report, guided.report.first = some report ∧
        (report.hitCeiling = false → free.report.second.beamDropped = 0 →
          guided.candidates.Subperm free.candidates ∧
          guided.candidates.filter (·.answers target) =
            free.candidates.filter (·.answers target)) := by
  obtain ⟨rfl, rfl, hpruner⟩ := Parser.eq_of_ofConfig hparser
  have hruns : parser.runsFirst ex true = true := by
    simp [Parser.runsFirst, hignore, htarget]
  have hruns' : parser.runsFirst ex false = false := by
    simp [Parser.runsFirst, hcheat]
  obtain ⟨guidance, hlook, hguides⟩ := Parser.exists_lookForTarget hgrammar ex target .inTime
  obtain ⟨htable, hallowed, hceiling⟩ : parser.Guides ex target none guidance := by
    rcases hguides with ⟨hlost, -⟩ | ⟨-, hguides⟩
    · cases hlost
    · exact hguides
  have hguidance : parser.guidance? ex true ({} : Fates).first = .ok (some guidance) := by
    rw [Parser.guidance?_of_runsFirst htarget hruns]
    exact congrArg (Except.map some) hlook
  obtain ⟨guided, hparse, hcandidates, hfirst, -⟩ :=
    Parser.exists_parseWith hbackoff hguidance
  obtain ⟨free, hparse', hcandidates', -, hsecond⟩ := Parser.exists_parseWith hbackoff
    (Parser.guidance?_of_not_runsFirst hruns' ({} : Fates).first)
  refine ⟨guided, free, hparse, hparse', guidance.report, hfirst, fun hno hzero => ?_⟩
  rw [hceiling] at hno
  rw [hsecond] at hzero
  have hsurveys : ∀ allowed, (parser.firstTask ex).Surveys (parser.secondTask ex allowed) :=
    fun allowed => ⟨rfl, rfl, rfl, nofun, hbeam, hstrategies⟩
  obtain ⟨final, kept, loose, hchart, hnumbers, hkept, hloose, hcoversKept, hcoversFree, halike⟩ :=
    Task.exists_alike (hsurveys (some guidance.allowed)) (hsurveys none)
      (Config.beamSize_pos_of_pruner hpruner) MeaningTable.refersBack_empty
      MeaningTable.refersBack_empty
      (fun key hkey i hi => Parser.allows_secondTask.2 ((hallowed i).2 ⟨key, hkey, hi⟩))
      (fun _ => rfl) hno hzero
  have hguided : guided.candidates =
      (parser.rootCells ex.tokens.length).flatMap kept.chart.derivations := by
    rw [← hkept]
    change _ = parser.rootDerivations ((parser.secondTask ex (some guidance.allowed)).build
      ((parser.firstTask ex).build .empty none).table none) ex.tokens.length
    rw [← htable]
    exact hcandidates
  have hfree : free.candidates =
      (parser.rootCells ex.tokens.length).flatMap loose.chart.derivations := by
    rw [← hloose]
    exact hcandidates'
  rw [hguided, hfree]
  refine ⟨flatMap_subperm_flatMap fun cell _ => halike.within cell, ?_⟩
  rw [List.filter_flatMap, List.filter_flatMap]
  exact List.flatMap_congr fun cell hcell =>
    Parser.filter_answers_eq hchart hnumbers hcoversKept hcoversFree halike hcell

/-- Asked for a sum, the guided parse has it and nothing else; the free parse has a product too. -/
theorem Parser.guided_agrees_arithmetic :
    ∃ guided free, Parser.arithmetic.parse ⟨["three"], some (.number 6)⟩ true = .ok guided ∧
      Parser.arithmetic.parse ⟨["three"], some (.number 6)⟩ false = .ok free ∧
      guided.candidates.length = 1 ∧ free.candidates.length = 2 ∧
      guided.candidates.Subperm free.candidates ∧
      guided.candidates.filter (·.answers (.number 6)) =
        free.candidates.filter (·.answers (.number 6)) := by
  let ex : Example := ⟨["three"], some (.number 6)⟩
  obtain ⟨guided, free, hguided, hfree, report, hreport, hagrees⟩ :=
    Parser.guided_agrees Parser.ofConfig_arithmetic Grammar.accepted_arithmetic rfl rfl rfl rfl
      (by decide) (rfl : ex.target = some (.number 6))
  have hfirst : (Parser.arithmetic.parse ex true).toOption.map (fun result =>
      (result.candidates.length, result.report.first.map (·.hitCeiling))) =
        some (1, some false) := by decide +kernel
  have hsecond : (Parser.arithmetic.parse ex false).toOption.map (fun result =>
      (result.candidates.length, result.report.second.beamDropped)) = some (2, 0) := by
    decide +kernel
  rw [hguided] at hfirst
  rw [hfree] at hsecond
  simp only [Except.toOption, Option.map_some, hreport, Option.some.injEq, Prod.mk.injEq]
    at hfirst hsecond
  exact ⟨guided, free, hguided, hfree, hfirst.1, hsecond.1, hagrees hfirst.2 hsecond.2⟩

end GuidedChart
