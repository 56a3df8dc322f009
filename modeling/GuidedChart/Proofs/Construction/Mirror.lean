import GuidedChart.Proofs.Chart.Pairing
import GuidedChart.Proofs.Construction.Reading

/-!
# Runs side by side

Two passes of one kind over one parser, each of which may use everything, are run in step with each
other. If a step of one is done by a step of the other, over paired cells, the works stay alike
(`Work.Mirrors.runStep`); if it only files in cells without a partner, the other pass may leave it
out (`Work.Mirrors.runStep_left`). So works stay alike through whole blocks, where the second pass
does of each block what matters (`Work.Mirrors.foldl_runBlock`).
-/

namespace GuidedChart

/-! ## Tasks and steps -/

/-- Two tasks for one parser and one kind of pass, with nothing forbidden. -/
structure Task.Resembles (a b : Task) : Prop where
  parser : b.parser = a.parser
  pass : b.pass = a.pass
  allowsFirst : ∀ i, a.allows i = true
  allowsSecond : ∀ i, b.allows i = true

namespace Task.Resembles

variable {a b : Task} (h : a.Resembles b)

include h

theorem retention_eq : b.retention = a.retention := by
  rw [retention, retention, h.pass]

theorem lifts_eq (category : CategoryId) : b.parser.lifts category = a.parser.lifts category := by
  rw [h.parser]

theorem prune_eq (records : List Record) : b.prune records = a.prune records := by
  rw [prune, prune, h.parser, h.pass]

theorem rejects_eq (single : Bool) {c e : Derivation} (hf : c.formula = e.formula) :
    b.rejects single e = a.rejects single c := by
  rw [rejects, rejects, pruner, pruner, h.parser, h.pass, hf]

end Task.Resembles

/-- The work, with a number for a meaning. -/
def Work.number (work : Work) (meaning : Meaning) : Work :=
  { work with table := (work.table.intern meaning).1 }

/-- The work, with one application more attempted. -/
def Work.attempt (work : Work) : Work :=
  work.tick.count fun report => { report with applications := report.applications + 1 }

/-- Where nothing is forbidden and no time has run out, only the children can stand in the way. -/
theorem Task.apply_of_allows {task : Task} {work : Work} (hallows : ∀ i, task.allows i = true)
    (hn : work.cancelAt = none) (rule : Rule) (target : Cell) (children : List Child) :
    task.apply rule target children work =
      if task.overlaps children then work.attempt.count fun report =>
        { report with anchorOverlaps := report.anchorOverlaps + 1 }
      else task.carryOut rule target children work.attempt := by
  have hverdict : task.verdict rule target children work =
      if task.overlaps children then .overlapping else .admitted := by
    simp [verdict, passesOver, Work.isCancelled, hn, hallows]
  unfold apply
  rw [hverdict]
  cases task.overlaps children <;> rfl

/-- A child that a work offers to a rule comes to the same as one that another work offers. -/
structure Pairing.Offered (P : Pairing) (t u : MeaningTable) (c e : Child) : Prop where
  key : P.Key t u c.key e.key
  derivation : P.derivation c.derivation e.derivation

theorem Pairing.Offered.mono {P : Pairing} {t t' u u' : MeaningTable}
    (ht : t.senses <+: t'.senses) (hu : u.senses <+: u'.senses) {c e : Child}
    (h : P.Offered t u c e) : P.Offered t' u' c e :=
  ⟨h.key.mono ht hu, h.derivation⟩

/-- A rule over children that come to the same makes the same way to a meaning. -/
theorem Pairing.way_ingredient {P : Pairing} {t u : MeaningTable} (rule : Rule) {x y : Cell}
    (hxy : P.cell x y) {cs es : List Child} (h : List.Forall₂ (P.Offered t u) cs es) :
    P.Way t u (Task.ingredient rule x cs) (Task.ingredient rule y es) := by
  have hmeaning : ∀ i : Nat, Option.Rel (t.SameSense u) (cs[i]?.map (·.key.meaning))
      (es[i]?.map (·.key.meaning)) := fun i =>
    optionRel_map (optionRel_getElem? h i) fun _ _ hc => hc.key.2
  exact ⟨hxy, rfl, hmeaning 0, hmeaning 1⟩

/-- The second task has a step that does the same, over paired cells. -/
structure Pairing.Steps (P : Pairing) (a b : Task) (step other : Step) : Prop where
  rule : other.rule = step.rule
  target : P.cell step.target other.target
  sources : List.Forall₂ P.cell step.sources other.sources
  candidates : ∀ ds es, List.Forall₂ P.derivation ds es →
    List.Forall₂ (fun c e => P.derivation (a.finished c) (b.finished e))
      (Application.candidates ⟨step.rule, step.target.span, ds⟩ a.tokens)
      (Application.candidates ⟨step.rule, other.target.span, es⟩ b.tokens)

/-- What becomes of a step of the first task in the second one. -/
inductive Pairing.Keeps (P : Pairing) (a b : Task) (step : Step) : Option Step → Prop
  | done {other : Step} (h : P.Steps a b step other) : Keeps P a b step (some other)
  /-- A step that files nothing that matters may be left out. -/
  | leftOut (h : ∀ x y, a.Writes step x → ¬ P.cell x y) : Keeps P a b step none

theorem forall₂_combinations {α β : Type} {R : α → β → Prop} {xss : List (List α)}
    {yss : List (List β)} (h : List.Forall₂ (List.Forall₂ R) xss yss) :
    List.Forall₂ (List.Forall₂ R) (combinations xss) (combinations yss) := by
  induction h with
  | nil => exact .cons .nil .nil
  | cons hxy _ ih =>
    exact List.rel_flatMap hxy fun _ _ hab => List.rel_map (fun _ _ hall => .cons hab hall) ih

theorem forall₂_prune {P : Pairing} {t u : MeaningTable} {task : Task} {rs ss : List Record}
    (h : List.Forall₂ (P.Twins t u) rs ss) :
    List.Forall₂ (P.Twins t u) (task.prune rs) (task.prune ss) := by
  unfold Task.prune
  split
  · cases task.parser.config.firstPassBeam with
    | some k => exact Pairing.forall₂_hideBeyond h k
    | none => exact h
  · exact List.rel_map (fun _ _ hrs => hrs.keepBest _) h

/-! ## Works -/

/-- Two works hold the same in paired cells, and neither is cancelled. -/
structure Work.Mirrors (P : Pairing) (v w : Work) : Prop where
  keyedFirst : v.chart.Keyed
  keyedSecond : w.chart.Keyed
  refersBackFirst : v.table.RefersBack
  refersBackSecond : w.table.RefersBack
  inTimeFirst : v.cancelAt = none
  inTimeSecond : w.cancelAt = none
  charts : P.Charts v.table w.table v.chart w.chart
  touched : ∀ x y, P.cell x y → (x ∈ v.touched.toList ↔ y ∈ w.touched.toList)

namespace Work.Mirrors

variable {P : Pairing} {a b : Task} {v w : Work}

theorem start (P : Pairing) {table other : MeaningTable} (ht : table.RefersBack)
    (hu : other.RefersBack) : Work.Mirrors P (.start table none) (.start other none) where
  keyedFirst := (wellKept_start table none).keyed
  keyedSecond := (wellKept_start other none).keyed
  refersBackFirst := ht
  refersBackSecond := hu
  inTimeFirst := rfl
  inTimeSecond := rfl
  charts _ _ _ := .nil
  touched _ _ _ := iff_of_false List.not_mem_nil List.not_mem_nil

theorem count (h : v.Mirrors P w) (change change' : PassReport → PassReport) :
    (v.count change).Mirrors P (w.count change') :=
  ⟨h.keyedFirst, h.keyedSecond, h.refersBackFirst, h.refersBackSecond, h.inTimeFirst,
    h.inTimeSecond, h.charts, h.touched⟩

theorem attempt (h : v.Mirrors P w) : v.attempt.Mirrors P w.attempt :=
  ⟨h.keyedFirst, h.keyedSecond, h.refersBackFirst, h.refersBackSecond, h.inTimeFirst,
    h.inTimeSecond, h.charts, h.touched⟩

theorem isSingleFormula_eq (h : v.Mirrors P w) {k l : BackPointer}
    (hkl : P.Key v.table w.table k l) :
    v.chart.isSingleFormula k = w.chart.isSingleFormula l :=
  h.charts.isSingleFormula_eq h.refersBackFirst h.refersBackSecond h.keyedFirst h.keyedSecond hkl

/-! ### Filing -/

theorem add (h : v.Mirrors P w) {f g : Finding} (hfg : P.Found v.table w.table f g)
    (retention : Retention) : (v.add retention f).Mirrors P (w.add retention g) where
  keyedFirst := h.keyedFirst.add
  keyedSecond := h.keyedSecond.add
  refersBackFirst := h.refersBackFirst
  refersBackSecond := h.refersBackSecond
  inTimeFirst := h.inTimeFirst
  inTimeSecond := h.inTimeSecond
  charts := h.charts.add h.refersBackFirst h.refersBackSecond h.keyedFirst h.keyedSecond hfg
    retention
  touched x y hxy := by
    have hcell : x = f.key.cell ↔ y = g.key.cell := Relator.rel_eq P.biUnique hxy hfg.key.1
    simp only [Work.add, Numbering.mem_insert, h.touched x y hxy, hcell]

/-- What is filed in cells without a partner does not matter. -/
theorem add_apart (h : v.Mirrors P w) {f g : Finding} (hf : ∀ y, ¬ P.cell f.key.cell y)
    (hg : ∀ x, ¬ P.cell x g.key.cell) (retention : Retention) :
    (v.add retention f).Mirrors P (w.add retention g) where
  keyedFirst := h.keyedFirst.add
  keyedSecond := h.keyedSecond.add
  refersBackFirst := h.refersBackFirst
  refersBackSecond := h.refersBackSecond
  inTimeFirst := h.inTimeFirst
  inTimeSecond := h.inTimeSecond
  charts := (h.charts.add_left hf retention).add_right hg retention
  touched x y hxy := by
    have hx : x ≠ f.key.cell := fun he => hf y (he ▸ hxy)
    have hy : y ≠ g.key.cell := fun he => hg x (he ▸ hxy)
    simp only [Work.add, Numbering.mem_insert, h.touched x y hxy, hx, hy]

theorem file (h : v.Mirrors P w) (ht : a.Resembles b) {f g : Finding}
    (hfg : P.Found v.table w.table f g) : (a.file v f).Mirrors P (b.file w g) := by
  have hadd := h.add hfg a.retention
  have hcategory : g.key.cell.category = f.key.cell.category := (P.category hfg.key.1).symm
  unfold Task.file
  simp only [ht.allowsFirst, ht.allowsSecond, if_true, ht.retention_eq, ht.lifts_eq, hcategory,
    ← P.isAnchored hfg.key.1]
  split
  · by_cases hlift : P.cell (.floating f.key.cell.category 0) (.floating f.key.cell.category 0)
    · refine hadd.add ?_ a.retention
      exact ⟨⟨hlift, hfg.key.2⟩, hfg.derivation, ⟨hlift, hfg.ingredient.rule,
        hfg.ingredient.first, hfg.ingredient.second⟩, .cons hfg.key .nil,
        hadd.isSingleFormula_eq hfg.key⟩
    · -- a floating cell that is not compared with itself is not compared at all
      refine hadd.add_apart (fun y hy => hlift ?_) (fun x hx => hlift ?_) a.retention
      · have he := P.floating hy rfl
        rwa [← he] at hy
      · have he := P.floating hx (P.isAnchored hx)
        rwa [he] at hx
  · exact hadd

/-- Two works are alike, and their tables have grown from these two. -/
structure Since (P : Pairing) (t u : MeaningTable) (v w : Work) : Prop
    extends v.Mirrors P w where
  sensesFirst : t.senses <+: v.table.senses
  sensesSecond : u.senses <+: w.table.senses

theorem since (h : v.Mirrors P w) : Since P v.table w.table v w :=
  ⟨h, List.prefix_refl _, List.prefix_refl _⟩

theorem Since.trans {t u : MeaningTable} {v' w' : Work} (h : Since P t u v w)
    (k : Since P v.table w.table v' w') : Since P t u v' w' :=
  ⟨k.toMirrors, h.sensesFirst.trans k.sensesFirst, h.sensesSecond.trans k.sensesSecond⟩

/-- The same outcome of a rule over children that come to the same is numbered alike. -/
theorem number (h : v.Mirrors P w) {i j : Ingredient} (hij : P.Way v.table w.table i j)
    (outcome : Outcome) :
    (v.number (.ofOutcome outcome i.rule i.first i.second)).Mirrors P
        (w.number (.ofOutcome outcome j.rule j.first j.second)) ∧
      (v.table.intern (.ofOutcome outcome i.rule i.first i.second)).1.SameSense
        (w.table.intern (.ofOutcome outcome j.rule j.first j.second)).1
        (v.table.intern (.ofOutcome outcome i.rule i.first i.second)).2
        (w.table.intern (.ofOutcome outcome j.rule j.first j.second)).2 := by
  rw [← hij.rule]
  obtain ⟨hrefers, hrefers', hsense⟩ := MeaningTable.sameSense_intern h.refersBackFirst
    h.refersBackSecond hij.first hij.second outcome i.rule
  exact ⟨⟨h.keyedFirst, h.keyedSecond, hrefers, hrefers', h.inTimeFirst, h.inTimeSecond,
    h.charts.mono (MeaningTable.senses_prefix_intern _ _) (MeaningTable.senses_prefix_intern _ _),
    h.touched⟩, hsense⟩

theorem consider (h : v.Mirrors P w) (ht : a.Resembles b) {i j : Ingredient}
    (hij : P.Way v.table w.table i j) {sources sources' : List BackPointer}
    (hsources : List.Forall₂ (P.Key v.table w.table) sources sources') (single : Bool)
    {c e : Derivation} (hce : P.derivation (a.finished c) (b.finished e)) :
    Since P v.table w.table (a.consider i sources single v c)
      (b.consider j sources' single w e) := by
  have hformula : c.formula = e.formula := by
    simpa using P.formula hce
  let m := Meaning.ofOutcome c.formula.execute i.rule i.first i.second
  let n := Meaning.ofOutcome e.formula.execute j.rule j.first j.second
  obtain ⟨hnumbered, hsense⟩ : (v.number m).Mirrors P (w.number n) ∧
      (v.table.intern m).1.SameSense (w.table.intern n).1 (v.table.intern m).2
        (w.table.intern n).2 := by
    simp only [m, n, ← hformula]
    exact h.number hij c.formula.execute
  have hv : v.table.senses <+: (v.table.intern m).1.senses := MeaningTable.senses_prefix_intern _ _
  have hw : w.table.senses <+: (w.table.intern n).1.senses := MeaningTable.senses_prefix_intern _ _
  refine ⟨?_, by rwa [Task.table_consider], by rwa [Task.table_consider]⟩
  by_cases hr : a.rejects single c = true
  · have hr' : b.rejects single e = true := (ht.rejects_eq single hformula).trans hr
    have hfirst : a.consider i sources single v c =
        (v.number m).count fun report => { report with pruned := report.pruned + 1 } := if_pos hr
    have hsecond : b.consider j sources' single w e =
        (w.number n).count fun report => { report with pruned := report.pruned + 1 } := if_pos hr'
    rw [hfirst, hsecond]
    exact hnumbered.count _ _
  · have hr' : ¬ b.rejects single e = true := by rwa [ht.rejects_eq single hformula]
    have hfirst : a.consider i sources single v c = a.file (v.number m)
        ⟨⟨i.cell, (v.table.intern m).2⟩, a.finished c, i, sources, single⟩ := if_neg hr
    have hsecond : b.consider j sources' single w e = b.file (w.number n)
        ⟨⟨j.cell, (w.table.intern n).2⟩, b.finished e, j, sources', single⟩ := if_neg hr'
    rw [hfirst, hsecond]
    exact hnumbered.file ht ⟨⟨hij.cell, hsense⟩, hce, hij.mono hv hw,
      hsources.imp fun _ _ hk => hk.mono hv hw, rfl⟩

/-! ### Applications -/

theorem carryOut (h : v.Mirrors P w) (ht : a.Resembles b) {step other : Step}
    (hs : P.Steps a b step other) {cs es : List Child}
    (hall : List.Forall₂ (P.Offered v.table w.table) cs es) :
    Since P v.table w.table (a.carryOut step.rule step.target cs v)
      (b.carryOut other.rule other.target es w) := by
  have hkeys : List.Forall₂ (P.Key v.table w.table) (cs.map (·.key)) (es.map (·.key)) :=
    List.rel_map (fun _ _ hc => hc.key) hall
  have hderivations : List.Forall₂ P.derivation (cs.map (·.derivation)) (es.map (·.derivation)) :=
    List.rel_map (fun _ _ hc => hc.derivation) hall
  have hsingle : (es.map (·.key)).all w.chart.isSingleFormula =
      (cs.map (·.key)).all v.chart.isSingleFormula :=
    (all_eq_of_forall₂ hkeys fun _ _ hk => h.isSingleFormula_eq hk).symm
  have hway := Pairing.way_ingredient step.rule hs.target hall
  simp only [Task.carryOut, hs.rule, hsingle]
  refine List.rel_foldl (P := Since P v.table w.table) (fun v' w' hvw c e hce => ?_) h.since
    (hs.candidates _ _ hderivations)
  exact hvw.trans (hvw.consider ht (hway.mono hvw.sensesFirst hvw.sensesSecond)
    (hkeys.imp fun _ _ hk => hk.mono hvw.sensesFirst hvw.sensesSecond) _ hce)

theorem overlaps_eq (ht : a.Resembles b) {t u : MeaningTable} {cs es : List Child}
    (hall : List.Forall₂ (P.Offered t u) cs es) : b.overlaps es = a.overlaps cs := by
  unfold Task.overlaps
  rw [ht.pass, ht.parser]
  cases a.parser.config.maxAnchorOverlap with
  | none => rfl
  | some limit =>
    cases hall with
    | nil => rfl
    | cons hc hall =>
      cases hall with
      | nil => rfl
      | cons hc' hall =>
        cases hall with
        | nil => simp only [P.overlap hc.derivation hc'.derivation]
        | cons => rfl

theorem apply (h : v.Mirrors P w) (ht : a.Resembles b) {step other : Step}
    (hs : P.Steps a b step other) {cs es : List Child}
    (hall : List.Forall₂ (P.Offered v.table w.table) cs es) :
    Since P v.table w.table (a.apply step.rule step.target cs v)
      (b.apply other.rule other.target es w) := by
  rw [Task.apply_of_allows ht.allowsFirst h.inTimeFirst,
    Task.apply_of_allows ht.allowsSecond h.inTimeSecond, overlaps_eq ht hall]
  cases a.overlaps cs with
  | true =>
    rw [if_pos rfl, if_pos rfl]
    exact (h.attempt.count _ _).since
  | false =>
    rw [if_neg Bool.false_ne_true, if_neg Bool.false_ne_true]
    exact h.attempt.carryOut ht hs hall

/-! ### Steps -/

theorem children (h : v.Mirrors P w) {x y : Cell} (hxy : P.cell x y) :
    List.Forall₂ (P.Offered v.table w.table) (v.children x) (w.children y) :=
  List.rel_flatMap (h.charts.entries hxy) fun _ _ hrs =>
    List.rel_map (fun _ _ hd => ⟨hrs.key, hd⟩) hrs.derivations

theorem readings (h : v.Mirrors P w) {step other : Step} (hs : P.Steps a b step other) :
    List.Forall₂ (List.Forall₂ (P.Offered v.table w.table)) (v.readings step)
      (w.readings other) :=
  forall₂_combinations (List.rel_map (fun _ _ hxy => h.children hxy) hs.sources)

/-- Steps that do the same leave works alike. -/
theorem runStep (h : v.Mirrors P w) (ht : a.Resembles b) {step other : Step}
    (hs : P.Steps a b step other) : (a.runStep v step).Mirrors P (b.runStep w other) := by
  have hsince : Since P v.table w.table (a.runStep v step) (b.runStep w other) := by
    refine List.rel_foldl (P := Since P v.table w.table) (fun v' w' hvw cs es hall => ?_) h.since
      (h.readings hs)
    exact hvw.trans (hvw.apply ht hs
      (hall.imp fun _ _ hc => hc.mono hvw.sensesFirst hvw.sensesSecond))
  exact hsince.toMirrors

/-- A step that files nothing that matters leaves works alike. -/
theorem runStep_left (h : v.Mirrors P w) (hv : v.Sound) {step : Step}
    (hs : ∀ x y, a.Writes step x → ¬ P.cell x y) : (a.runStep v step).Mirrors P w := by
  obtain ⟨groups, hall, hgains⟩ := hv.exists_attempts a step
  have hsame : ∀ x y, P.cell x y →
      (a.runStep v step).chart.recordsOf x = v.chart.recordsOf x := fun x y hxy =>
    (Task.runStep_of_not_writes h.keyedFirst fun hw => hs x y hw hxy).1
  refine ⟨(hv.runStep a step).keyed, h.keyedSecond, hgains.refersBack, h.refersBackSecond,
    hgains.cancelAt.trans h.inTimeFirst, h.inTimeSecond, fun x y hxy => ?_, fun x y hxy => ?_⟩
  · rw [hsame x y hxy]
    exact h.charts.mono hgains.senses (List.prefix_refl _) x y hxy
  · rw [← h.touched x y hxy, hgains.touched]
    refine or_iff_left ?_
    rintro ⟨f, hf, rfl⟩
    exact hs _ y (Task.writes_of_mem_findings hall hf) hxy

theorem settle (h : v.Mirrors P w) (ht : a.Resembles b) :
    (a.settle v).Mirrors P (b.settle w) := by
  have hv := a.settles_settle v
  have hw := b.settles_settle w
  refine ⟨hv.chart.keyed h.keyedFirst, hw.chart.keyed h.keyedSecond, hv.table ▸ h.refersBackFirst,
    hw.table ▸ h.refersBackSecond, hv.cancelAt.trans h.inTimeFirst,
    hw.cancelAt.trans h.inTimeSecond, fun x y hxy => ?_, fun _ _ _ => ?_⟩
  · rw [hv.table, hw.table, Task.recordsOf_settle, Task.recordsOf_settle, ht.prune_eq]
    by_cases hx : x ∈ v.touched.toList
    · rw [if_pos hx, if_pos ((h.touched x y hxy).1 hx)]
      exact forall₂_prune (h.charts x y hxy)
    · rw [if_neg hx, if_neg (mt (h.touched x y hxy).2 hx)]
      exact h.charts x y hxy
  · exact iff_of_false List.not_mem_nil List.not_mem_nil

/-! ### Blocks -/

variable {keep : Step → Option Step}

theorem foldl_runStep (h : v.Mirrors P w) (hv : v.Sound) (ht : a.Resembles b) {steps : List Step}
    (hsteps : ∀ step ∈ steps, P.Keeps a b step (keep step)) :
    (steps.foldl a.runStep v).Sound ∧
      (steps.foldl a.runStep v).Mirrors P ((steps.filterMap keep).foldl b.runStep w) := by
  induction steps generalizing v w with
  | nil => exact ⟨hv, h⟩
  | cons step steps ih =>
    have hkeeps := hsteps step List.mem_cons_self
    have hrest := fun step hm => hsteps step (List.mem_cons_of_mem _ hm)
    rw [List.foldl_cons]
    generalize hk : keep step = kept at hkeeps
    cases hkeeps with
    | done hs =>
      rw [List.filterMap_cons_some hk, List.foldl_cons]
      exact ih (h.runStep ht hs) (hv.runStep a step) hrest
    | leftOut hs =>
      rw [List.filterMap_cons_none hk]
      exact ih (h.runStep_left hv hs) (hv.runStep a step) hrest

/-- A pass that does what matters of each block leaves works alike. -/
theorem foldl_runBlock (h : v.Mirrors P w) (hv : v.Sound) (ht : a.Resembles b)
    {blocks : List (List Step)}
    (hblocks : ∀ steps ∈ blocks, ∀ step ∈ steps, P.Keeps a b step (keep step)) :
    (blocks.foldl a.runBlock v).Sound ∧ (blocks.foldl a.runBlock v).Mirrors P
      ((blocks.map (List.filterMap keep)).foldl b.runBlock w) := by
  induction blocks generalizing v w with
  | nil => exact ⟨hv, h⟩
  | cons steps blocks ih =>
    obtain ⟨hsound, hmirrors⟩ := h.foldl_runStep hv ht (hblocks steps List.mem_cons_self)
    exact ih (hmirrors.settle ht) (hsound.settle a) fun steps hm =>
      hblocks steps (List.mem_cons_of_mem _ hm)

end Work.Mirrors

end GuidedChart
