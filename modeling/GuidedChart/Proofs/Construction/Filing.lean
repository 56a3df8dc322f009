import GuidedChart.Construction.Build
import GuidedChart.Proofs.Chart.Holdings
import GuidedChart.Proofs.Congruence

/-!
# What a step files

All that a pass does to its chart between two beams is to add findings. This file says which ones:
what an application finds (`Task.Yields`), and that a step finds what its applications find, one
after the other (`Task.exists_attempts_runStep`). Everything later proofs need to know of the rule
engine is in these two.

The meaning of a finding is a number in the table of the pass, and the table grows on the way; what
the number stands for is said by the finding itself (`Finding.means`), whatever the table was in
the beginning (`Work.Adds`). In a table whose failures refer back, the number has the sense of the
derivation found (`Work.Gains`).
-/

namespace GuidedChart

open GuidedChart.Derivation (sense)

/-! ## Findings of one candidate -/

def Finding.placement (f : Finding) : Cell × Derivation :=
  (f.key.cell, f.derivation)

/-- The second finding is the first one, lifted from an anchored cell to a floating one. -/
structure Finding.IsLift (f g : Finding) : Prop where
  meaning : g.key.meaning = f.key.meaning
  derivation : g.derivation = f.derivation
  ingredient : g.ingredient = { f.ingredient with cell := g.key.cell }
  sources : g.sources = [f.key]
  sourcesSingle : g.sourcesSingle = true → f.sourcesSingle = true

/-- The meaning of a finding, over the numbers of what it was built from. -/
def Finding.means (f : Finding) : Meaning :=
  .ofOutcome f.derivation.formula.execute f.ingredient.rule f.ingredient.first f.ingredient.second

theorem Finding.IsLift.means_eq {f g : Finding} (h : f.IsLift g) : g.means = f.means := by
  rw [means, h.derivation, h.ingredient, means]

namespace Work

/-- The first work comes to the second one by adding findings to its chart. -/
structure Adds (retention : Retention) (before after : Work) (fs : List Finding) : Prop where
  chart : after.chart = before.chart.addAll retention fs
  keys : before.table.keys.toList <+: after.table.keys.toList
  key? : ∀ f ∈ fs, after.table.key? f.key.meaning = some f.means
  touched : ∀ cell, cell ∈ after.touched.toList ↔
    cell ∈ before.touched.toList ∨ ∃ f ∈ fs, f.key.cell = cell
  cancelAt : after.cancelAt = before.cancelAt
  beamDropped : after.report.beamDropped = before.report.beamDropped
  hitCeiling : after.report.hitCeiling = before.report.hitCeiling

namespace Adds

variable {retention : Retention} {before between after : Work} {fs gs : List Finding}

theorem refl (retention : Retention) (work : Work) : Adds retention work work [] :=
  ⟨rfl, List.prefix_refl _, nofun, by simp, rfl, rfl, rfl⟩

theorem trans (h : Adds retention before between fs) (k : Adds retention between after gs) :
    Adds retention before after (fs ++ gs) := by
  refine ⟨?_, h.keys.trans k.keys, ?_, fun cell => ?_, k.cancelAt.trans h.cancelAt,
    k.beamDropped.trans h.beamDropped, k.hitCeiling.trans h.hitCeiling⟩
  · rw [k.chart, h.chart, Chart.addAll_append]
  · intro f hf
    rcases List.mem_append.1 hf with hf | hf
    · exact MeaningTable.key?_of_prefix k.keys (h.key? f hf)
    · exact k.key? f hf
  · rw [k.touched, h.touched]
    simp only [List.mem_append, or_and_right, exists_or, or_assoc]

theorem isSingleFormula (h : Adds retention before after fs) {key : BackPointer}
    (hk : before.chart.Holds key) (hs : after.chart.isSingleFormula key = true) :
    before.chart.isSingleFormula key = true := by
  rw [h.chart] at hs
  exact Chart.isSingleFormula_of_addAll hs hk

end Adds

theorem adds_tick (retention : Retention) (work : Work) : Adds retention work work.tick [] :=
  ⟨rfl, List.prefix_refl _, nofun, by simp [tick], rfl, rfl, rfl⟩

theorem adds_add (work : Work) (retention : Retention) {f : Finding}
    (hm : work.table.key? f.key.meaning = some f.means) :
    Adds retention work (work.add retention f) [f] :=
  ⟨rfl, List.prefix_refl _, fun g hg => by rwa [List.mem_singleton.1 hg],
    fun cell => by simp [add, Numbering.mem_insert, eq_comm], rfl, rfl, rfl⟩

/-- Counting something else adds nothing. -/
theorem Adds.count {retention : Retention} {before after : Work} {fs : List Finding}
    (h : Adds retention before after fs) {change : PassReport → PassReport}
    (hb : (change after.report).beamDropped = after.report.beamDropped)
    (hh : (change after.report).hitCeiling = after.report.hitCeiling) :
    Adds retention before (after.count change) fs :=
  ⟨h.chart, h.keys, h.key?, h.touched, h.cancelAt, hb.trans h.beamDropped, hh.trans h.hitCeiling⟩

end Work

namespace Task

/-- The derivation that is filed for a candidate. -/
def finished (task : Task) (candidate : Derivation) : Derivation :=
  let executed := { candidate with outcome := some candidate.formula.execute }
  if task.pass = .first then executed
  else { executed with score := task.parser.scorer executed }

section Finished

variable (task : Task) (c : Derivation)

@[simp]
theorem rule_finished : (task.finished c).rule = c.rule := by
  unfold finished
  split <;> rfl

@[simp]
theorem span_finished : (task.finished c).span = c.span := by
  unfold finished
  split <;> rfl

@[simp]
theorem formula_finished : (task.finished c).formula = c.formula := by
  unfold finished
  split <;> rfl

@[simp]
theorem children_finished : (task.finished c).children = c.children := by
  unfold finished
  split <;> rfl

@[simp]
theorem anchors_finished : (task.finished c).anchors = c.anchors := by
  unfold finished
  split <;> rfl

@[simp]
theorem outcome_finished : (task.finished c).outcome = some c.formula.execute := by
  unfold finished
  split <;> rfl

@[simp]
theorem sense_finished : (task.finished c).sense = c.sense :=
  Derivation.sense_congr (task.rule_finished c) (task.formula_finished c)
    (task.children_finished c)

end Finished

/-- Is a candidate discarded, with the strategies that apply over such children? -/
def rejects (task : Task) (single : Bool) (candidate : Derivation) : Bool :=
  (task.pruner single).discards candidate.formula (some candidate.formula.execute)

/-- The derivations an application comes to, in order. -/
def accepted (task : Task) (single : Bool) (application : Application) : List Derivation :=
  ((application.candidates task.tokens).filter (!task.rejects single ·)).map task.finished

theorem mem_accepted {task : Task} {single : Bool} {application : Application} {d : Derivation} :
    d ∈ task.accepted single application ↔
      ∃ c ∈ application.candidates task.tokens, task.rejects single c = false ∧
        task.finished c = d := by
  simp only [accepted, List.mem_map, List.mem_filter, Bool.not_eq_true', and_assoc]

/-- The cell that findings for a cell are lifted to, if they are. -/
def lift? (task : Task) (cell : Cell) : Option Cell :=
  if cell.isAnchored && task.parser.lifts cell.category then some (.floating cell.category 0)
  else none

theorem eq_of_mem_lift? {task : Task} {cell lifted : Cell} (h : lifted ∈ task.lift? cell) :
    cell.isAnchored = true ∧ task.parser.lifts cell.category = true ∧
      lifted = .floating cell.category 0 := by
  rw [Option.mem_def, lift?, Option.ite_none_right_eq_some, Bool.and_eq_true] at h
  exact ⟨h.1.1, h.1.2, (Option.some.inj h.2).symm⟩

theorem category_of_mem_lift? {task : Task} {target cell : Cell}
    (h : cell ∈ target :: (task.lift? target).toList) : cell.category = target.category := by
  rcases List.mem_cons.1 h with rfl | h
  · rfl
  · rw [(eq_of_mem_lift? (Option.mem_toList.1 h)).2.2]
    rfl

/-- The cells in which a derivation is filed that was found in this way. -/
def places (task : Task) (ingredient : Ingredient) : List Cell :=
  ingredient.cell ::
    (task.lift? ingredient.cell).toList.filter fun cell => task.allows { ingredient with cell }

theorem mem_of_mem_places {task : Task} {ingredient : Ingredient} {cell : Cell}
    (h : cell ∈ task.places ingredient) :
    cell ∈ ingredient.cell :: (task.lift? ingredient.cell).toList :=
  (List.mem_cons.1 h).elim (fun he => he ▸ List.mem_cons_self)
    fun hm => List.mem_cons_of_mem _ (List.mem_of_mem_filter hm)

theorem exists_adds_file (task : Task) {work : Work} {f : Finding}
    (hm : work.table.key? f.key.meaning = some f.means) (hc : f.ingredient.cell = f.key.cell) :
    ∃ fs, work.Adds task.retention (task.file work f) fs ∧
      fs.map Finding.placement = (task.places f.ingredient).map (·, f.derivation) ∧
      f ∈ fs ∧ ∀ g ∈ fs, g = f ∨ f.IsLift g ∧ g.key.cell ∈ task.lift? f.key.cell ∧
        task.allows g.ingredient = true := by
  have hadd := Work.adds_add work task.retention hm
  by_cases hl : (f.key.cell.isAnchored && task.parser.lifts f.key.cell.category) = true
  · have hlift : task.lift? f.key.cell = some (.floating f.key.cell.category 0) := if_pos hl
    by_cases ha : task.allows { f.ingredient with cell := .floating f.key.cell.category 0 } = true
    · let g : Finding :=
        { f with
          key := ⟨.floating f.key.cell.category 0, f.key.meaning⟩
          ingredient := { f.ingredient with cell := .floating f.key.cell.category 0 }
          sources := [f.key]
          sourcesSingle := (work.add task.retention f).chart.isSingleFormula f.key }
      have hfile : task.file work f = (work.add task.retention f).add task.retention g := by
        simp [file, hl, ha, g]
      have hlifted :
          Work.Adds task.retention (work.add task.retention f) (task.file work f) [g] := by
        rw [hfile]
        exact Work.adds_add _ task.retention hm
      refine ⟨[f] ++ [g], hadd.trans hlifted, ?_, by simp, ?_⟩
      · simp [places, hc, hlift, ha, Finding.placement, g]
      · intro g' hg'
        rcases List.mem_append.1 hg' with hf | hg
        · exact Or.inl (List.mem_singleton.1 hf)
        · rw [List.mem_singleton.1 hg]
          refine Or.inr ⟨⟨rfl, rfl, rfl, rfl, ?_⟩, hlift, ha⟩
          exact Chart.sourcesSingle_of_isSingleFormula_add _ _ _
    · have hfile : task.file work f = (work.add task.retention f).count
          fun report => { report with disallowed := report.disallowed + 1 } := by
        simp [file, hl, ha]
      refine ⟨[f], ?_, ?_, by simp, fun g hg => Or.inl (List.mem_singleton.1 hg)⟩
      · rw [hfile]
        exact hadd.count rfl rfl
      · simp [places, hc, hlift, ha, Finding.placement]
  · have hlift : task.lift? f.key.cell = none := if_neg hl
    have hfile : task.file work f = work.add task.retention f := by
      simp [file, hl]
    refine ⟨[f], hfile ▸ hadd, ?_, by simp, fun g hg => Or.inl (List.mem_singleton.1 hg)⟩
    simp [places, hc, hlift, Finding.placement]

/-! ## Findings of an application -/

/-- May this application be carried out? -/
def admits (task : Task) (rule : Rule) (target : Cell) (children : List Child) : Bool :=
  task.allows (ingredient rule target children) && !task.overlaps children

theorem ingredient_congr {rule : Rule} {target : Cell} {children others : List Child}
    (h : others.map (·.key) = children.map (·.key)) :
    ingredient rule target others = ingredient rule target children := by
  have hat : ∀ n : Nat, (others[n]?.map (·.key.meaning)) = (children[n]?.map (·.key.meaning)) := by
    intro n
    have hn := congrArg (fun keys : List BackPointer => keys[n]?.map (·.meaning)) h
    simpa only [List.getElem?_map, Option.map_map, Function.comp_def] using hn
  rw [ingredient, ingredient, hat 0, hat 1]

/-- What an application finds for its target cell. -/
structure Finds (task : Task) (rule : Rule) (target : Cell) (children : List Child)
    (single : Bool) (f : Finding) : Prop where
  admits : task.admits rule target children = true
  cell : f.key.cell = target
  derivation : f.derivation ∈ task.accepted single (application rule target children)
  ingredient : f.ingredient = Task.ingredient rule target children
  sources : f.sources = children.map (·.key)
  sourcesSingle : f.sourcesSingle = single

section Finds

variable {task : Task} {rule : Rule} {target : Cell} {children : List Child} {single : Bool}
  {f : Finding}

theorem Finds.rule_eq (h : task.Finds rule target children single f) :
    f.derivation.rule = rule := by
  obtain ⟨c, hc, -, hfinished⟩ := mem_accepted.1 h.derivation
  rw [← hfinished, rule_finished]
  exact Application.rule_of_mem hc

theorem Finds.span_eq (h : task.Finds rule target children single f) :
    f.derivation.span = target.span := by
  obtain ⟨c, hc, -, hfinished⟩ := mem_accepted.1 h.derivation
  rw [← hfinished, span_finished]
  exact Application.span_of_mem hc

theorem Finds.children_eq (h : task.Finds rule target children single f) :
    f.derivation.children = children.map (·.derivation) := by
  obtain ⟨c, hc, -, hfinished⟩ := mem_accepted.1 h.derivation
  rw [← hfinished, children_finished]
  exact Application.children_of_mem hc

theorem Finds.anchors_eq (h : task.Finds rule target children single f) :
    f.derivation.anchors = Derivation.anchorsOn target.span (children.map (·.derivation)) := by
  obtain ⟨c, hc, -, hfinished⟩ := mem_accepted.1 h.derivation
  obtain ⟨formula, rfl⟩ := Application.exists_formula_of_mem hc
  rw [← hfinished, anchors_finished]
  rfl

end Finds

/-- Where an application files what it comes to. -/
def placements (task : Task) (single : Bool) (rule : Rule) (target : Cell)
    (children : List Child) : List (Cell × Derivation) :=
  (task.accepted single (application rule target children)).flatMap fun d =>
    (task.places (ingredient rule target children)).map (·, d)

/-- The findings of an application: those for its target cell, and those lifted from there. -/
structure Yields (task : Task) (rule : Rule) (target : Cell) (children : List Child)
    (single : Bool) (fs : List Finding) : Prop where
  placements : fs.map Finding.placement = task.placements single rule target children
  finds : ∀ g ∈ fs, ∃ f ∈ fs, task.Finds rule target children single f ∧
    (g = f ∨ f.IsLift g ∧ g.key.cell ∈ task.lift? target ∧ task.allows g.ingredient = true)

theorem exists_adds_consider (task : Task) (work : Work) {rule : Rule} {target : Cell}
    {children : List Child} (single : Bool) (ha : task.admits rule target children = true)
    {c : Derivation} (hc : c ∈ (application rule target children).candidates task.tokens) :
    ∃ fs, work.Adds task.retention (task.consider (ingredient rule target children)
        (children.map (·.key)) single work c) fs ∧
      fs.map Finding.placement = (if task.rejects single c then []
        else (task.places (ingredient rule target children)).map (·, task.finished c)) ∧
      ∀ g ∈ fs, ∃ f ∈ fs, task.Finds rule target children single f ∧
        (g = f ∨ f.IsLift g ∧ g.key.cell ∈ task.lift? target ∧
          task.allows g.ingredient = true) := by
  let meaning := Meaning.ofOutcome c.formula.execute rule.id
    (ingredient rule target children).first (ingredient rule target children).second
  let numbered : Work := { work with table := (work.table.intern meaning).1 }
  have hnumbered : work.Adds task.retention numbered [] :=
    ⟨rfl, MeaningTable.keys_prefix_intern _ _, nofun, by simp [numbered], rfl, rfl, rfl⟩
  by_cases hr : task.rejects single c = true
  · have hwork : task.consider (ingredient rule target children) (children.map (·.key)) single
        work c = numbered.count fun report => { report with pruned := report.pruned + 1 } :=
      if_pos hr
    refine ⟨[], ?_, by simp [hr], nofun⟩
    rw [hwork]
    exact hnumbered.count rfl rfl
  · let f : Finding :=
      { key := ⟨target, (work.table.intern meaning).2⟩
        derivation := task.finished c
        ingredient := ingredient rule target children
        sources := children.map (·.key)
        sourcesSingle := single }
    have hwork : task.consider (ingredient rule target children) (children.map (·.key)) single
        work c = task.file numbered f := if_neg hr
    have hmeans : f.means = meaning := by
      rw [Finding.means, formula_finished]
      rfl
    have hkey : numbered.table.key? f.key.meaning = some f.means := by
      rw [hmeans]
      exact MeaningTable.key?_intern _ _
    obtain ⟨fs, hadds, hplace, hf, hall⟩ := task.exists_adds_file hkey rfl
    have hfinds : task.Finds rule target children single f :=
      ⟨ha, rfl, mem_accepted.2 ⟨c, hc, by simpa using hr, rfl⟩, rfl, rfl, rfl⟩
    refine ⟨fs, hwork ▸ hnumbered.trans hadds, ?_, fun g hg => ⟨f, hf, hfinds, hall g hg⟩⟩
    rw [hplace, if_neg hr]

theorem exists_yields_carryOut (task : Task) (work : Work) {rule : Rule} {target : Cell}
    {children : List Child} (ha : task.admits rule target children = true) :
    ∃ fs, work.Adds task.retention (task.carryOut rule target children work) fs ∧
      task.Yields rule target children
        ((children.map (·.key)).all work.chart.isSingleFormula) fs := by
  let single := (children.map (·.key)).all work.chart.isSingleFormula
  let consider := task.consider (ingredient rule target children) (children.map (·.key)) single
  -- along the candidates; what is found for some of them is found for all
  have hfold : ∀ (cs : List Derivation) (w : Work),
      (∀ c ∈ cs, c ∈ (application rule target children).candidates task.tokens) →
      ∃ fs, w.Adds task.retention (cs.foldl consider w) fs ∧
        fs.map Finding.placement = ((cs.filter (!task.rejects single ·)).map task.finished).flatMap
          (fun d => (task.places (ingredient rule target children)).map (·, d)) ∧
        ∀ g ∈ fs, ∃ f ∈ fs, task.Finds rule target children single f ∧
          (g = f ∨ f.IsLift g ∧ g.key.cell ∈ task.lift? target ∧
            task.allows g.ingredient = true) := by
    intro cs
    induction cs with
    | nil => exact fun w _ => ⟨[], .refl _ w, rfl, nofun⟩
    | cons c cs ih =>
      intro w hcs
      obtain ⟨fs, hadds, hplace, hfinds⟩ := task.exists_adds_consider w single ha
        (hcs c List.mem_cons_self)
      obtain ⟨gs, hadds', hplace', hfinds'⟩ := ih (consider w c)
        fun c hc => hcs c (List.mem_cons_of_mem _ hc)
      refine ⟨fs ++ gs, hadds.trans hadds', ?_, fun g hg => ?_⟩
      · rw [List.map_append, hplace, hplace']
        by_cases hr : task.rejects single c = true <;> simp [hr]
      · rcases List.mem_append.1 hg with hg | hg
        · obtain ⟨f, hf, h⟩ := hfinds g hg
          exact ⟨f, List.mem_append_left _ hf, h⟩
        · obtain ⟨f, hf, h⟩ := hfinds' g hg
          exact ⟨f, List.mem_append_right _ hf, h⟩
  obtain ⟨fs, hadds, hplace, hfinds⟩ := hfold _ work fun c hc => hc
  exact ⟨fs, hadds, hplace, hfinds⟩

/-! ## Findings of a step -/

/-- What becomes of one application of a step: it is admitted and yields findings, or nothing is
found. Flags are compared with those at the beginning of the step. -/
def Attempts (task : Task) (step : Step) (work : Work) (children : List Child)
    (fs : List Finding) : Prop :=
  (∃ single, (single = true → ∀ child ∈ children, work.chart.isSingleFormula child.key = true) ∧
      task.admits step.rule step.target children = true ∧
      task.Yields step.rule step.target children single fs) ∨
    fs = [] ∧ (work.cancelAt = none → task.admits step.rule step.target children = false)

/-- An application is carried out just when it is admitted, unless the pass has been cancelled. -/
theorem verdict_spec (task : Task) (rule : Rule) (target : Cell) (children : List Child)
    (work : Work) :
    match task.verdict rule target children work with
    | .passedOver => work.isCancelled = true
    | .disallowed | .overlapping => task.admits rule target children = false
    | .admitted => task.admits rule target children = true := by
  unfold verdict
  by_cases hpassed : task.passesOver work target = true
  · rw [if_pos hpassed]
    rw [passesOver, Bool.and_eq_true] at hpassed
    exact hpassed.1
  rw [if_neg hpassed]
  by_cases hallows : task.allows (ingredient rule target children) = true
  · by_cases hoverlaps : task.overlaps children = true
    · simp [hallows, hoverlaps, admits]
    · simp [hallows, hoverlaps, admits]
  · simp [hallows, admits]

theorem exists_yields_apply (task : Task) (work : Work) (rule : Rule) (target : Cell)
    (children : List Child) :
    ∃ fs, work.Adds task.retention (task.apply rule target children work) fs ∧
      (task.admits rule target children = true ∧ task.Yields rule target children
          ((children.map (·.key)).all work.chart.isSingleFormula) fs ∨
        fs = [] ∧ (work.cancelAt = none → task.admits rule target children = false)) := by
  have hspec := task.verdict_spec rule target children work
  let attempted := work.tick.count fun report =>
    { report with applications := report.applications + 1 }
  have hattempted : work.Adds task.retention attempted [] :=
    (Work.adds_tick task.retention work).count rfl rfl
  unfold apply
  cases hv : task.verdict rule target children work with
  | passedOver =>
    rw [hv] at hspec
    refine ⟨[], Work.adds_tick task.retention work, Or.inr ⟨rfl, fun hn => ?_⟩⟩
    simp [Work.isCancelled, hn] at hspec
  | disallowed =>
    rw [hv] at hspec
    exact ⟨[], hattempted.count rfl rfl, Or.inr ⟨rfl, fun _ => hspec⟩⟩
  | overlapping =>
    rw [hv] at hspec
    exact ⟨[], hattempted.count rfl rfl, Or.inr ⟨rfl, fun _ => hspec⟩⟩
  | admitted =>
    rw [hv] at hspec
    obtain ⟨fs, hadds, hyield⟩ := task.exists_yields_carryOut attempted hspec
    exact ⟨fs, hattempted.trans hadds, Or.inl ⟨hspec, hyield⟩⟩

end Task

theorem mem_combinations {α : Type} {xss : List (List α)} {xs : List α} :
    xs ∈ combinations xss ↔ List.Forall₂ (· ∈ ·) xs xss := by
  induction xss generalizing xs with
  | nil => simp [combinations]
  | cons ys yss ih =>
    simp only [combinations, List.mem_flatMap, List.mem_map, ih]
    constructor
    · rintro ⟨y, hy, zs, hzs, rfl⟩
      exact .cons hy hzs
    · rintro (_ | ⟨hy, hzs⟩)
      exact ⟨_, hy, _, hzs, rfl⟩

namespace Work

theorem mem_children {work : Work} (hk : work.chart.Keyed) {cell : Cell} {child : Child} :
    child ∈ work.children cell ↔ child.key.cell = cell ∧
      ∃ record, work.chart.lookup? child.key = some record ∧ record.hidden = false ∧
        child.derivation ∈ record.derivations.toList := by
  simp only [children, List.mem_flatMap, List.mem_map, Chart.mem_entries]
  constructor
  · rintro ⟨record, ⟨⟨meaning, hl⟩, hh⟩, d, hd, rfl⟩
    have hkey := hk _ _ hl
    exact ⟨by rw [hkey], record, by rw [hkey, hl], hh, hd⟩
  · rintro ⟨rfl, record, hl, hh, hd⟩
    refine ⟨record, ⟨⟨child.key.meaning, hl⟩, hh⟩, child.derivation, hd, ?_⟩
    rw [hk _ _ hl]

theorem cell_of_mem_children {work : Work} (hk : work.chart.Keyed) {cell : Cell} {child : Child}
    (h : child ∈ work.children cell) : child.key.cell = cell :=
  ((mem_children hk).1 h).1

theorem mem_derivationsOf_of_mem_children {work : Work} (hk : work.chart.Keyed) {cell : Cell}
    {child : Child} (h : child ∈ work.children cell) :
    child.derivation ∈ work.chart.derivationsOf child.key := by
  obtain ⟨-, record, hl, -, hd⟩ := (mem_children hk).1 h
  rwa [Chart.derivationsOf_of_lookup? hl]

theorem mem_children_of_readable {work : Work} (hk : work.chart.Keyed)
    (hr : work.chart.Readable) {key : BackPointer} {d : Derivation}
    (hd : d ∈ work.chart.derivationsOf key) : ⟨key, d⟩ ∈ work.children key.cell := by
  obtain ⟨record, hl⟩ := Chart.holds_of_mem_derivationsOf hd
  rw [Chart.derivationsOf_of_lookup? hl] at hd
  exact (mem_children hk).2 ⟨rfl, record, hl, (hr key record hl).1, hd⟩

/-- The lists of children that a step applies its rule to. -/
def readings (work : Work) (step : Step) : List (List Child) :=
  combinations (step.sources.map work.children)

theorem mem_readings {work : Work} {step : Step} {children : List Child} :
    children ∈ work.readings step ↔
      List.Forall₂ (fun child cell => child ∈ work.children cell) children step.sources := by
  rw [readings, mem_combinations, List.forall₂_map_right_iff]

theorem exists_cell_of_mem_readings {work : Work} {step : Step} {children : List Child}
    (h : children ∈ work.readings step) {child : Child} (hc : child ∈ children) :
    ∃ cell ∈ step.sources, child ∈ work.children cell := by
  have hall := mem_readings.1 h
  obtain ⟨i, hi, rfl⟩ := List.mem_iff_getElem.1 hc
  have hi' : i < step.sources.length := hall.length_eq ▸ hi
  exact ⟨step.sources[i], List.getElem_mem hi', hall.get hi hi'⟩

theorem map_eq_map_of_forall₂ {α β γ : Type} {R : α → β → Prop} {f : α → γ} {g : β → γ}
    {as : List α} {bs : List β} (h : List.Forall₂ R as bs)
    (hR : ∀ a b, b ∈ bs → R a b → f a = g b) : as.map f = bs.map g := by
  induction h with
  | nil => rfl
  | cons hab _ ih =>
    rw [List.map_cons, List.map_cons, hR _ _ List.mem_cons_self hab,
      ih fun a b hb => hR a b (List.mem_cons_of_mem _ hb)]

/-- If each child that one work offers to a step has a counterpart that another work offers, so has
the list of them. -/
theorem exists_readings {work other : Work} {step : Step} {R : Child → Child → Prop}
    {children : List Child} (h : children ∈ work.readings step)
    (hr : ∀ child ∈ children, ∀ cell ∈ step.sources, child ∈ work.children cell →
      ∃ c ∈ other.children cell, R child c) :
    ∃ others ∈ other.readings step, List.Forall₂ R children others := by
  simp only [mem_readings] at h ⊢
  generalize step.sources = sources at h hr ⊢
  induction h with
  | nil => exact ⟨[], .nil, .nil⟩
  | @cons child cell children sources hc _ ih =>
    obtain ⟨c, hc', hrc⟩ := hr child List.mem_cons_self cell List.mem_cons_self hc
    obtain ⟨others, ho, hall⟩ := ih fun child hm cell hcell =>
      hr child (List.mem_cons_of_mem _ hm) cell (List.mem_cons_of_mem _ hcell)
    exact ⟨c :: others, .cons hc' ho, .cons hrc hall⟩

end Work

namespace Task

/-- The applications of a step, one after the other, are all that changes the chart in it. -/
theorem exists_attempts_runStep (task : Task) {work : Work} (step : Step)
    (hkeyed : work.chart.Keyed) :
    ∃ groups, List.Forall₂ (task.Attempts step work) (work.readings step) groups ∧
      work.Adds task.retention (task.runStep work step) groups.flatten := by
  have hfold : ∀ (cs : List (List Child)), (∀ children ∈ cs, children ∈ work.readings step) →
      ∀ (w : Work) (before : List Finding), work.Adds task.retention w before →
      ∃ groups, List.Forall₂ (task.Attempts step work) cs groups ∧
        w.Adds task.retention
          (cs.foldl (fun w children => task.apply step.rule step.target children w) w)
          groups.flatten := by
    intro cs
    induction cs with
    | nil => exact fun _ w _ _ => ⟨[], .nil, .refl _ w⟩
    | cons children cs ih =>
      intro hcs w before hw
      have hmem := hcs children List.mem_cons_self
      obtain ⟨fs, hadds, hfs⟩ := task.exists_yields_apply w step.rule step.target children
      obtain ⟨groups, hgroups, hrest⟩ := ih (fun c hc => hcs c (List.mem_cons_of_mem _ hc)) _ _
        (hw.trans hadds)
      refine ⟨fs :: groups, .cons ?_ hgroups, ?_⟩
      · rcases hfs with ⟨ha, hy⟩ | ⟨rfl, hn⟩
        · refine Or.inl ⟨_, fun hs child hc => ?_, ha, hy⟩
          obtain ⟨cell, -, hchild⟩ := Work.exists_cell_of_mem_readings hmem hc
          refine hw.isSingleFormula ?_ (List.all_eq_true.1 hs _ (List.mem_map_of_mem hc))
          exact Chart.holds_of_mem_derivationsOf
            (Work.mem_derivationsOf_of_mem_children hkeyed hchild)
        · exact Or.inr ⟨rfl, fun h => hn (hw.cancelAt.trans h)⟩
      · exact hadds.trans hrest
  exact hfold _ (fun _ h => h) work [] (.refl _ work)

/-! ### Reading the attempts of a step -/

section Attempts

variable {task : Task} {step : Step} {work : Work} {cs : List (List Child)}
  {groups : List (List Finding)}

/-- A finding of a step is one of an application, or was lifted from one. -/
theorem exists_finds_of_mem (h : List.Forall₂ (task.Attempts step work) cs groups) {f : Finding}
    (hf : f ∈ groups.flatten) :
    ∃ children ∈ cs, ∃ single,
      (single = true → ∀ child ∈ children, work.chart.isSingleFormula child.key = true) ∧
      f.placement ∈ task.placements single step.rule step.target children ∧
      ∃ g ∈ groups.flatten, task.Finds step.rule step.target children single g ∧
        (f = g ∨ g.IsLift f ∧ f.key.cell ∈ task.lift? step.target ∧
          task.allows f.ingredient = true) := by
  induction h with
  | nil => cases hf
  | @cons children fs cs groups hfs _ ih =>
    rw [List.flatten_cons, List.mem_append] at hf
    rcases hf with hf | hf
    · rcases hfs with ⟨single, hs, -, hy⟩ | ⟨rfl, -⟩
      · obtain ⟨g, hg, hfinds, hlift⟩ := hy.finds f hf
        refine ⟨children, List.mem_cons_self, single, hs, ?_, g,
          List.mem_append_left _ hg, hfinds, hlift⟩
        rw [← hy.placements]
        exact List.mem_map_of_mem hf
      · cases hf
    · obtain ⟨children', hc, single, hs, hp, g, hg, hfinds⟩ := ih hf
      exact ⟨children', List.mem_cons_of_mem _ hc, single, hs, hp, g,
        List.mem_append_right _ hg, hfinds⟩

/-- What is admitted is filed, unless the pass may have been cancelled. -/
theorem exists_finding_of_admits (h : List.Forall₂ (task.Attempts step work) cs groups)
    {children : List Child} (hc : children ∈ cs) (hn : work.cancelAt = none)
    (ha : task.admits step.rule step.target children = true) :
    ∃ single,
      (single = true → ∀ child ∈ children, work.chart.isSingleFormula child.key = true) ∧
      ∀ p ∈ task.placements single step.rule step.target children,
        ∃ f ∈ groups.flatten, f.placement = p ∧
          ∃ g ∈ groups.flatten, task.Finds step.rule step.target children single g ∧
            (f = g ∨ g.IsLift f) := by
  induction h with
  | nil => cases hc
  | @cons head fs cs groups hfs _ ih =>
    rcases List.mem_cons.1 hc with rfl | hc
    · rcases hfs with ⟨single, hs, -, hy⟩ | ⟨-, hno⟩
      · refine ⟨single, hs, fun p hp => ?_⟩
        rw [← hy.placements] at hp
        obtain ⟨f, hf, rfl⟩ := List.mem_map.1 hp
        obtain ⟨g, hg, hfinds, hlift⟩ := hy.finds f hf
        exact ⟨f, List.mem_append_left _ hf, rfl, g, List.mem_append_left _ hg, hfinds,
          hlift.imp_right And.left⟩
      · rw [hno hn] at ha
        cases ha
    · obtain ⟨single, hs, hall⟩ := ih hc
      refine ⟨single, hs, fun p hp => ?_⟩
      obtain ⟨f, hf, hp, g, hg, hfinds⟩ := hall p hp
      exact ⟨f, List.mem_append_right _ hf, hp, g, List.mem_append_right _ hg, hfinds⟩

theorem mem_placements {single : Bool} {rule : Rule} {target cell : Cell}
    {children : List Child} {d : Derivation} :
    (cell, d) ∈ task.placements single rule target children ↔
      cell ∈ task.places (ingredient rule target children) ∧
        d ∈ task.accepted single (application rule target children) := by
  simp only [placements, List.mem_flatMap, List.mem_map, Prod.mk.injEq]
  constructor
  · rintro ⟨e, he, c, hc, rfl, rfl⟩
    exact ⟨hc, he⟩
  · rintro ⟨hc, hd⟩
    exact ⟨d, hd, cell, hc, rfl, rfl⟩

end Attempts

end Task

end GuidedChart
