import GuidedChart.Proofs.Chart.Placement
import GuidedChart.Proofs.Construction.Run
import Mathlib.Data.List.Flatten

/-!
# What a step of a later pass contributes

A later pass that is not cancelled keeps all that it files. What a step adds to a cell can be said
in one expression then: along the combinations of what its sources hold, the derivations that the
rule comes to (`Task.derivations_runStep`). Whether a combination is permitted is asked of the keys
of the children; what it comes to depends on the derivations alone (`Task.comesTo`).
-/

namespace GuidedChart

/-! ## Combinations -/

section Combinations

variable {α β : Type}

theorem map_combinations (f : α → β) (xss : List (List α)) :
    (combinations xss).map (List.map f) = combinations (xss.map (List.map f)) := by
  induction xss with
  | nil => rfl
  | cons xs xss ih =>
    simp only [combinations, List.map_cons, List.map_flatMap, List.flatMap_map, List.map_map, ← ih,
      Function.comp_def]

theorem flatMap_combinations_singleton (xs : List α) (f : List α → List β) :
    (combinations [xs]).flatMap f = xs.flatMap fun x => f [x] := by
  simp [combinations, List.flatMap_assoc]

theorem flatMap_combinations_pair (xs ys : List α) (f : List α → List β) :
    (combinations [xs, ys]).flatMap f = xs.flatMap fun x => ys.flatMap fun y => f [x, y] := by
  simp [combinations, List.flatMap_assoc, List.flatMap_map]

theorem flatMap_subperm {xs ys : List α} (h : xs.Subperm ys) (f : α → List β) :
    (xs.flatMap f).Subperm (ys.flatMap f) := by
  obtain ⟨zs, hperm, hsub⟩ := h
  exact (hperm.symm.flatMap_right f).subperm.trans (hsub.flatMap f).subperm

theorem subperm_map {xs ys : List α} (h : xs.Subperm ys) (f : α → β) :
    (xs.map f).Subperm (ys.map f) := by
  obtain ⟨zs, hperm, hsub⟩ := h
  exact ⟨zs.map f, hperm.map f, hsub.map f⟩

theorem flatMap_subperm_flatMap {xs : List α} {f g : α → List β}
    (h : ∀ x ∈ xs, (f x).Subperm (g x)) : (xs.flatMap f).Subperm (xs.flatMap g) := by
  induction xs with
  | nil => exact .refl _
  | cons x xs ih =>
    rw [List.flatMap_cons, List.flatMap_cons]
    exact (h x List.mem_cons_self).append (ih fun y hy => h y (List.mem_cons_of_mem _ hy))

theorem combinations_subperm {xss yss : List (List α)} (h : List.Forall₂ List.Subperm xss yss) :
    (combinations xss).Subperm (combinations yss) := by
  induction h with
  | nil => exact .refl _
  | cons hxs _ ih =>
    exact (flatMap_subperm_flatMap fun x _ => subperm_map ih (x :: ·)).trans (flatMap_subperm hxs _)

theorem combinations_perm {xss yss : List (List α)} (h : List.Forall₂ List.Perm xss yss) :
    (combinations xss).Perm (combinations yss) := by
  induction h with
  | nil => exact .refl _
  | cons hxs _ ih =>
    exact (hxs.flatMap_right _).trans (List.Perm.flatMap_left _ fun x _ => ih.map (x :: ·))

/-- What comes of the only element of which anything comes. -/
theorem flatMap_eq_of_mem {xs : List α} (hn : xs.Nodup) {a : α} (ha : a ∈ xs) {f : α → List β}
    (h : ∀ x ∈ xs, x ≠ a → f x = []) : xs.flatMap f = f a := by
  obtain ⟨before, after, rfl⟩ := List.append_of_mem ha
  obtain ⟨-, hafter, hbefore⟩ := List.nodup_append.1 hn
  have hnone : ∀ ys : List α, ys ⊆ before ++ a :: after → a ∉ ys → ys.flatMap f = [] := by
    intro ys hsub hnot
    refine List.flatMap_eq_nil_iff.2 fun y hy => h y (hsub hy) ?_
    rintro rfl
    exact hnot hy
  rw [List.flatMap_append, List.flatMap_cons,
    hnone before (List.subset_append_left _ _) fun hm => hbefore a hm a List.mem_cons_self rfl,
    hnone after (fun y hy => List.mem_append_right _ (List.mem_cons_of_mem _ hy))
      (List.nodup_cons.1 hafter).1, List.nil_append, List.append_nil]

theorem flatMap_eq_flatMap_filter {xs : List α} {p : α → Bool} {f g : α → List β}
    (h : ∀ x ∈ xs, p x = true → f x = g x) (hn : ∀ x ∈ xs, ¬ p x = true → f x = []) :
    xs.flatMap f = (xs.filter p).flatMap g := by
  induction xs with
  | nil => rfl
  | cons x xs ih =>
    have hrest := ih (fun y hy => h y (List.mem_cons_of_mem _ hy)) fun y hy =>
      hn y (List.mem_cons_of_mem _ hy)
    by_cases hx : p x = true
    · rw [List.flatMap_cons, List.filter_cons_of_pos hx, List.flatMap_cons,
        h x List.mem_cons_self hx, hrest]
    · rw [List.flatMap_cons, List.filter_cons_of_neg hx, hn x List.mem_cons_self hx, hrest,
        List.nil_append]

/-- If something comes only of combinations of elements that count, the others may be left out of
the lists that are combined. -/
theorem flatMap_combinations_filter {ι : Type} {sources : List ι} {read : ι → List α}
    {p : ι → α → Bool} {f : List α → List β}
    (h : ∀ xs ∈ combinations (sources.map read), f xs ≠ [] →
      List.Forall₂ (fun x i => p i x = true) xs sources) :
    (combinations (sources.map read)).flatMap f =
      (combinations (sources.map fun i => (read i).filter (p i))).flatMap f := by
  induction sources generalizing f with
  | nil => rfl
  | cons i sources ih =>
    simp only [List.map_cons, combinations, List.flatMap_assoc, List.flatMap_map]
    have hmem : ∀ x ∈ read i, ∀ xs ∈ combinations (sources.map read),
        x :: xs ∈ combinations ((i :: sources).map read) := by
      intro x hx xs hxs
      exact List.mem_flatMap.2 ⟨x, hx, List.mem_map_of_mem hxs⟩
    refine flatMap_eq_flatMap_filter (fun x hx _ => ih fun xs hxs hne => ?_) fun x hx hp => ?_
    · exact (List.forall₂_cons.1 (h _ (hmem x hx xs hxs) hne)).2
    · refine List.flatMap_eq_nil_iff.2 fun xs hxs => by_contra fun hne => hp ?_
      exact (List.forall₂_cons.1 (h _ (hmem x hx xs hxs) hne)).1

end Combinations

/-- What was filed in a cell, of all that was filed. -/
def filedIn (cell : Cell) (placements : List (Cell × Derivation)) : List Derivation :=
  (placements.filter (·.1 = cell)).map (·.2)

theorem filedIn_append (cell : Cell) (placements more : List (Cell × Derivation)) :
    filedIn cell (placements ++ more) = filedIn cell placements ++ filedIn cell more := by
  simp only [filedIn, List.filter_append, List.map_append]

theorem filedIn_flatMap {α : Type} (cell : Cell) (xs : List α)
    (f : α → List (Cell × Derivation)) :
    filedIn cell (xs.flatMap f) = xs.flatMap fun x => filedIn cell (f x) := by
  simp only [filedIn, List.filter_flatMap, List.map_flatMap]

theorem filedIn_placement (cell : Cell) (fs : List Finding) :
    filedIn cell (fs.map Finding.placement) =
      (fs.filter (·.key.cell = cell)).map (·.derivation) := by
  rw [filedIn, List.filter_map, List.map_map]
  rfl

/-- What is filed in several different cells is filed once in each. -/
theorem filedIn_map {cell : Cell} {cells : List Cell} (h : cells.Nodup) (d : Derivation) :
    filedIn cell (cells.map (·, d)) = if cell ∈ cells then [d] else [] := by
  rw [filedIn, List.filter_map, List.map_map]
  change (cells.filter (· = cell)).map (fun _ => d) = _
  split
  · rename_i hm
    rw [List.filter_eq, List.count_eq_one_of_mem h hm]
    rfl
  · rename_i hm
    rw [List.filter_eq, List.count_eq_zero_of_not_mem hm]
    rfl

/-! ## What comes of an application -/

namespace Parser

/-- What becomes of an application where everything is kept: its candidates are executed, those that
a strategy discards are left out, and the others are scored. -/
def made (parser : Parser) (tokens : List String) (application : Application) : List Derivation :=
  ((application.candidates tokens).filter fun c =>
    !parser.pruner.discards c.formula (some c.formula.execute)).map fun c =>
      let executed := { c with outcome := some c.formula.execute }
      { executed with score := parser.scorer executed }

section Made

variable {parser : Parser} {tokens : List String} {application : Application} {d : Derivation}

theorem exists_candidate_of_mem_made (h : d ∈ parser.made tokens application) :
    ∃ c ∈ application.candidates tokens, d.rule = c.rule ∧ d.span = c.span ∧
      d.children = c.children ∧ d.anchors = c.anchors := by
  obtain ⟨c, hc, rfl⟩ := List.mem_map.1 h
  exact ⟨c, List.mem_of_mem_filter hc, rfl, rfl, rfl, rfl⟩

theorem rule_of_mem_made (h : d ∈ parser.made tokens application) : d.rule = application.rule := by
  obtain ⟨c, hc, hrule, -⟩ := exists_candidate_of_mem_made h
  rw [hrule, Application.rule_of_mem hc]

theorem children_of_mem_made (h : d ∈ parser.made tokens application) :
    d.children = application.children := by
  obtain ⟨c, hc, -, -, hchildren, -⟩ := exists_candidate_of_mem_made h
  rw [hchildren, Application.children_of_mem hc]

theorem anchors_of_mem_made (h : d ∈ parser.made tokens application) :
    d.anchors = Derivation.anchorsOn application.span application.children := by
  obtain ⟨c, hc, -, -, -, hanchors⟩ := exists_candidate_of_mem_made h
  obtain ⟨formula, rfl⟩ := Application.exists_formula_of_mem hc
  exact hanchors

end Made

end Parser

namespace Task

variable {task : Task} {rule : Rule} {target cell : Cell} {children : List Child}

/-- Do two derivations share more tokens than a later pass lets them? -/
def overlapping (task : Task) (ds : List Derivation) : Bool :=
  match task.parser.config.maxAnchorOverlap, ds with
  | some limit, [d, e] => limit < d.overlap e
  | _, _ => false

/-- What a later pass that is permitted everything comes to in a cell, by a rule over these
derivations. -/
def comesTo (task : Task) (rule : Rule) (target cell : Cell) (ds : List Derivation) :
    List Derivation :=
  if cell ∈ target :: (task.lift? target).toList ∧ task.overlapping ds = false then
    task.accepted false ⟨rule, target.span, ds⟩
  else []

/-- What a step comes to in a cell, when the cells hold these derivations. -/
def fills (task : Task) (held : Cell → List Derivation) (cell : Cell) (step : Step) :
    List Derivation :=
  (combinations (step.sources.map held)).flatMap (task.comesTo step.rule step.target cell)

/-- Is it permitted to apply a rule to these children, and to file what comes of it in a cell? -/
def permits (task : Task) (rule : Rule) (target cell : Cell) (children : List Child) : Bool :=
  task.allows (ingredient rule target children) &&
    task.allows { ingredient rule target children with cell }

/-- What an application contributes to a cell. -/
def contribution (task : Task) (rule : Rule) (target cell : Cell) (children : List Child) :
    List Derivation :=
  if task.permits rule target cell children = true then
    task.comesTo rule target cell (children.map (·.derivation))
  else []

theorem overlaps_of_later (h : task.pass ≠ .first) (children : List Child) :
    task.overlaps children = task.overlapping (children.map (·.derivation)) := by
  unfold overlaps overlapping
  rw [decide_eq_true h, Bool.true_and]
  match task.parser.config.maxAnchorOverlap, children with
  | none, _ => rfl
  | some _, [] => rfl
  | some _, [_] => rfl
  | some _, [_, _] => rfl
  | some _, _ :: _ :: _ :: _ => rfl

theorem accepted_of_later (h : task.pass ≠ .first) (single : Bool) (application : Application) :
    task.accepted single application = task.accepted false application := by
  have hp : ∀ s, task.pruner s = task.parser.pruner := fun s => by
    simp [pruner, h, Pruner.restrict]
  simp only [accepted, rejects, hp]

theorem accepted_eq_made (h : task.pass ≠ .first) (single : Bool) (application : Application) :
    task.accepted single application = task.parser.made task.tokens application := by
  rw [accepted_of_later h]
  have hfinished : task.finished = fun c =>
      let executed := { c with outcome := some c.formula.execute }
      { executed with score := task.parser.scorer executed } := by
    funext c
    rw [finished, if_neg h]
  have hrejects : ∀ c, task.rejects false c =
      task.parser.pruner.discards c.formula (some c.formula.execute) := by
    intro c
    simp [rejects, pruner, h, Pruner.restrict]
  simp only [accepted, Parser.made, hfinished, hrejects]

theorem comesTo_eq (h : task.pass ≠ .first) (rule : Rule) (target cell : Cell)
    (ds : List Derivation) :
    task.comesTo rule target cell ds =
      if cell ∈ target :: (task.lift? target).toList ∧ task.overlapping ds = false then
        task.parser.made task.tokens ⟨rule, target.span, ds⟩
      else [] := by
  rw [comesTo, accepted_eq_made h]

theorem comesTo_congr {other : Task} (hp : other.parser = task.parser)
    (ht : other.tokens = task.tokens) (h : task.pass ≠ .first) (ho : other.pass ≠ .first) :
    other.comesTo = task.comesTo := by
  obtain ⟨parser, tokens, pass, allowed⟩ := task
  obtain ⟨parser', tokens', pass', allowed'⟩ := other
  cases hp
  cases ht
  have hpass : (pass = Pass.first) = (pass' = Pass.first) :=
    propext ⟨fun hf => absurd hf h, fun hf => absurd hf ho⟩
  have hfinished : (⟨parser, tokens, pass', allowed'⟩ : Task).finished =
      (⟨parser, tokens, pass, allowed⟩ : Task).finished := by
    funext candidate
    simp only [finished, hpass]
  have haccepted : (⟨parser, tokens, pass', allowed'⟩ : Task).accepted false =
      (⟨parser, tokens, pass, allowed⟩ : Task).accepted false := by
    funext application
    simp only [accepted, rejects, pruner, hpass, hfinished]
  funext rule target cell ds
  unfold comesTo
  rw [haccepted]
  rfl

theorem nodup_places (task : Task) (ingredient : Ingredient) :
    (task.places ingredient).Nodup := by
  refine List.nodup_cons.2 ⟨fun hm => ?_, List.Nodup.filter _ (Option.toList_nodup _)⟩
  obtain ⟨hanchored, -, hcell⟩ :=
    eq_of_mem_lift? (Option.mem_toList.1 (List.mem_of_mem_filter hm))
  rw [hcell] at hanchored
  cases hanchored

theorem mem_places_iff (ha : task.allows (ingredient rule target children) = true) :
    cell ∈ task.places (ingredient rule target children) ↔
      cell ∈ target :: (task.lift? target).toList ∧
        task.permits rule target cell children = true := by
  rw [permits, ha, Bool.true_and, places, List.mem_cons, List.mem_cons, List.mem_filter]
  change cell = target ∨ cell ∈ (task.lift? target).toList ∧ _ ↔ _
  constructor
  · rintro (rfl | ⟨hl, hc⟩)
    · exact ⟨Or.inl rfl, ha⟩
    · exact ⟨Or.inr hl, hc⟩
  · rintro ⟨rfl | hl, hc⟩
    · exact Or.inl rfl
    · exact Or.inr ⟨hl, hc⟩

/-- What an application files in a cell is what it contributes. -/
theorem filedIn_placements (h : task.pass ≠ .first)
    (ha : task.admits rule target children = true) (single : Bool) :
    filedIn cell (task.placements single rule target children) =
      task.contribution rule target cell children := by
  obtain ⟨hallow, hover⟩ := Bool.and_eq_true_iff.1 ha
  rw [Bool.not_eq_true', overlaps_of_later h] at hover
  have hplace : cell ∈ task.places (ingredient rule target children) ↔ _ := mem_places_iff hallow
  rw [placements, filedIn_flatMap, accepted_of_later h single, contribution, comesTo, hover]
  simp only [filedIn_map (task.nodup_places _), and_true]
  by_cases hm : cell ∈ task.places (ingredient rule target children)
  · obtain ⟨hcell, hp⟩ := hplace.1 hm
    simp only [hm, hcell, hp, if_true, List.flatMap_singleton']
    rfl
  · have hno : ¬ (task.permits rule target cell children = true ∧
        cell ∈ target :: (task.lift? target).toList) := fun hc => hm (hplace.2 hc.symm)
    rw [← ite_and, if_neg hno]
    simp only [hm, if_false]
    exact List.flatMap_eq_nil_iff.2 fun _ _ => rfl

theorem contribution_of_not_admits (h : task.pass ≠ .first)
    (ha : task.admits rule target children = false) :
    task.contribution rule target cell children = [] := by
  unfold contribution permits comesTo
  rw [← overlaps_of_later h]
  rw [admits, Bool.and_eq_false_iff, Bool.not_eq_false'] at ha
  rcases ha with ha | ha
  · simp [ha]
  · simp [ha]

/-- What a step contributes to a cell, application by application. -/
theorem filedIn_attempts (h : task.pass ≠ .first) {step : Step} {work : Work}
    (hn : work.cancelAt = none) {cs : List (List Child)} {groups : List (List Finding)}
    (hall : List.Forall₂ (task.Attempts step work) cs groups) (cell : Cell) :
    filedIn cell (groups.flatten.map Finding.placement) =
      cs.flatMap (task.contribution step.rule step.target cell) := by
  induction hall with
  | nil => rfl
  | @cons children fs cs groups hfs _ ih =>
    rw [List.flatten_cons, List.map_append, filedIn_append, ih, List.flatMap_cons]
    rcases hfs with ⟨single, -, ha, hy⟩ | ⟨rfl, hno⟩
    · rw [hy.placements, filedIn_placements h ha]
    · rw [contribution_of_not_admits h (hno hn)]
      rfl

end Task

namespace Work

variable {task : Task} {work : Work}

theorem map_readings (work : Work) (step : Step) :
    (work.readings step).map (List.map (·.derivation)) =
      combinations (step.sources.map work.chart.derivations) := by
  have hcell : ∀ cell, (work.children cell).map (·.derivation) = work.chart.derivations cell := by
    intro cell
    simp only [children, Chart.derivations, List.map_flatMap, List.map_map]
    exact List.flatMap_congr fun record _ => List.map_id _
  rw [readings, map_combinations, List.map_map]
  exact congrArg combinations (List.map_congr_left fun cell _ => hcell cell)

theorem flatMap_readings {α : Type} (work : Work) (step : Step) (f : List Derivation → List α) :
    ((work.readings step).flatMap fun children => f (children.map (·.derivation))) =
      (combinations (step.sources.map work.chart.derivations)).flatMap f := by
  rw [← map_readings, List.flatMap_map]

/-- What a step contributes is a part of what comes of it when everything is permitted. -/
theorem contributions_subperm (task : Task) (work : Work) (step : Step) (cell : Cell) :
    ((work.readings step).flatMap (task.contribution step.rule step.target cell)).Subperm
      ((combinations (step.sources.map work.chart.derivations)).flatMap
        (task.comesTo step.rule step.target cell)) := by
  rw [← flatMap_readings]
  refine flatMap_subperm_flatMap fun children _ => ?_
  unfold Task.contribution
  split
  · exact .refl _
  · exact List.nil_subperm

theorem contributions_of_permits {task : Task} {work : Work} {step : Step} {cell : Cell}
    (h : ∀ children, task.permits step.rule step.target cell children = true) :
    (work.readings step).flatMap (task.contribution step.rule step.target cell) =
      (combinations (step.sources.map work.chart.derivations)).flatMap
        (task.comesTo step.rule step.target cell) := by
  rw [← flatMap_readings]
  exact List.flatMap_congr fun children _ => if_pos (h children)

theorem Sound.faithful (h : work.Sound) : work.chart.Faithful work.table :=
  h.sense?

/-- A step places what it contributes among the derivations of each cell. -/
theorem Sound.derivations_runStep (h : work.Sound) (ho : work.Open) (hl : task.pass ≠ .first)
    (hn : work.cancelAt = none) (step : Step) (cell : Cell) :
    (task.runStep work step).chart.derivations cell =
      Derivation.placeAll (work.chart.derivations cell)
        ((work.readings step).flatMap (task.contribution step.rule step.target cell)) := by
  obtain ⟨groups, hall, hg⟩ := h.exists_attempts task step
  have hfaithful : work.chart.Faithful (task.runStep work step).table := fun key d hd =>
    hg.sense?_of_sense? (h.sense? key d hd)
  have hretention : task.retention = .all := if_neg hl
  rw [hg.chart, hretention,
    Chart.derivations_addAll ho.readable hfaithful hg.refersBack hg.sense?,
    ← filedIn_placement, Task.filedIn_attempts hl hn hall]

/-- Where everything is permitted, a step adds what it comes to, whatever the numbers of the
meanings stand for. -/
theorem derivations_runStep_perm (hkeyed : work.chart.Keyed) (hv : work.chart.Visible)
    (hl : task.pass ≠ .first) (ha : task.allowed = none) (hn : work.cancelAt = none) (step : Step)
    (cell : Cell) :
    ((task.runStep work step).chart.derivations cell).Perm
      (work.chart.derivations cell ++ task.fills work.chart.derivations cell step) := by
  obtain ⟨groups, hall, hg⟩ := task.exists_attempts_runStep step hkeyed
  have hretention : task.retention = .all := if_neg hl
  have hpermits : ∀ children, task.permits step.rule step.target cell children = true := by
    intro children
    simp [Task.permits, Task.allows, ha]
  have hfiled : (groups.flatten.filter (·.key.cell = cell)).map (·.derivation) =
      task.fills work.chart.derivations cell step := by
    rw [← filedIn_placement, Task.filedIn_attempts hl hn hall, contributions_of_permits hpermits]
    rfl
  rw [hg.chart, hretention, ← hfiled]
  exact Chart.derivations_addAll_perm hv groups.flatten cell

/-- A step leaves alone what it does not add to. -/
theorem Sound.derivations_runStep_of_untouched (h : work.Sound) (ho : work.Open)
    (hl : task.pass ≠ .first) {step : Step} {cell : Cell}
    (hcell : cell ∉ (task.runStep work step).touched.toList) :
    cell ∉ work.touched.toList ∧
      (task.runStep work step).chart.derivations cell = work.chart.derivations cell := by
  obtain ⟨groups, -, hg⟩ := h.exists_attempts task step
  rw [hg.touched, not_or] at hcell
  refine ⟨hcell.1, ?_⟩
  have hfaithful : work.chart.Faithful (task.runStep work step).table := fun key d hd =>
    hg.sense?_of_sense? (h.sense? key d hd)
  have hretention : task.retention = .all := if_neg hl
  have hnone : groups.flatten.filter (·.key.cell = cell) = [] := by
    refine List.filter_eq_nil_iff.2 fun f hf hc => hcell.2 ⟨f, hf, ?_⟩
    exact of_decide_eq_true hc
  rw [hg.chart, hretention,
    Chart.derivations_addAll ho.readable hfaithful hg.refersBack hg.sense?, hnone]
  rfl

end Work

/-! ## The beam of a later pass -/

namespace Task

variable {task : Task} (hl : task.pass ≠ .first)

include hl

theorem chart_cut (work : Work) (cell : Cell) :
    (task.cut work cell).chart = work.chart.keepBest cell task.parser.config.beamSize := by
  rw [cut, if_neg hl]
  rfl

theorem beamDropped_cut (work : Work) (cell : Cell) :
    (task.cut work cell).report.beamDropped =
      work.report.beamDropped + work.chart.numDropped cell task.parser.config.beamSize := by
  rw [cut, if_neg hl]
  rfl

/-- Cutting cells that are small enough changes nothing that can be read. -/
theorem entries_foldl_cut {cells : List Cell} {work : Work}
    (h : ∀ cell ∈ cells, ∀ record ∈ work.chart.entries cell,
      record.derivations.toList.length ≤ task.parser.config.beamSize) (other : Cell) :
    (cells.foldl task.cut work).chart.entries other = work.chart.entries other := by
  induction cells generalizing work with
  | nil => rfl
  | cons cell cells ih =>
    have hcut : ∀ c, (task.cut work cell).chart.entries c = work.chart.entries c := by
      rw [chart_cut hl]
      exact Chart.entries_keepBest_of_le (h cell List.mem_cons_self)
    rw [List.foldl_cons, ih fun c hc => ?_, hcut]
    rw [hcut]
    exact h c (List.mem_cons_of_mem _ hc)

theorem entries_settle {work : Work}
    (h : ∀ cell ∈ work.touched.toList, ∀ record ∈ work.chart.entries cell,
      record.derivations.toList.length ≤ task.parser.config.beamSize) (other : Cell) :
    (task.settle work).chart.entries other = work.chart.entries other :=
  entries_foldl_cut hl h other

/-- Where cutting cells drops nothing, they were small enough. -/
theorem length_le_of_beamDropped_foldl_cut {cells : List Cell} {work : Work}
    (h : (cells.foldl task.cut work).report.beamDropped = 0) :
    work.report.beamDropped = 0 ∧ ∀ cell ∈ cells, ∀ record ∈ work.chart.entries cell,
      record.derivations.toList.length ≤ task.parser.config.beamSize := by
  induction cells generalizing work with
  | nil => exact ⟨h, nofun⟩
  | cons cell cells ih =>
    obtain ⟨hzero, hall⟩ := ih h
    rw [beamDropped_cut hl, Nat.add_eq_zero_iff] at hzero
    have hcell : ∀ record ∈ work.chart.entries cell,
        record.derivations.toList.length ≤ task.parser.config.beamSize :=
      fun record hr => Chart.length_le_of_numDropped hzero.2 hr
    refine ⟨hzero.1, fun c hc record hr => ?_⟩
    rcases List.mem_cons.1 hc with rfl | hc
    · exact hcell record hr
    · refine hall c hc record ?_
      rwa [chart_cut hl, Chart.entries_keepBest_of_le hcell]

theorem length_le_of_beamDropped_settle {work : Work}
    (h : (task.settle work).report.beamDropped = 0) :
    work.report.beamDropped = 0 ∧ ∀ cell ∈ work.touched.toList,
      ∀ record ∈ work.chart.entries cell,
        record.derivations.toList.length ≤ task.parser.config.beamSize :=
  length_le_of_beamDropped_foldl_cut hl h

end Task

end GuidedChart
