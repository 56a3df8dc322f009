import GuidedChart.Proofs.Construction.Contributions

/-!
# What a list of ways permits

A later pass may be kept to a list of ways, which name the meanings of children by number. If the
ways to root cells name only numbers that a table has, they can be read without the numbers, as
long as the table only grows: whether a way is permitted depends on the senses of the children
(`Task.Grants`). What a step contributes to a root cell is then a matter of what the sources hold,
whatever was numbered in between and in which order (`Task.contributions_eq_granted`). A pass that
is cancelled adds a part of what it contributes (`Work.Sound.exists_derivations_runStep`).
-/

namespace GuidedChart

open GuidedChart.Derivation (sense)

/-- Are all numbers the way refers to below a bound? -/
def Ingredient.RefersBelow (n : Nat) (way : Ingredient) : Prop :=
  (∀ id ∈ way.first, id < n) ∧ ∀ id ∈ way.second, id < n

instance (n : Nat) (way : Ingredient) : Decidable (way.RefersBelow n) :=
  inferInstanceAs (Decidable (_ ∧ _))

theorem Ingredient.RefersBelow.mono {m n : Nat} {way : Ingredient} (h : way.RefersBelow m)
    (hmn : m ≤ n) : way.RefersBelow n :=
  ⟨fun id hid => Nat.lt_of_lt_of_le (h.1 id hid) hmn,
    fun id hid => Nat.lt_of_lt_of_le (h.2 id hid) hmn⟩

/-- In the list that the pass is kept to, if there is one, do the ways to root cells name only
numbers of the table? -/
def Task.ListsKnown (task : Task) (table : MeaningTable) : Prop :=
  ∀ ways ∈ task.allowed, ∀ way ∈ ways.toList,
    way.cell.category = task.parser.grammar.root → way.RefersBelow table.size

theorem Task.ListsKnown.mono {task : Task} {table later : MeaningTable}
    (h : task.ListsKnown table) (hsenses : table.senses <+: later.senses) :
    task.ListsKnown later := by
  intro ways hways way hway hroot
  refine (h ways hways way hway hroot).mono ?_
  rw [← MeaningTable.length_senses, ← MeaningTable.length_senses]
  exact hsenses.length_le

namespace Task

variable {task : Task} {table : MeaningTable} {rule : Rule} {target cell : Cell}

/-- Is there a way to the cell in the list that is by this rule, over numbers that the table has
for the senses of these derivations? If there is no list, everything is permitted. -/
def Grants (task : Task) (table : MeaningTable) (rule : Rule) (cell : Cell)
    (ds : List Derivation) : Prop :=
  ∀ ways ∈ task.allowed, ∃ way ∈ ways.toList, way.cell = cell ∧ way.rule = rule.id ∧
    way.first.map table.sense? = ds[0]?.map (fun d => some d.sense) ∧
    way.second.map table.sense? = ds[1]?.map (fun d => some d.sense)

theorem allows_iff (hl : task.pass ≠ .first) {i : Ingredient} :
    task.allows i = true ↔ ∀ ways ∈ task.allowed, i ∈ ways.toList := by
  unfold allows
  rw [decide_eq_false hl, Bool.false_or]
  cases task.allowed with
  | none => simp
  | some ways => simp [Numbering.contains_iff_mem]

/-- A number of the table has the sense of a child just when it is the number of the child. -/
theorem map_sense?_eq_iff {later : MeaningTable} (hb : later.RefersBack)
    (hsenses : table.senses <+: later.senses) {id? : Option MeaningId}
    (hid : ∀ id ∈ id?, id < table.size) {child? : Option Child}
    (hk : ∀ child ∈ child?, later.sense? child.key.meaning = some child.derivation.sense) :
    id?.map table.sense? = child?.map (fun child => some child.derivation.sense) ↔
      id? = child?.map (·.key.meaning) := by
  cases id? with
  | none => cases child? <;> simp
  | some id =>
    cases child? with
    | none => simp
    | some child =>
      obtain ⟨s, hs⟩ : ∃ s, table.sense? id = some s := by
        refine ⟨_, List.getElem?_eq_getElem ?_⟩
        rw [MeaningTable.length_senses]
        exact hid id rfl
      have hlater : later.sense? id = some s := MeaningTable.sense?_of_prefix hsenses hs
      have hchild := hk child rfl
      simp only [Option.map_some, Option.some.injEq, hs]
      constructor
      · rintro rfl
        exact MeaningTable.sense?_inj hb hlater hchild
      · rintro rfl
        exact Option.some.inj (hlater.symm.trans hchild)

/-- Where it names only numbers of the table, a list asks for the senses of the children. -/
theorem allows_iff_grants (hl : task.pass ≠ .first) (hlist : task.ListsKnown table)
    (hroot : cell.category = task.parser.grammar.root) {later : MeaningTable}
    (hb : later.RefersBack) (hsenses : table.senses <+: later.senses) {children : List Child}
    (hk : later.Knows children) :
    task.allows { ingredient rule target children with cell } = true ↔
      task.Grants table rule cell (children.map (·.derivation)) := by
  rw [allows_iff hl, Grants]
  refine forall₂_congr fun ways hways => ?_
  have hat : ∀ (i : Nat) (id? : Option MeaningId), (∀ id ∈ id?, id < table.size) →
      (id?.map table.sense? = (children.map (·.derivation))[i]?.map (fun d => some d.sense) ↔
        id? = children[i]?.map (·.key.meaning)) := by
    intro i id? hid
    rw [List.getElem?_map, Option.map_map]
    exact map_sense?_eq_iff hb hsenses hid fun child hc => hk child (List.mem_of_getElem? hc)
  constructor
  · intro hmem
    obtain ⟨hfirst, hsecond⟩ := hlist ways hways _ hmem hroot
    exact ⟨_, hmem, rfl, rfl, (hat 0 _ hfirst).2 rfl, (hat 1 _ hsecond).2 rfl⟩
  · rintro ⟨⟨c, r, first, second⟩, hmem, rfl, rfl, hfirst, hsecond⟩
    obtain ⟨hbelow, hbelow'⟩ := hlist ways hways _ hmem hroot
    obtain rfl := (hat 0 first hbelow).1 hfirst
    obtain rfl := (hat 1 second hbelow').1 hsecond
    exact hmem

/-! ## What a step comes to -/

section Granted

open Classical in
/-- What a pass comes to in a cell by a step, as far as it is permitted, when the cells hold these
derivations. -/
noncomputable def granted (task : Task) (table : MeaningTable) (held : Cell → List Derivation)
    (cell : Cell) (step : Step) : List Derivation :=
  (combinations (step.sources.map held)).flatMap fun ds =>
    if task.Grants table step.rule step.target ds ∧ task.Grants table step.rule cell ds then
      task.comesTo step.rule step.target cell ds
    else []

variable {held later : Cell → List Derivation} {step : Step}

theorem mem_granted {d : Derivation} :
    d ∈ task.granted table held cell step ↔
      ∃ ds, List.Forall₂ (fun e source => e ∈ held source) ds step.sources ∧
        (task.Grants table step.rule step.target ds ∧ task.Grants table step.rule cell ds) ∧
        d ∈ task.comesTo step.rule step.target cell ds := by
  classical
  rw [granted, List.mem_flatMap]
  refine exists_congr fun ds => ?_
  rw [mem_combinations, List.forall₂_map_right_iff, List.mem_ite_nil_right]

theorem granted_subperm (h : ∀ source ∈ step.sources, (held source).Subperm (later source)) :
    (task.granted table held cell step).Subperm (task.granted table later cell step) := by
  refine flatMap_subperm (combinations_subperm ?_) _
  rw [List.forall₂_map_left_iff, List.forall₂_map_right_iff, List.forall₂_same]
  exact h

end Granted

/-- A rule for one category comes to nothing in the cells of another. -/
theorem comesTo_of_category_ne (h : target.category ≠ cell.category) (ds : List Derivation) :
    task.comesTo rule target cell ds = [] :=
  if_neg fun hcell => h (category_of_mem_lift? hcell.1).symm

/-- What a step of a pass contributes to a root cell, sense by sense. -/
theorem contributions_eq_granted (hl : task.pass ≠ .first) (hlist : task.ListsKnown table)
    {work : Work} (hs : work.Sound) (hsenses : table.senses <+: work.table.senses) (step : Step)
    (hroot : cell.category = task.parser.grammar.root) :
    (work.readings step).flatMap (task.contribution step.rule step.target cell) =
      task.granted table work.chart.derivations cell step := by
  classical
  rw [granted, ← Work.flatMap_readings]
  refine List.flatMap_congr fun children hc => ?_
  by_cases htarget : step.target.category = task.parser.grammar.root
  · have hk : work.table.Knows children := knows_of_mem_readings hs.knows hc
    have hgrants : ∀ c : Cell, c.category = task.parser.grammar.root →
        (task.allows { ingredient step.rule step.target children with cell := c } = true ↔
          task.Grants table step.rule c (children.map (·.derivation))) := fun _ hcategory =>
      allows_iff_grants hl hlist hcategory hs.refersBack hsenses hk
    have hpermits : task.permits step.rule step.target cell children = true ↔
        task.Grants table step.rule step.target (children.map (·.derivation)) ∧
          task.Grants table step.rule cell (children.map (·.derivation)) := by
      rw [permits, Bool.and_eq_true]
      exact and_congr (hgrants step.target htarget) (hgrants cell hroot)
    exact if_congr hpermits rfl rfl
  · rw [contribution, comesTo_of_category_ne (hroot ▸ htarget), ite_self, ite_self]

/-- What the applications of a step file in a cell is a part of what they contribute. -/
theorem filedIn_attempts_sublist (hl : task.pass ≠ .first) {step : Step} {work : Work}
    {cs : List (List Child)} {groups : List (List Finding)}
    (hall : List.Forall₂ (task.Attempts step work) cs groups) (cell : Cell) :
    (filedIn cell (groups.flatten.map Finding.placement)).Sublist
      (cs.flatMap (task.contribution step.rule step.target cell)) := by
  induction hall with
  | nil => exact .slnil
  | @cons children fs cs groups hfs _ ih =>
    rw [List.flatten_cons, List.map_append, filedIn_append, List.flatMap_cons]
    rcases hfs with ⟨single, -, ha, hy⟩ | ⟨rfl, -⟩
    · rw [hy.placements, filedIn_placements hl ha]
      exact ih.append_left _
    · exact (List.nil_sublist _).append ih

end Task

namespace Work

variable {task : Task} {work : Work}

/-- A step adds a part of what it contributes, and all of it if the pass is not to be cancelled. -/
theorem Sound.exists_derivations_runStep (h : work.Sound) (ho : work.Open)
    (hl : task.pass ≠ .first) (step : Step) (cell : Cell) :
    ∃ new, new.Sublist
        ((work.readings step).flatMap (task.contribution step.rule step.target cell)) ∧
      (work.cancelAt = none → new =
        (work.readings step).flatMap (task.contribution step.rule step.target cell)) ∧
      ((task.runStep work step).chart.derivations cell).Perm
        (work.chart.derivations cell ++ new) := by
  obtain ⟨groups, hall, hg⟩ := h.exists_attempts task step
  have hretention : task.retention = .all := if_neg hl
  refine ⟨_, Task.filedIn_attempts_sublist hl hall cell,
    fun hn => Task.filedIn_attempts hl hn hall cell, ?_⟩
  rw [hg.chart, hretention, filedIn_placement]
  exact Chart.derivations_addAll_perm ho.readable.visible groups.flatten cell

theorem Sound.derivations_subperm_runStep (h : work.Sound) (ho : work.Open)
    (hl : task.pass ≠ .first) (step : Step) (cell : Cell) :
    (work.chart.derivations cell).Subperm ((task.runStep work step).chart.derivations cell) := by
  obtain ⟨new, -, -, hperm⟩ := h.exists_derivations_runStep ho hl step cell
  exact (List.sublist_append_left _ _).subperm.trans hperm.symm.subperm

end Work

end GuidedChart
