import GuidedChart.Proofs.Construction.Filing

/-!
# What the numbers of a step stand for

A step over children whose numbers have the senses of the children (`MeaningTable.Knows`) keeps a
table that refers back as it should be (`Task.refersBack_runStep`), and each of its findings has a
number with the sense of the derivation found (`Task.exists_gains_runStep`).
-/

namespace GuidedChart

open GuidedChart.Derivation (sense)

/-- Does the table know the meanings of these children as what they are? -/
def MeaningTable.Knows (table : MeaningTable) (children : List Child) : Prop :=
  ∀ child ∈ children, table.sense? child.key.meaning = some child.derivation.sense

theorem MeaningTable.Knows.mono {table later : MeaningTable} {children : List Child}
    (h : table.Knows children) (hl : table.senses <+: later.senses) : later.Knows children :=
  fun child hc => sense?_of_prefix hl (h child hc)

namespace Work

/-- The first work comes to the second one by adding findings to its chart, and the numbers of these
have the senses of what was found. -/
structure Gains (retention : Retention) (before after : Work) (fs : List Finding) : Prop
    extends Adds retention before after fs where
  senses : before.table.senses <+: after.table.senses
  refersBack : after.table.RefersBack
  sense? : ∀ f ∈ fs, after.table.sense? f.key.meaning = some f.derivation.sense

theorem Gains.sense?_of_sense? {retention : Retention} {before after : Work} {fs : List Finding}
    (h : Gains retention before after fs) {id : MeaningId} {s : Sense}
    (hs : before.table.sense? id = some s) : after.table.sense? id = some s :=
  MeaningTable.sense?_of_prefix h.senses hs

end Work

namespace Task

/-! ## Numbering the meaning of a candidate -/

section Candidates

variable {table : MeaningTable} {rule : Rule} {target : Cell} {children : List Child}

theorem refersBelow_ofOutcome (hk : table.Knows children) (outcome : Outcome) :
    (Meaning.ofOutcome outcome rule.id (ingredient rule target children).first
      (ingredient rule target children).second).RefersBelow table.size := by
  have hchild : ∀ (i : Nat), ∀ id ∈ children[i]?.map (·.key.meaning), id < table.size := by
    intro i id hid
    obtain ⟨child, hc, rfl⟩ := Option.map_eq_some_iff.1 hid
    exact MeaningTable.lt_size_of_sense? (hk child (List.mem_of_getElem? hc))
  cases outcome with
  | ok v => trivial
  | error e => exact ⟨hchild 0, hchild 1⟩

/-- The meaning a candidate is numbered under has the sense of the candidate. -/
theorem sense_ofOutcome (hk : table.Knows children) {tokens : List String} {c : Derivation}
    (hc : c ∈ (application rule target children).candidates tokens) :
    (Meaning.ofOutcome c.formula.execute rule.id (ingredient rule target children).first
      (ingredient rule target children).second).sense table.senses = c.sense := by
  have hchild : ∀ i : Nat, (children[i]?.map (·.key.meaning)).bind (table.senses[·]?) =
      (c.children.map sense)[i]? := by
    intro i
    rw [Application.children_of_mem hc]
    cases hi : children[i]? with
    | none => simp [application, hi]
    | some child =>
      have hs : table.senses[child.key.meaning]? = some child.derivation.sense :=
        hk child (List.mem_of_getElem? hi)
      simpa [application, hi] using hs
  rw [Derivation.sense_eq, Application.rule_of_mem hc, Formula.value?]
  cases c.formula.execute with
  | ok v => rfl
  | error e =>
    change Sense.failure _ _ _ = Sense.failure _ _ _
    rw [← hchild 0, ← hchild 1]
    rfl

end Candidates

/-! ## The table of a step -/

section Table

variable (task : Task) {work : Work} {rule : Rule} {target : Cell} {children : List Child}

theorem table_file (work : Work) (f : Finding) : (task.file work f).table = work.table := by
  simp only [file]
  split
  · split <;> rfl
  · rfl

theorem table_consider (i : Ingredient) (sources : List BackPointer) (single : Bool) (work : Work)
    (c : Derivation) : (task.consider i sources single work c).table =
      (work.table.intern (Meaning.ofOutcome c.formula.execute i.rule i.first i.second)).1 := by
  simp only [consider]
  split
  · rfl
  · exact task.table_file _ _

theorem refersBack_carryOut (hb : work.table.RefersBack) (hk : work.table.Knows children) :
    (task.carryOut rule target children work).table.RefersBack := by
  have hboth : (task.carryOut rule target children work).table.RefersBack ∧
      (task.carryOut rule target children work).table.Knows children := by
    refine List.foldlRecOn _ _
      (motive := fun w : Work => w.table.RefersBack ∧ w.table.Knows children) ⟨hb, hk⟩
      fun w hw c _ => ?_
    rw [table_consider]
    exact ⟨hw.1.intern (refersBelow_ofOutcome hw.2 _),
      hw.2.mono (MeaningTable.senses_prefix_intern _ _)⟩
  exact hboth.1

theorem refersBack_apply (hb : work.table.RefersBack) (hk : work.table.Knows children) :
    (task.apply rule target children work).table.RefersBack := by
  unfold apply
  cases task.verdict rule target children work with
  | admitted => exact task.refersBack_carryOut hb hk
  | passedOver | disallowed | overlapping => exact hb

theorem knows_of_mem_readings {step : Step} (hk : ∀ cell, work.table.Knows (work.children cell))
    (hc : children ∈ work.readings step) : work.table.Knows children := by
  intro child hchild
  obtain ⟨cell, -, hm⟩ := Work.exists_cell_of_mem_readings hc hchild
  exact hk cell child hm

/-- A step over children that the table knows numbers nothing before what it refers to. -/
theorem refersBack_runStep (step : Step) (hb : work.table.RefersBack)
    (hk : ∀ cell, work.table.Knows (work.children cell)) :
    (task.runStep work step).table.RefersBack := by
  have hboth : (task.runStep work step).table.RefersBack ∧
      work.table.senses <+: (task.runStep work step).table.senses := by
    refine List.foldlRecOn (work.readings step) _
      (motive := fun w : Work => w.table.RefersBack ∧ work.table.senses <+: w.table.senses)
      ⟨hb, List.prefix_refl _⟩ fun w hw children hc => ⟨?_, ?_⟩
    · exact task.refersBack_apply hw.1 ((knows_of_mem_readings hk hc).mono hw.2)
    · obtain ⟨fs, hadds, -⟩ := task.exists_yields_apply w step.rule step.target children
      exact hw.2.trans (MeaningTable.senses_prefix hadds.keys)
  exact hboth.1

end Table

/-- What a step finds has numbers with the senses of what was found. -/
theorem exists_gains_runStep (task : Task) {work : Work} (step : Step)
    (hb : work.table.RefersBack) (hkeyed : work.chart.Keyed)
    (hk : ∀ cell, work.table.Knows (work.children cell)) :
    ∃ groups, List.Forall₂ (task.Attempts step work) (work.readings step) groups ∧
      work.Gains task.retention (task.runStep work step) groups.flatten := by
  obtain ⟨groups, hall, hadds⟩ := task.exists_attempts_runStep step hkeyed
  have hsenses := MeaningTable.senses_prefix hadds.keys
  have hrefers := task.refersBack_runStep step hb hk
  refine ⟨groups, hall, hadds, hsenses, hrefers, fun f hf => ?_⟩
  obtain ⟨children, hc, single, -, -, g, hg, hfinds, hlift⟩ := exists_finds_of_mem hall hf
  have hmeans : f.means = g.means ∧ f.derivation = g.derivation := by
    rcases hlift with rfl | ⟨hl, -⟩
    · exact ⟨rfl, rfl⟩
    · exact ⟨hl.means_eq, hl.derivation⟩
  obtain ⟨c, hcandidate, -, hfinished⟩ := mem_accepted.1 hfinds.derivation
  rw [MeaningTable.sense?_eq hrefers, hadds.key? f hf, hmeans.1, hmeans.2, Finding.means,
    hfinds.ingredient, ← hfinished, formula_finished, sense_finished, Option.map_some]
  exact congrArg some
    (sense_ofOutcome ((knows_of_mem_readings hk hc).mono hsenses) hcandidate)

end Task

end GuidedChart
