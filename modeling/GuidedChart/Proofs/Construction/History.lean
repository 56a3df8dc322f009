import GuidedChart.Proofs.Chart.History
import GuidedChart.Proofs.Construction.Mirror

/-!
# What a pass files, from beginning to end

The history of a pass lists everything that it files in its chart, in order, with the lifts told
apart from what they are lifts of (`Task.history`). It is read off the program as it goes: whatever
a candidate, an application, a step or a block files is filed by the work as it is then.

The chart that a pass ends with comes about by filing its history and applying its beam now and
then (`Task.Ledger`, `Task.ledger_build`). What holds at the beginning, and is kept by a finding
that is filed and by a cell that is cut, holds at the end.
-/

namespace GuidedChart

section Journal

variable {σ α β : Type} (step : σ → α → σ) (events : σ → α → List β)

/-- What happens in the course of a fold whose every step has events of its own. -/
def journal : σ → List α → List β
  | _, [] => []
  | s, a :: as => events s a ++ journal (step s a) as

variable {step events}

/-- What holds of everything that has happened and of where it has led to, if every step keeps
it so. -/
theorem journal_induction {P : List β → σ → Prop}
    (h : ∀ past s a, P past s → P (past ++ events s a) (step s a)) (as : List α) {past : List β}
    {s : σ} (hs : P past s) : P (past ++ journal step events s as) (as.foldl step s) := by
  induction as generalizing past s with
  | nil => rwa [journal, List.append_nil]
  | cons a as ih =>
    rw [journal, ← List.append_assoc]
    exact ih (h past s a hs)

end Journal

/-- A finding that a pass has filed. -/
structure Filing where
  finding : Finding
  /-- Was it lifted to a floating cell, when it was filed in an anchored one? -/
  lifted : Bool

namespace Filing

/-- The keys under which something was filed, in the order in which they came up. -/
def keys (filings : List Filing) : List BackPointer :=
  (Numbering.ofList (filings.map (·.finding.key))).toList

/-- The keys of a cell under which something was filed, in the order in which they came up. -/
def keysOf (filings : List Filing) (cell : Cell) : List BackPointer :=
  (keys filings).filter (·.cell = cell)

/-- What was filed first under a key. -/
def first? (filings : List Filing) (key : BackPointer) : Option Filing :=
  filings.find? (·.finding.key = key)

/-- What was filed where it was found. -/
def accepted (filings : List Filing) : List Filing :=
  filings.filter (!·.lifted)

def lifts (filings : List Filing) : List Filing :=
  filings.filter (·.lifted)

theorem length_accepted_add_lifts (filings : List Filing) :
    (accepted filings).length + (lifts filings).length = filings.length := by
  rw [List.length_eq_countP_add_countP lifted (l := filings), Nat.add_comm, accepted, lifts,
    ← List.countP_eq_length_filter, ← List.countP_eq_length_filter]
  simp

theorem keys_eq (filings : List Filing) :
    keys filings = Finding.keys (filings.map (·.finding)) := by
  rw [keys, Numbering.toList_ofList, Finding.keys, List.map_map]
  rfl

theorem mem_keys {filings : List Filing} {key : BackPointer} :
    key ∈ keys filings ↔ ∃ filing ∈ filings, filing.finding.key = key := by
  rw [keys, Numbering.mem_ofList, List.mem_map]

theorem first?_eq_none_iff {filings : List Filing} {key : BackPointer} :
    first? filings key = none ↔ key ∉ keys filings := by
  simp only [first?, List.find?_eq_none, mem_keys, decide_eq_true_eq, not_exists, not_and]

theorem first?_append_singleton (filings : List Filing) (filing : Filing) (key : BackPointer) :
    first? (filings ++ [filing]) key = (first? filings key).or
      (if filing.finding.key = key then some filing else none) := by
  rw [first?, List.find?_append, List.find?_singleton]
  simp only [decide_eq_true_eq, first?]

end Filing

/-! ## Histories -/

/-- The lift of a finding that the work has filed. -/
def Work.liftOf (work : Work) (f : Finding) : Finding :=
  let cell := Cell.floating f.key.cell.category 0
  { f with
    key := ⟨cell, f.key.meaning⟩
    ingredient := { f.ingredient with cell }
    sources := [f.key]
    sourcesSingle := work.chart.isSingleFormula f.key }

namespace Task

variable (task : Task)

/-- A finding is filed, and its lift if it has one and the lift is let through. -/
def filings (work : Work) (f : Finding) : List Filing :=
  let lift := (work.add task.retention f).liftOf f
  if f.key.cell.isAnchored && task.parser.lifts f.key.cell.category && task.allows lift.ingredient
  then [⟨f, false⟩, ⟨lift, true⟩]
  else [⟨f, false⟩]

/-- A candidate is filed under the number of its meaning, unless it is discarded. -/
def candidateFilings (ingredient : Ingredient) (sources : List BackPointer)
    (sourcesSingle : Bool) (work : Work) (candidate : Derivation) : List Filing :=
  let meaning := Meaning.ofOutcome candidate.formula.execute ingredient.rule ingredient.first
    ingredient.second
  if task.rejects sourcesSingle candidate then []
  else task.filings (work.number meaning)
    ⟨⟨ingredient.cell, (work.table.intern meaning).2⟩, task.finished candidate, ingredient, sources,
      sourcesSingle⟩

/-- An application that is admitted files its candidates. -/
def applicationFilings (rule : Rule) (target : Cell) (work : Work) (children : List Child) :
    List Filing :=
  if task.verdict rule target children work = .admitted then
    let sources := children.map (·.key)
    let single := sources.all work.chart.isSingleFormula
    journal (task.consider (ingredient rule target children) sources single)
      (task.candidateFilings (ingredient rule target children) sources single) work.attempt
      ((application rule target children).candidates task.tokens)
  else []

def stepFilings (work : Work) (step : Step) : List Filing :=
  journal (fun work children => task.apply step.rule step.target children work)
    (task.applicationFilings step.rule step.target) work
    (combinations (step.sources.map work.children))

def blockFilings (work : Work) (steps : List Step) : List Filing :=
  journal task.runStep task.stepFilings work steps

/-- The blocks of so many depths file something as long as the chart is not too large. -/
def depthFilings (useful : CategoryId → Nat → Bool) : Nat → Nat → Work → List Filing
  | 0, _, _ => []
  | count + 1, depth, work =>
    if task.parser.config.chartCeiling < work.chart.numEntries then []
    else
      let steps := task.depthSteps useful depth
      task.blockFilings work steps ++
        depthFilings useful count (depth + 1) (task.runBlock work steps)

/-- Everything that a pass files, in order. -/
def history (table : MeaningTable) (cancelAt : Option Nat) : List Filing :=
  let start := Work.start table cancelAt
  journal task.runBlock task.blockFilings start task.anchoredSchedule ++
    task.depthFilings task.parser.depthBounds.admits (task.parser.config.maxDepth + 1) 0
      (task.anchoredSchedule.foldl task.runBlock start)

/-! ## Ledgers -/

/-- The charts that a pass can come to by filing findings and applying its beam, with what it has
filed on the way and how much its beam has taken away. -/
inductive Ledger : List Filing → Chart → Nat → Prop
  | start : Ledger [] .empty 0
  | file {past : List Filing} {chart : Chart} {dropped : Nat} (filing : Filing) :
    Ledger past chart dropped →
    Ledger (past ++ [filing]) (chart.add task.retention filing.finding) dropped
  | truncate {past : List Filing} {chart : Chart} {dropped k : Nat} (cell : Cell) :
    task.pass = .first → task.parser.config.firstPassBeam = some k → Ledger past chart dropped →
    Ledger past (chart.truncate cell k) (dropped + chart.numHidden cell k)
  | keepBest {past : List Filing} {chart : Chart} {dropped : Nat} (cell : Cell) :
    task.pass ≠ .first → Ledger past chart dropped →
    Ledger past (chart.keepBest cell task.parser.config.beamSize)
      (dropped + chart.numDropped cell task.parser.config.beamSize)

/-- The work has come about by filing these findings and applying the beam. -/
def Booked (past : List Filing) (work : Work) : Prop :=
  task.Ledger past work.chart work.report.beamDropped

variable {task} {past : List Filing} {work : Work}

theorem Ledger.made {chart : Chart} {dropped : Nat} (h : task.Ledger past chart dropped) :
    chart.Made := by
  induction h with
  | start => exact .empty
  | file filing _ ih => exact ih.add _ filing.finding
  | truncate cell _ _ _ ih => exact ih.truncate cell _
  | keepBest cell _ _ ih => exact ih.keepBest cell _

namespace Booked

theorem add (h : task.Booked past work) (f : Finding) (lifted : Bool) :
    task.Booked (past ++ [⟨f, lifted⟩]) (work.add task.retention f) :=
  Ledger.file ⟨f, lifted⟩ h

theorem file (h : task.Booked past work) (f : Finding) :
    task.Booked (past ++ task.filings work f) (task.file work f) := by
  have hadd := h.add f false
  unfold Task.file filings
  dsimp only [Work.liftOf]
  cases f.key.cell.isAnchored && task.parser.lifts f.key.cell.category with
  | false => exact hadd
  | true =>
    cases task.allows { f.ingredient with cell := .floating f.key.cell.category 0 } with
    | false => exact hadd
    | true =>
      have hlift := hadd.add ((work.add task.retention f).liftOf f) true
      rwa [List.append_assoc] at hlift

theorem consider (h : task.Booked past work) (ingredient : Ingredient)
    (sources : List BackPointer) (single : Bool) (candidate : Derivation) :
    task.Booked (past ++ task.candidateFilings ingredient sources single work candidate)
      (task.consider ingredient sources single work candidate) := by
  let meaning := Meaning.ofOutcome candidate.formula.execute ingredient.rule ingredient.first
    ingredient.second
  by_cases hr : task.rejects single candidate = true
  · have hwork : task.consider ingredient sources single work candidate =
        (work.number meaning).count fun report => { report with pruned := report.pruned + 1 } :=
      if_pos hr
    rw [hwork, candidateFilings, if_pos hr, List.append_nil]
    exact h
  · let f : Finding := ⟨⟨ingredient.cell, (work.table.intern meaning).2⟩, task.finished candidate,
      ingredient, sources, single⟩
    have hwork : task.consider ingredient sources single work candidate =
        task.file (work.number meaning) f := if_neg hr
    have hnumber : task.Booked past (work.number meaning) := h
    rw [hwork, candidateFilings, if_neg hr]
    exact hnumber.file f

theorem apply (h : task.Booked past work) (rule : Rule) (target : Cell)
    (children : List Child) :
    task.Booked (past ++ task.applicationFilings rule target work children)
      (task.apply rule target children work) := by
  unfold Task.apply applicationFilings
  cases hv : task.verdict rule target children work with
  | passedOver | disallowed | overlapping =>
    rw [if_neg nofun, List.append_nil]
    exact h
  | admitted =>
    have hattempt : task.Booked past work.attempt := h
    rw [if_pos rfl]
    exact journal_induction (fun past w candidate hw => hw.consider _ _ _ candidate) _ hattempt

theorem runStep (h : task.Booked past work) (step : Step) :
    task.Booked (past ++ task.stepFilings work step) (task.runStep work step) :=
  journal_induction (fun _ _ children hw => hw.apply step.rule step.target children) _ h

theorem cut (h : task.Booked past work) (cell : Cell) : task.Booked past (task.cut work cell) := by
  unfold Task.cut
  by_cases hp : task.pass = .first
  · rw [if_pos hp]
    cases hk : task.parser.config.firstPassBeam with
    | none => exact h
    | some k => exact Ledger.truncate cell hp hk h
  · rw [if_neg hp]
    exact Ledger.keepBest cell hp h

theorem settle (h : task.Booked past work) : task.Booked past (task.settle work) :=
  List.foldlRecOn (motive := task.Booked past) _ task.cut h fun _ hw cell _ => hw.cut cell

theorem runBlock (h : task.Booked past work) (steps : List Step) :
    task.Booked (past ++ task.blockFilings work steps) (task.runBlock work steps) :=
  (journal_induction (fun _ _ step hw => hw.runStep step) steps h).settle

theorem runDepths (h : task.Booked past work) (useful : CategoryId → Nat → Bool)
    (count depth : Nat) :
    task.Booked (past ++ task.depthFilings useful count depth work)
      (task.runDepths useful count depth work) := by
  induction count generalizing depth past work with
  | zero =>
    rw [depthFilings, List.append_nil]
    exact h
  | succ count ih =>
    unfold Task.runDepths depthFilings
    split
    · rw [List.append_nil]
      exact h
    · rw [← List.append_assoc]
      exact ih (h.runBlock _) (depth + 1)

end Booked

/-- The chart of a pass comes about by filing its history and applying its beam. -/
theorem ledger_build (task : Task) (table : MeaningTable) (cancelAt : Option Nat) :
    task.Ledger (task.history table cancelAt) (task.build table cancelAt).chart
      (task.build table cancelAt).report.beamDropped := by
  have hstart : task.Booked [] (.start table cancelAt) := Ledger.start
  have hanchored := journal_induction (P := task.Booked) (fun _ _ steps hw => hw.runBlock steps)
    task.anchoredSchedule hstart
  rw [List.nil_append] at hanchored
  have hdepths := hanchored.runDepths task.parser.depthBounds.admits
    (task.parser.config.maxDepth + 1) 0
  exact hdepths.settle

end Task

end GuidedChart
