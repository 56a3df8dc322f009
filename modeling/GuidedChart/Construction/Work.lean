import GuidedChart.Application
import GuidedChart.Chart.Beam
import GuidedChart.Parser.Basic
import GuidedChart.Report

/-!
# The work of a pass

A pass fills a chart by applying rules to children and filing what comes of it. The first pass
looks for every way to the target and keeps one witness for each meaning; the second pass looks
only at what it is allowed to and keeps everything that the beam does not cut.

A pass may be cancelled between two applications. From then on only root cells are filled, with
what is there already; every other application is passed over. A clock that counts the attempted
applications says when that is.
-/

namespace GuidedChart

inductive Pass where
  /-- Find every way of reaching the target, one witness for each entry. -/
  | first
  /-- Parse within what the first pass found, with the full beam. -/
  | second
  | done
deriving DecidableEq, Repr

def Pass.name : Pass → String
  | .first => "first"
  | .second => "second"
  | .done => "done"

/-- What a pass is to do. -/
structure Task where
  parser : Parser
  tokens : List String
  pass : Pass
  /-- The ingredients a second pass may use; all of them, if there is no such list. -/
  allowed : Option (Numbering Ingredient)

structure Work where
  chart : Chart
  table : MeaningTable
  /-- The cells that were added to since the beam was last applied. -/
  touched : Numbering Cell
  report : PassReport
  clock : Nat
  /-- The time on the clock from which the pass is cancelled, if it is. -/
  cancelAt : Option Nat

/-- A derivation of a chart, offered to a rule, with the key of its record. -/
structure Child where
  key : BackPointer
  derivation : Derivation

/-- What becomes of an attempt to apply a rule. -/
inductive Verdict where
  /-- The pass is cancelled and does not work on this cell any more. -/
  | passedOver
  /-- The first pass did not find this way. -/
  | disallowed
  /-- The children share more tokens than they may. -/
  | overlapping
  | admitted
deriving DecidableEq, Repr

namespace Work

def start (table : MeaningTable) (cancelAt : Option Nat) : Work :=
  ⟨.empty, table, .empty, {}, 0, cancelAt⟩

def isCancelled (work : Work) : Bool :=
  match work.cancelAt with
  | some time => time ≤ work.clock
  | none => false

def cancel (work : Work) : Work :=
  if work.isCancelled then work else { work with cancelAt := some work.clock }

def tick (work : Work) : Work :=
  { work with clock := work.clock + 1 }

def count (work : Work) (change : PassReport → PassReport) : Work :=
  { work with report := change work.report }

/-- The derivations of a cell that rules may be applied to. -/
def children (work : Work) (cell : Cell) : List Child :=
  (work.chart.entries cell).flatMap fun record =>
    record.derivations.toList.map (⟨record.key, ·⟩)

def add (work : Work) (retention : Retention) (f : Finding) : Work :=
  { work with
    chart := work.chart.add retention f
    touched := work.touched.insert f.key.cell }

end Work

namespace Task

def retention (task : Task) : Retention :=
  if task.pass = .first then .representative else .all

/-- May this way to a meaning be taken? -/
def allows (task : Task) (ingredient : Ingredient) : Bool :=
  task.pass = .first ||
    match task.allowed with
    | some ingredients => ingredients.contains ingredient
    | none => true

/-- Do two children share more tokens than they may? The first pass does not ask. -/
def overlaps (task : Task) (children : List Child) : Bool :=
  task.pass ≠ .first &&
    match task.parser.config.maxAnchorOverlap, children with
    | some limit, [a, b] => limit < a.derivation.overlap b.derivation
    | _, _ => false

/-- The way to a meaning that a rule over these children is. -/
def ingredient (rule : Rule) (target : Cell) (children : List Child) : Ingredient :=
  ⟨target, rule.id, children[0]?.map (·.key.meaning), children[1]?.map (·.key.meaning)⟩

/-- The strategies that may discard a derivation. In the first pass that is only those that are
known to be safe there, unless everything the derivation is built from is unambiguous and the
configuration says that no more is needed. -/
def pruner (task : Task) (sourcesSingle : Bool) : Pruner :=
  task.parser.pruner.restrict <|
    if task.pass = .first && !(task.parser.config.aggressivePruning && sourcesSingle) then
      some task.parser.config.firstPassStrategies
    else none

/-- Files a finding. What is found for an anchored cell that floating rules start from is filed in
the floating cell of depth zero too, with the anchored record as its source; that takes a permission
of its own. -/
def file (task : Task) (work : Work) (f : Finding) : Work :=
  let work := work.add task.retention f
  let category := f.key.cell.category
  if f.key.cell.isAnchored && task.parser.lifts category then
    let cell := Cell.floating category 0
    let ingredient := { f.ingredient with cell }
    if task.allows ingredient then
      work.add task.retention
        { f with
          key := ⟨cell, f.key.meaning⟩
          ingredient
          sources := [f.key]
          sourcesSingle := work.chart.isSingleFormula f.key }
    else work.count fun report => { report with disallowed := report.disallowed + 1 }
  else work

/-- Executes a candidate, numbers its meaning and files it unless a strategy discards it. Scores are
of no use in the first pass. -/
def consider (task : Task) (ingredient : Ingredient) (sources : List BackPointer)
    (sourcesSingle : Bool) (work : Work) (candidate : Derivation) : Work :=
  let outcome := candidate.formula.execute
  let (table, meaning) := work.table.intern
    (Meaning.ofOutcome outcome ingredient.rule ingredient.first ingredient.second)
  let work := { work with table }
  let executed := { candidate with outcome := some outcome }
  if (task.pruner sourcesSingle).discards executed.formula executed.outcome then
    work.count fun report => { report with pruned := report.pruned + 1 }
  else
    let derivation :=
      if task.pass = .first then executed
      else { executed with score := task.parser.scorer executed }
    task.file work
      ⟨⟨ingredient.cell, meaning⟩, derivation, ingredient, sources, sourcesSingle⟩

def passesOver (task : Task) (work : Work) (target : Cell) : Bool :=
  work.isCancelled && target.category ≠ task.parser.grammar.root

/-- Says what becomes of an attempt to apply a rule. Permission is asked for before the overlap of
the children is looked at. -/
def verdict (task : Task) (rule : Rule) (target : Cell) (children : List Child) (work : Work) :
    Verdict :=
  if task.passesOver work target then .passedOver
  else if !task.allows (ingredient rule target children) then .disallowed
  else if task.overlaps children then .overlapping
  else .admitted

def application (rule : Rule) (target : Cell) (children : List Child) : Application :=
  ⟨rule, target.span, children.map (·.derivation)⟩

def carryOut (task : Task) (rule : Rule) (target : Cell) (children : List Child) (work : Work) :
    Work :=
  let sources := children.map (·.key)
  ((application rule target children).candidates task.tokens).foldl
    (task.consider (ingredient rule target children) sources
      (sources.all work.chart.isSingleFormula)) work

/-- Applies a rule to children and files what comes of it in the target cell. -/
def apply (task : Task) (rule : Rule) (target : Cell) (children : List Child) (work : Work) :
    Work :=
  let attempted := work.tick.count fun report =>
    { report with applications := report.applications + 1 }
  match task.verdict rule target children work with
  | .passedOver => work.tick
  | .disallowed => attempted.count fun report => { report with disallowed := report.disallowed + 1 }
  | .overlapping =>
    attempted.count fun report => { report with anchorOverlaps := report.anchorOverlaps + 1 }
  | .admitted => task.carryOut rule target children attempted

/-- Applies the beam of the pass to one cell. -/
def cut (task : Task) (work : Work) (cell : Cell) : Work :=
  let drop (n : Nat) (report : PassReport) : PassReport :=
    { report with beamDropped := report.beamDropped + n }
  if task.pass = .first then
    match task.parser.config.firstPassBeam with
    | some k =>
      let hidden := work.chart.numHidden cell k
      { work with chart := work.chart.truncate cell k }.count (drop hidden)
    | none => work
  else
    let k := task.parser.config.beamSize
    let dropped := work.chart.numDropped cell k
    { work with chart := work.chart.keepBest cell k }.count (drop dropped)

/-- Applies the beam of the pass to every cell that was added to since the last time. -/
def settle (task : Task) (work : Work) : Work :=
  { work.touched.toList.foldl task.cut work with touched := .empty }

/-- The work with the last beam applied and the whole chart counted. -/
def finish (task : Task) (work : Work) : Work :=
  let work := task.settle work
  let entries := work.chart.records.filter (!·.hidden)
  work.count fun report =>
    { report with
      cells := work.chart.cells.length
      entries := entries.length
      failures := entries.countP (work.table.isFailure ·.key.meaning)
      derivations := (entries.flatMap (·.derivations.toList)).length }

end Task

end GuidedChart
