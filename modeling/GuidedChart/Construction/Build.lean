import GuidedChart.Construction.Schedule
import GuidedChart.Construction.Work

/-!
# Building a chart

A pass carries out its schedule block by block. Before each depth of floating cells it looks at the
size of the chart, and stops there if the chart has grown too large.
-/

namespace GuidedChart

/-- All ways to take one element from each list, those that agree on the first elements next to
each other. -/
def combinations : List (List α) → List (List α)
  | [] => [[]]
  | xs :: rest => xs.flatMap fun x => (combinations rest).map (x :: ·)

/-- What a pass leaves behind. -/
structure PassOutput where
  chart : Chart
  table : MeaningTable
  report : PassReport

namespace Task

/-- Carries out a step: the sources are read, and the rule is applied to every combination of what
they hold. -/
def runStep (task : Task) (work : Work) (step : Step) : Work :=
  (combinations (step.sources.map work.children)).foldl
    (fun work children => task.apply step.rule step.target children work) work

def runBlock (task : Task) (work : Work) (steps : List Step) : Work :=
  task.settle (steps.foldl task.runStep work)

def anchoredSchedule (task : Task) : List (List Step) :=
  task.parser.grammar.anchoredSchedule task.tokens

/-- The block of the floating cells of one depth, for the rules that are useful there. -/
def depthSteps (task : Task) (useful : CategoryId → Nat → Bool) (depth : Nat) : List Step :=
  task.parser.grammar.depthSteps task.parser.config.bySize useful depth

/-- Carries out the blocks of so many depths, beginning with this one, as long as the chart is not
too large. -/
def runDepths (task : Task) (useful : CategoryId → Nat → Bool) : Nat → Nat → Work → Work
  | 0, _, work => work
  | count + 1, depth, work =>
    if task.parser.config.chartCeiling < work.chart.numEntries then
      work.count fun report => { report with hitCeiling := true }
    else
      task.runDepths useful count (depth + 1)
        (task.runBlock work (task.depthSteps useful depth))

/-- The work of a whole pass, with a choice of what is useful at a depth. -/
def runWith (task : Task) (useful : CategoryId → Nat → Bool) (table : MeaningTable)
    (cancelAt : Option Nat) : Work :=
  let anchored := task.anchoredSchedule.foldl task.runBlock (Work.start table cancelAt)
  task.finish (task.runDepths useful (task.parser.config.maxDepth + 1) 0 anchored)

/-- The work of a whole pass. A floating rule is applied only at depths from which a floating root
can still be reached. -/
def run (task : Task) (table : MeaningTable) (cancelAt : Option Nat) : Work :=
  task.runWith task.parser.depthBounds.admits table cancelAt

def build (task : Task) (table : MeaningTable) (cancelAt : Option Nat) : PassOutput :=
  let work := task.run table cancelAt
  ⟨work.chart, work.table, work.report⟩

end Task

end GuidedChart
