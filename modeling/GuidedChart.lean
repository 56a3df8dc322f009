import GuidedChart.Deadline
import GuidedChart.Main
import GuidedChart.Proofs.Congruence
import GuidedChart.Proofs.Chart.Holdings
import GuidedChart.Proofs.Chart.Trims
import GuidedChart.Proofs.Chart.History
import GuidedChart.Proofs.Chart.Representation
import GuidedChart.Proofs.Chart.SingleFormula
import GuidedChart.Proofs.Chart.Ranking
import GuidedChart.Proofs.Construction.Filing
import GuidedChart.Proofs.Construction.Run
import GuidedChart.Proofs.Coverage
import GuidedChart.Proofs.Grammar.Accepted
import GuidedChart.Proofs.Construction.Schedule
import GuidedChart.Proofs.Provenance
import GuidedChart.Proofs.Construction.Acyclic
import GuidedChart.Proofs.Parsing
import GuidedChart.Proofs.Precision
import GuidedChart.Proofs.Recall
import GuidedChart.Proofs.Chart.Placement
import GuidedChart.Proofs.Construction.Contributions
import GuidedChart.Proofs.Agreement
import GuidedChart.Proofs.Construction.Completion
import GuidedChart.Proofs.Licensing
import GuidedChart.Proofs.Floating
import GuidedChart.Proofs.Containment
import GuidedChart.Proofs.Construction.Reading
import GuidedChart.Proofs.Certificates
import GuidedChart.Proofs.Grammar.Categories
import GuidedChart.Proofs.Grammar.Chains
import GuidedChart.Proofs.Grammar.Distances
import GuidedChart.Proofs.Grammar.Cycles
import GuidedChart.Proofs.Chart.Pairing
import GuidedChart.Proofs.Construction.Mirror
import GuidedChart.Proofs.Usefulness
import GuidedChart.Proofs.Justification
import GuidedChart.Proofs.Exclusion
import GuidedChart.Proofs.Locality
import GuidedChart.Proofs.Construction.Permission
import GuidedChart.Proofs.Construction.Timing
import GuidedChart.Proofs.Construction.Trailing
import GuidedChart.Proofs.Cancellation
import GuidedChart.Proofs.Interchange
import GuidedChart.Proofs.Chart.Renaming
import GuidedChart.Proofs.Renumbering
import GuidedChart.Proofs.Independence
import GuidedChart.Proofs.Construction.Sweeping
import GuidedChart.Proofs.Searching
import GuidedChart.Proofs.Determinism
import GuidedChart.Proofs.Construction.History
import GuidedChart.Proofs.Accounting
import GuidedChart.Proofs.Leaves
import GuidedChart.Proofs.Evaluation
import GuidedChart.Proofs.Identification
import GuidedChart.Proofs.Grammar.Additions
import GuidedChart.Proofs.Grammar.Phases
import GuidedChart.Proofs.Grammar.Wording
import GuidedChart.Proofs.Grammar.Layout
import GuidedChart.Proofs.Grammar.Atoms
import GuidedChart.Proofs.Grammar.Printing
import GuidedChart.Proofs.Matching
import GuidedChart.Proofs.Grammar.Lines
import GuidedChart.Proofs.Weighing
