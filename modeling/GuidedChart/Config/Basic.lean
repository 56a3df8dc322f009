import GuidedChart.Error
import GuidedChart.Pruning

/-!
# Configuration

The options of a parser. Every option has a default, so a configuration need only say what it
changes.
-/

namespace GuidedChart

structure Config where
  /-- The deepest level of floating cells that is built. -/
  maxDepth : Nat := 4
  /-- Derivations kept for each meaning of a cell in the second pass. -/
  beamSize : Nat := 200
  /-- Meanings kept for each cell in the first pass, if there is a limit. -/
  firstPassBeam : Option Nat := none
  /-- Floating construction stops once the chart holds more entries than this. -/
  chartCeiling : Nat := 100000
  deadlineSeconds : Nat := 60
  /-- The children of a binary floating rule have depths that add up to the level below the rule,
  instead of the deeper one lying on that level. -/
  bySize : Bool := false
  ignoreFirstPass : Bool := false
  /-- Run the first pass even where expected counts are not wanted, if the target is known. -/
  cheat : Bool := false
  /-- Add the candidates of a plain parse in one pass. -/
  backoff : Bool := false
  /-- In the first pass, apply every strategy to derivations whose children are unambiguous. -/
  aggressivePruning : Bool := true
  /-- The names of the active pruning strategies. -/
  strategies : List String := ["emptyDenotation"]
  /-- The names of those that apply in the first pass. -/
  firstPassStrategies : List String := ["emptyDenotation"]
  /-- In the second pass, the most token positions that two children may share. -/
  maxAnchorOverlap : Option Nat := none
  shuffleSeed : Nat := 1
  /-- The time a worker is given to notice that it was cancelled. -/
  graceMillis : Nat := 1000
deriving DecidableEq

namespace Config

def deadlineMillis (config : Config) : Nat :=
  1000 * config.deadlineSeconds

/-- Checks the options against each other and against the strategies of the parser. -/
def validate (config : Config) (pruner : Pruner) : Except ConfigError Unit :=
  if config.beamSize = 0 then .error (.notPositive "beam_size")
  else if config.firstPassBeam = some 0 then .error (.notPositive "first_pass_beam_size")
  else if config.deadlineSeconds = 0 then .error (.notPositive "max_parsing_time_seconds")
  else
    match config.firstPassStrategies.find? (!pruner.has ·) with
    | some name => .error (.inactiveStrategy name)
    | none => .ok ()

def pruner (config : Config) : Except ConfigError Pruner := do
  let pruner ← Pruner.ofNames config.strategies
  config.validate pruner
  return pruner

/-- A pruner is made of the strategies that are named, and the options were checked against it. -/
theorem eq_ok_of_pruner {config : Config} {pruner : Pruner} (h : config.pruner = .ok pruner) :
    Pruner.ofNames config.strategies = .ok pruner ∧ config.validate pruner = .ok () := by
  unfold Config.pruner at h
  cases hn : Pruner.ofNames config.strategies with
  | error e =>
    rw [hn] at h
    cases h
  | ok named =>
    rw [hn] at h
    cases hv : config.validate named with
    | error e =>
      simp only [bind, Except.bind, hv] at h
      cases h
    | ok =>
      simp only [bind, Except.bind, hv] at h
      cases h
      exact ⟨rfl, hv⟩

theorem beamSize_pos_of_pruner {config : Config} {pruner : Pruner}
    (h : config.pruner = .ok pruner) : 0 < config.beamSize := by
  refine Nat.pos_of_ne_zero fun hz => ?_
  have hv := (eq_ok_of_pruner h).2
  rw [validate, if_pos hz] at hv
  cases hv

end Config

end GuidedChart
