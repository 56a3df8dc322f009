import GuidedChart.Config.Basic
import GuidedChart.Text.Json

/-!
# Reading a configuration

A configuration is written as an object with any of the options, or as an array of options in
their order, from the first one on. Unknown and repeated options are refused, and so is a value of
the wrong kind.
-/

namespace GuidedChart

open Json (Datum)

/-- The options, in the order in which an array gives them. -/
inductive ConfigField where
  | maxDepth
  | beamSize
  | firstPassBeam
  | chartCeiling
  | deadlineSeconds
  | bySize
  | ignoreFirstPass
  | cheat
  | backoff
  | aggressivePruning
  | strategies
  | firstPassStrategies
  | maxAnchorOverlap
  | shuffleSeed
  | graceMillis
deriving DecidableEq, Repr

namespace ConfigField

def all : List ConfigField :=
  [maxDepth, beamSize, firstPassBeam, chartCeiling, deadlineSeconds, bySize, ignoreFirstPass,
    cheat, backoff, aggressivePruning, strategies, firstPassStrategies, maxAnchorOverlap,
    shuffleSeed, graceMillis]

def name : ConfigField → String
  | .maxDepth => "max_depth"
  | .beamSize => "beam_size"
  | .firstPassBeam => "first_pass_beam_size"
  | .chartCeiling => "max_num_cell_denotations"
  | .deadlineSeconds => "max_parsing_time_seconds"
  | .bySize => "use_size_instead_of_depth"
  | .ignoreFirstPass => "ignore_first_pass"
  | .cheat => "cheat"
  | .backoff => "use_backoff"
  | .aggressivePruning => "aggressive_single_formula_pruning"
  | .strategies => "pruning_strategies"
  | .firstPassStrategies => "first_pass_pruners"
  | .maxAnchorOverlap => "max_anchor_overlap"
  | .shuffleSeed => "shuffle_seed"
  | .graceMillis => "cancellation_grace_millis"

def ofName? (name : String) : Option ConfigField :=
  all.find? (·.name = name)

end ConfigField

namespace Config

/-- A natural number that fits in 64 bits. -/
def natural? : Datum → Option Nat
  | .natural n => Decimal.unsigned? n
  | _ => none

def limit? : Datum → Option (Option Nat)
  | .null => some none
  | datum => (natural? datum).map some

def bool? : Datum → Option Bool
  | .bool b => some b
  | _ => none

def names? : Datum → Option (List String)
  | .texts items => some items
  | _ => none

def set? (config : Config) (field : ConfigField) (datum : Datum) : Option Config :=
  match field with
  | .maxDepth => (natural? datum).map fun n => { config with maxDepth := n }
  | .beamSize => (natural? datum).map fun n => { config with beamSize := n }
  | .firstPassBeam => (limit? datum).map fun l => { config with firstPassBeam := l }
  | .chartCeiling => (natural? datum).map fun n => { config with chartCeiling := n }
  | .deadlineSeconds => (natural? datum).map fun n => { config with deadlineSeconds := n }
  | .bySize => (bool? datum).map fun b => { config with bySize := b }
  | .ignoreFirstPass => (bool? datum).map fun b => { config with ignoreFirstPass := b }
  | .cheat => (bool? datum).map fun b => { config with cheat := b }
  | .backoff => (bool? datum).map fun b => { config with backoff := b }
  | .aggressivePruning => (bool? datum).map fun b => { config with aggressivePruning := b }
  | .strategies => (names? datum).map fun ns => { config with strategies := ns }
  | .firstPassStrategies => (names? datum).map fun ns => { config with firstPassStrategies := ns }
  | .maxAnchorOverlap => (limit? datum).map fun l => { config with maxAnchorOverlap := l }
  | .shuffleSeed => (natural? datum).map fun n => { config with shuffleSeed := n }
  | .graceMillis => (natural? datum).map fun n => { config with graceMillis := n }

/-- The configuration with several options set by name, none of them twice. -/
def setNamed? (config : Config) (seen : List ConfigField) :
    List (String × Datum) → Option Config
  | [] => some config
  | (name, datum) :: rest => do
    let field ← ConfigField.ofName? name
    if seen.contains field then none
    else (← config.set? field datum).setNamed? (field :: seen) rest

/-- The configuration with options set in their order. -/
def setInOrder? (config : Config) : List ConfigField → List Datum → Option Config
  | _, [] => some config
  | field :: fields, datum :: rest => do (← config.set? field datum).setInOrder? fields rest
  | [], _ :: _ => none

/-- The configuration of a text, where options that are not mentioned have their defaults. -/
def ofText? (text : String) : Option Config := do
  match ← Json.document? text with
  | .object members => ({} : Config).setNamed? [] members
  | .array members => ({} : Config).setInOrder? ConfigField.all members

end Config

end GuidedChart
