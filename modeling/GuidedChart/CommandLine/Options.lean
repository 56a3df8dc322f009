import GuidedChart.Decimal.Integer

/-!
# The options of the command line

The command takes a grammar file and options. Options are read from left to right, and the first
one that is in error, or asks for help or the version, decides. An option that takes a value takes
it after an equals sign or from the next argument, which must not look like an option itself. No
option may be given twice.
-/

namespace GuidedChart.CommandLine

open Decimal (readNat? unsigned?)

/-- What the command is asked to do. -/
structure Options where
  grammar : String
  config : Option String
  params : Option String
  /-- The atom every utterance should denote. -/
  target : Option String
  maxDepth : Option Nat
  beamSize : Option Nat
  backoff : Bool
  train : Bool
  chart : Bool
deriving DecidableEq

/-- What the arguments come to. -/
inductive Invocation where
  | run (options : Options)
  | help
  | version
  | refused
deriving DecidableEq

structure Draft where
  grammar : Option String := none
  config : Option String := none
  params : Option String := none
  target : Option String := none
  maxDepth : Option Nat := none
  beamSize : Option Nat := none
  backoff : Bool := false
  train : Bool := false
  chart : Bool := false

namespace Draft

def finish (draft : Draft) : Invocation :=
  match draft with
  | { grammar := some grammar, config, params, target, maxDepth, beamSize, backoff, train,
      chart } =>
    .run { grammar, config, params, target, maxDepth, beamSize, backoff, train, chart }
  | _ => .refused

/-- The draft with an argument that belongs to no option. -/
def setPositional? (draft : Draft) (value : String) : Option Draft :=
  if draft.grammar.isSome || value.isEmpty then none
  else some { draft with grammar := some value }

/-- A natural number of 64 bits, which may have a plus sign. -/
def natural? (value : String) : Option Nat :=
  let digits := match value.toList with
    | '+' :: rest => rest
    | cs => cs
  (readNat? digits).bind unsigned?

/-- The draft with the value of an option, if the value is in order and the first one. -/
def setValue? (draft : Draft) (name value : String) : Option Draft :=
  match name with
  | "config" =>
    if draft.config.isSome || value.isEmpty then none else some { draft with config := some value }
  | "params" =>
    if draft.params.isSome || value.isEmpty then none else some { draft with params := some value }
  | "target" =>
    if draft.target.isSome then none else some { draft with target := some value }
  | "max-depth" =>
    if draft.maxDepth.isSome then none
    else (natural? value).map fun n => { draft with maxDepth := some n }
  | "beam-size" =>
    if draft.beamSize.isSome then none
    else (natural? value).map fun n => { draft with beamSize := some n }
  | _ => none

/-- The draft with an option that takes no value, if it is given for the first time. -/
def setFlag? (draft : Draft) (name : String) : Option Draft :=
  match name with
  | "backoff" => if draft.backoff then none else some { draft with backoff := true }
  | "train" => if draft.train then none else some { draft with train := true }
  | "chart" => if draft.chart then none else some { draft with chart := true }
  | _ => none

end Draft

def valueOptions : List String :=
  ["config", "params", "target", "max-depth", "beam-size"]

/-- Does an argument look like an option? A single dash does not. -/
def isOptionLike (arg : String) : Bool :=
  match arg.toList with
  | '-' :: _ :: _ => true
  | _ => false

/-- What one argument does to a draft. -/
inductive Reading where
  | next (draft : Draft)
  /-- The next argument is the value of this option. -/
  | awaits (name : String)
  /-- Everything behind belongs to no option. -/
  | onlyPositionals
  | stop (invocation : Invocation)

def Reading.ofOption : Option Draft → Reading
  | some draft => .next draft
  | none => .stop .refused

/-- A long option, with what stands behind its first equals sign. -/
def readLong (draft : Draft) (name : String) (attached : Option String) : Reading :=
  if valueOptions.contains name then
    match attached with
    | some value => .ofOption (draft.setValue? name value)
    | none => .awaits name
  else if attached.isSome then .stop .refused
  else if name = "help" then .stop .help
  else if name = "version" then .stop .version
  else .ofOption (draft.setFlag? name)

def readArg (draft : Draft) (arg : String) : Reading :=
  match arg.toList with
  | ['-', '-'] => .onlyPositionals
  | '-' :: '-' :: body =>
    let name := String.ofList (body.takeWhile (· ≠ '='))
    match body.dropWhile (· ≠ '=') with
    | _ :: value => readLong draft name (some (String.ofList value))
    | [] => readLong draft name none
  | '-' :: 'h' :: _ => .stop .help
  | '-' :: 'V' :: _ => .stop .version
  | '-' :: _ :: _ => .stop .refused
  | _ => .ofOption (draft.setPositional? arg)

/-- Arguments of which none belongs to an option. -/
def readPositionals (draft : Draft) : List String → Invocation
  | [] => draft.finish
  | arg :: args =>
    match draft.setPositional? arg with
    | some draft => readPositionals draft args
    | none => .refused

/-- The arguments of the command, with the option whose value comes next, if one does. -/
def readArgs (draft : Draft) : Option String → List String → Invocation
  | none, [] => draft.finish
  | some _, [] => .refused
  | some name, value :: args =>
    if isOptionLike value then .refused
    else
      match draft.setValue? name value with
      | some draft => readArgs draft none args
      | none => .refused
  | none, arg :: args =>
    match readArg draft arg with
    | .next draft => readArgs draft none args
    | .awaits name => readArgs draft (some name) args
    | .onlyPositionals => readPositionals draft args
    | .stop invocation => invocation

def Invocation.ofArgs (args : List String) : Invocation :=
  readArgs {} none args

structure Program where
  name : String
  version : String
  /-- What it does, on one line. -/
  about : String

def Program.versionText (program : Program) : String :=
  program.name ++ " " ++ program.version ++ "\n"

/-- The answer to a question for help. What is said of an argument starts in one column, and the
column is reached also where nothing is said. -/
def Program.helpText (program : Program) : String :=
  program.about ++ "\n\n" ++
    "Usage: " ++ program.name ++ " [OPTIONS] <GRAMMAR>\n\n" ++
    "Arguments:\n" ++
    "  <GRAMMAR>  Grammar file\n\n" ++
    "Options:\n" ++
    "      --config <CONFIG>        JSON parser config. Flags below override it\n" ++
    "      --params <PARAMS>        Feature weights, one `feature<TAB>weight` per line\n" ++
    "      --target <TARGET>        Value every utterance should denote, like `10` or " ++
    "`fb:en.paris`\n" ++
    "      --max-depth <MAX_DEPTH>  \n" ++
    "      --beam-size <BEAM_SIZE>  \n" ++
    "      --backoff                Also run a plain beam parse and mix its candidates in\n" ++
    "      --train                  Look for the target first and only keep what leads to it " ++
    "(needs --target)\n" ++
    "      --chart                  Print the second pass's chart\n" ++
    "  -h, --help                   Print help\n" ++
    "  -V, --version                Print version\n"

end GuidedChart.CommandLine
